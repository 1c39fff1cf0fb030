import EntityGraph.Filter.Json
import EntityGraph.Proofs.Filter.Decoding
import EntityGraph.Proofs.Schema.Building
import EntityGraph.Proofs.Value.Tagging
/-!
# The tagged form of filters

The canonical tagged form is the same document exactly for filters that are the same, as long as no
field is named like a part of a filter. Fields, operators and the tags of values share one space of
keys, so the forms of conditions are first shown to be apart from those of filters at every depth.
-/
namespace EntityGraph

/-! ### Conditions -/

namespace Condition

lemma Operator.name_injective : Function.Injective Operator.name := by
  intro operator other h
  have hread : Operator.ofName? operator.name = Operator.ofName? other.name := by rw [h]
  rw [Operator.ofName?_name, Operator.ofName?_name] at hread
  exact Option.some_inj.mp hread

mutual
/-- Whether two conditions are the same up to the spelling of decimals. -/
def equal : Condition → Condition → Bool
  | and operands, and others => equalAll operands others
  | or operands, or others => equalAll operands others
  | not operand, not other => equal operand other
  | compare comparison v, compare other w => comparison = other && v.equal w
  | oneOf vs, oneOf ws => Value.equalLists vs ws
  | noneOf vs, noneOf ws => Value.equalLists vs ws
  | isNull flag, isNull other => flag = other
  | null flag, null other => flag = other
  | never, never => true
  | always, always => true
  | _, _ => false
termination_by structural condition => condition

def equalAll : List Condition → List Condition → Bool
  | [], [] => true
  | operand :: rest, other :: others => equal operand other && equalAll rest others
  | _, _ => false
termination_by structural conditions => conditions
end

/-- The tagged form of a condition. -/
abbrev toTaggedJson (condition : Condition) : Json := condition.toJsonWith Value.toTaggedJson

abbrev allToTaggedJson (conditions : List Condition) : List Json :=
  allToJsonWith Value.toTaggedJson conditions

/-- What stands under the operator of a condition. -/
def operandJson : Condition → Json
  | and operands => .array (allToTaggedJson operands)
  | or operands => .array (allToTaggedJson operands)
  | not operand => operand.toTaggedJson
  | compare _ value => value.toTaggedJson
  | oneOf values => .array (Value.allToTaggedJson values)
  | noneOf values => .array (Value.allToTaggedJson values)
  | isNull flag => .bool flag
  | null flag => .bool flag
  | never => .bool true
  | always => .bool true

lemma toTaggedJson_eq (condition : Condition) :
    condition.toTaggedJson = .object [(condition.operator.name, condition.operandJson)] := by
  cases condition <;> simp [toTaggedJson, toJsonWith, operator, operandJson, Operator.name,
    Value.allToTaggedJson_eq_map]

/-- Conditions of one form have one operator, and one operand under it. -/
lemma toTaggedJson_inj {a b : Condition} :
    a.toTaggedJson = b.toTaggedJson ↔ a.operator = b.operator ∧ a.operandJson = b.operandJson := by
  rw [toTaggedJson_eq, toTaggedJson_eq]
  simp [Operator.name_injective.eq_iff]

mutual
theorem toTaggedJson_eq_iff (a b : Condition) : a.toTaggedJson = b.toTaggedJson ↔ a.equal b := by
  rw [toTaggedJson_inj]
  cases a with
  | and operands =>
    cases b with
    | and others => simpa [operator, operandJson, equal] using allToTaggedJson_eq_iff operands others
    | _ => simp [operator, equal]
  | or operands =>
    cases b with
    | or others => simpa [operator, operandJson, equal] using allToTaggedJson_eq_iff operands others
    | _ => simp [operator, equal]
  | not operand =>
    cases b with
    | not other => simpa [operator, operandJson, equal] using toTaggedJson_eq_iff operand other
    | _ => simp [operator, equal]
  | compare comparison value =>
    cases b <;> simp [operator, operandJson, equal, Value.toTaggedJson_eq_iff]
  | oneOf values | noneOf values =>
    cases b <;> simp [operator, operandJson, equal, Value.allToTaggedJson_eq_iff]
  | isNull flag | null flag =>
    cases b <;> simp [operator, operandJson, equal]
  | never | always =>
    cases b <;> simp [operator, operandJson, equal]
termination_by structural a

theorem allToTaggedJson_eq_iff (as bs : List Condition) :
    allToTaggedJson as = allToTaggedJson bs ↔ equalAll as bs := by
  cases as with
  | nil => cases bs <;> simp [allToTaggedJson, allToJsonWith, equalAll]
  | cons a as =>
    cases bs with
    | nil => simp [allToTaggedJson, allToJsonWith, equalAll]
    | cons b bs =>
      have hfirst := toTaggedJson_eq_iff a b
      have hrest := allToTaggedJson_eq_iff as bs
      simp only [allToTaggedJson, allToJsonWith, List.cons.injEq, equalAll, Bool.and_eq_true]
      exact and_congr hfirst hrest
termination_by structural as
end

mutual
/-- The operator of a condition is the only member of its object. -/
@[simp] lemma canonical_toTaggedJson (condition : Condition) :
    condition.toTaggedJson.canonical = condition.toTaggedJson := by
  have hoperand : condition.operandJson.canonical = condition.operandJson := by
    cases condition with
    | and operands | or operands =>
      rw [operandJson, Json.canonical, canonicalItems_allToTaggedJson operands]
    | not operand => exact canonical_toTaggedJson operand
    | compare _ value => exact value.canonical_toTaggedJson
    | oneOf values | noneOf values =>
      rw [operandJson, Json.canonical, Value.canonicalItems_allToTaggedJson]
    | _ => rfl
  rw [toTaggedJson_eq, Json.canonical, Json.canonicalMembers, hoperand]
  rfl
termination_by structural condition

@[simp] lemma canonicalItems_allToTaggedJson (operands : List Condition) :
    Json.canonicalItems (allToTaggedJson operands) = allToTaggedJson operands := by
  cases operands with
  | nil => rfl
  | cons operand rest =>
    have hfirst := canonical_toTaggedJson operand
    have hrest := canonicalItems_allToTaggedJson rest
    simp only [allToTaggedJson, allToJsonWith, Json.canonicalItems] at hrest ⊢
    rw [hfirst, hrest]
termination_by structural operands
end

mutual
lemma isExact_toTaggedJson (condition : Condition) : condition.toTaggedJson.IsExact := by
  have hoperand : condition.operandJson.IsExact := by
    cases condition with
    | and operands | or operands => exact areExact_allToTaggedJson operands
    | not operand => exact isExact_toTaggedJson operand
    | compare _ value => exact value.isExact_toTaggedJson
    | oneOf values | noneOf values => exact Value.areExact_allToTaggedJson values
    | _ => trivial
  rw [toTaggedJson_eq]
  exact ⟨hoperand, trivial⟩
termination_by structural condition

lemma areExact_allToTaggedJson (operands : List Condition) :
    Json.AreExact (allToTaggedJson operands) := by
  cases operands with
  | nil => trivial
  | cons operand rest =>
    exact ⟨isExact_toTaggedJson operand, areExact_allToTaggedJson rest⟩
termination_by structural operands
end

end Condition

/-! ### Filters -/

namespace Filter

mutual
/-- Whether two filters are the same up to the spelling of decimals. -/
def equal : Filter → Filter → Bool
  | ⟨and, or, not, fields⟩, ⟨ands, ors, nots, others⟩ =>
    equalAll and ands && equalAll or ors && equalNegation not nots && equalFields fields others
termination_by structural filter => filter

def equalAll : List Filter → List Filter → Bool
  | [], [] => true
  | operand :: rest, other :: others => equal operand other && equalAll rest others
  | _, _ => false
termination_by structural filters => filters

def equalNegation : Option Filter → Option Filter → Bool
  | none, none => true
  | some operand, some other => equal operand other
  | _, _ => false
termination_by structural filter => filter

def equalFields : List (String × FieldFilter) → List (String × FieldFilter) → Bool
  | [], [] => true
  | (name, .condition condition) :: rest, (other, .condition condition') :: others =>
    name = other && condition.equal condition' && equalFields rest others
  | (name, .relation nested) :: rest, (other, .relation nested') :: others =>
    name = other && equal nested nested' && equalFields rest others
  | _, _ => false
termination_by structural fields => fields
end

/-- The members of a filter's object that are not fields. -/
def partNames : List String := ["and", "or", "not"]

mutual
/-- Whether, at every depth, fields are in order and none of them is named like a part. -/
def Ordinary : Filter → Prop
  | ⟨and, or, not, fields⟩ =>
    (Table.Ascending fields ∧ ∀ name ∈ Table.keys fields, name ∉ partNames) ∧
      AllOrdinary and ∧ AllOrdinary or ∧ NegationOrdinary not ∧ FieldsOrdinary fields
termination_by structural filter => filter

def AllOrdinary : List Filter → Prop
  | [] => True
  | operand :: rest => Ordinary operand ∧ AllOrdinary rest
termination_by structural operands => operands

def NegationOrdinary : Option Filter → Prop
  | none => True
  | some operand => Ordinary operand
termination_by structural operand => operand

def FieldsOrdinary : List (String × FieldFilter) → Prop
  | [] => True
  | (_, .condition _) :: rest => FieldsOrdinary rest
  | (_, .relation nested) :: rest => Ordinary nested ∧ FieldsOrdinary rest
termination_by structural fields => fields
end

/-- Whether a restriction of a field is ordinary at every depth. -/
def FieldOrdinary : FieldFilter → Prop
  | .condition _ => True
  | .relation nested => nested.Ordinary

lemma fieldsOrdinary_iff {fields : List (String × FieldFilter)} :
    FieldsOrdinary fields ↔ ∀ pair ∈ fields, FieldOrdinary pair.2 := by
  induction fields with
  | nil => simp [FieldsOrdinary]
  | cons pair rest ih =>
    obtain ⟨name, field⟩ := pair
    cases field <;> simp [FieldsOrdinary, FieldOrdinary, ih]

lemma ordinary_empty : empty.Ordinary := by
  refine ⟨⟨Table.ascending_nil, ?_⟩, trivial, trivial, trivial, trivial⟩
  simp [Table.keys]

lemma Ordinary.withField {filter : Filter} (h : filter.Ordinary) {name : String}
    (hname : name ∉ partNames) {field : FieldFilter} (hfield : FieldOrdinary field) :
    Ordinary { filter with fields := Table.insert name field filter.fields } := by
  obtain ⟨and, or, not, fields⟩ := filter
  obtain ⟨⟨hascending, hnames⟩, hand, hor, hnot, hfields⟩ := h
  refine ⟨⟨hascending.insert name field, ?_⟩, hand, hor, hnot, ?_⟩
  · intro other hother
    rcases Table.mem_keys_insert hother with rfl | hother
    · exact hname
    · exact hnames other hother
  · rw [fieldsOrdinary_iff] at hfields ⊢
    intro pair hmem
    rcases Table.mem_insert hmem with rfl | hmem
    · exact hfield
    · exact hfields pair hmem

lemma ordinary_onColumn {name : String} (hname : name ∉ partNames) (condition : Condition) :
    (onColumn name condition).Ordinary := ordinary_empty.withField hname trivial

lemma ordinary_onRelation {name : String} (hname : name ∉ partNames) {nested : Filter}
    (h : nested.Ordinary) : (onRelation name nested).Ordinary := ordinary_empty.withField hname h

lemma allOrdinary_iff {operands : List Filter} :
    AllOrdinary operands ↔ ∀ operand ∈ operands, operand.Ordinary := by
  induction operands with
  | nil => simp [AllOrdinary]
  | cons operand rest ih => rw [AllOrdinary, ih, List.forall_mem_cons]

/-- The names of parts are not read as fields. -/
lemma keptByReading_ordinary (schema : Schema) :
    KeptByReading schema fun _ filter => filter.Ordinary where
  empty _ := ordinary_empty
  and := by
    rintro entity ⟨and, or, not, fields⟩ operands ⟨hown, -, hor, hnot, hfields⟩ hoperands
    exact ⟨hown, allOrdinary_iff.mpr hoperands, hor, hnot, hfields⟩
  or := by
    rintro entity ⟨and, or, not, fields⟩ operands ⟨hown, hand, -, hnot, hfields⟩ hoperands
    exact ⟨hown, hand, allOrdinary_iff.mpr hoperands, hnot, hfields⟩
  not := by
    rintro entity ⟨and, or, not, fields⟩ operand ⟨hown, hand, hor, -, hfields⟩ hoperand
    exact ⟨hown, hand, hor, hoperand, hfields⟩
  condition h hname _ := h.withField hname trivial
  relation h hname _ _ hnested := h.withField hname hnested

/-- Every filter that is read is ordinary. -/
theorem ordinary_ofJson {schema : Schema} {entity : Entity} {json : Json} {filter : Filter}
    (h : ofJson schema entity json = .ok filter) : filter.Ordinary :=
  (keptByReading_ordinary schema).of_ofJson h

/-! #### Members of the tagged form -/

abbrev allToTaggedJson (filters : List Filter) : List Json :=
  allToJsonWith Value.toTaggedJson filters

/-- What stands under the name of a field. -/
def fieldJson : FieldFilter → Json
  | .condition condition => condition.toTaggedJson
  | .relation nested => nested.toTaggedJson

/-- What stands under the name of a part. -/
def partJson? (operands : List Filter) : Option Json :=
  if operands.isEmpty then none else some (.array (allToTaggedJson operands))

/-- The members of the tagged form. -/
def taggedMembers : Filter → Table Json
  | ⟨and, or, not, fields⟩ =>
    fieldsToJsonWith Value.toTaggedJson
      (partToJson "and" (allToTaggedJson and) ++ partToJson "or" (allToTaggedJson or) ++
        negationToJsonWith Value.toTaggedJson not) fields

lemma toTaggedJson_eq (filter : Filter) : filter.toTaggedJson = .object filter.taggedMembers := by
  cases filter
  rfl

lemma fieldsToJson_cons (members : Table Json) (name : String) (field : FieldFilter)
    (rest : List (String × FieldFilter)) :
    fieldsToJsonWith Value.toTaggedJson members ((name, field) :: rest) =
      fieldsToJsonWith Value.toTaggedJson (members.put name (fieldJson field)) rest := by
  cases field <;> rfl

/-- Fields stand before the members that they are put beside. -/
lemma find?_fieldsToJsonWith {fields : List (String × FieldFilter)} (members : Table Json)
    (h : (Table.keys fields).Nodup) (key : String) :
    (fieldsToJsonWith Value.toTaggedJson members fields).find? key =
      ((Table.find? key fields).map fieldJson).or (members.find? key) := by
  induction fields generalizing members with
  | nil => rfl
  | cons pair rest ih =>
    obtain ⟨name, field⟩ := pair
    obtain ⟨hname, hrest⟩ := List.nodup_cons.mp h
    rw [fieldsToJson_cons, ih _ hrest]
    by_cases hkey : name = key
    · subst hkey
      rw [Table.find?_eq_none hname, Table.find?_put_self, Table.find?, if_pos rfl]
      rfl
    · rw [Table.find?_put_of_ne (Ne.symm hkey), Table.find?, if_neg hkey]

lemma find?_partToJson (key part : String) (operands : List Filter) :
    Table.find? key (partToJson part (allToTaggedJson operands)) =
      if part = key then partJson? operands else none := by
  cases operands with
  | nil => simp [partToJson, partJson?, allToTaggedJson, allToJsonWith]
  | cons operand rest =>
    simp [partToJson, partJson?, allToTaggedJson, allToJsonWith, Table.find?]

lemma find?_negationToJson (key : String) (operand : Option Filter) :
    Table.find? key (negationToJsonWith Value.toTaggedJson operand) =
      if "not" = key then operand.map toTaggedJson else none := by
  cases operand <;> simp [negationToJsonWith, Table.find?, toTaggedJson]

section

variable {filter : Filter}

/-- The member under the name of a part. -/
def part? (filter : Filter) (key : String) : Option Json :=
  if key = "and" then partJson? filter.and
  else if key = "or" then partJson? filter.or
  else if key = "not" then filter.not.map toTaggedJson
  else none

lemma Ordinary.ascending (h : filter.Ordinary) : Table.Ascending filter.fields := by
  cases filter
  exact h.1.1

lemma Ordinary.notMem_partNames (h : filter.Ordinary) :
    ∀ name ∈ Table.keys filter.fields, name ∉ partNames := by
  cases filter
  exact h.1.2

lemma Ordinary.fields (h : filter.Ordinary) : FieldsOrdinary filter.fields := by
  cases filter
  exact h.2.2.2.2

lemma Ordinary.and (h : filter.Ordinary) : AllOrdinary filter.and := by
  cases filter
  exact h.2.1

lemma Ordinary.or (h : filter.Ordinary) : AllOrdinary filter.or := by
  cases filter
  exact h.2.2.1

lemma Ordinary.not (h : filter.Ordinary) {operand : Filter} (hnot : filter.not = some operand) :
    operand.Ordinary := by
  obtain ⟨and, or, not, fields⟩ := filter
  subst hnot
  exact h.2.2.2.1

lemma find?_taggedMembers (h : filter.Ordinary) (key : String) :
    filter.taggedMembers.find? key =
      ((Table.find? key filter.fields).map fieldJson).or (filter.part? key) := by
  have hnodup := h.ascending.nodup_keys
  obtain ⟨and, or, not, fields⟩ := filter
  rw [taggedMembers, find?_fieldsToJsonWith _ hnodup, Table.find?_append, Table.find?_append,
    find?_partToJson, find?_partToJson, find?_negationToJson]
  congr 1
  unfold part?
  by_cases hand : key = "and"
  · subst hand
    simp
  · by_cases hor : key = "or"
    · subst hor
      simp
    · simp [hand, hor, Ne.symm hand, Ne.symm hor, eq_comm]

/-- Only parts stand under the names of parts. -/
lemma find?_of_mem_partNames (h : filter.Ordinary) {key : String} (hkey : key ∈ partNames) :
    filter.taggedMembers.find? key = filter.part? key := by
  have hnone : Table.find? key filter.fields = none :=
    Table.find?_eq_none fun hmem => h.notMem_partNames key hmem hkey
  rw [find?_taggedMembers h, hnone]
  rfl

/-- Only fields stand under all other names. -/
lemma find?_of_notMem_partNames (h : filter.Ordinary) {key : String} (hkey : key ∉ partNames) :
    filter.taggedMembers.find? key = (Table.find? key filter.fields).map fieldJson := by
  have hnone : filter.part? key = none := by
    simp only [partNames, List.mem_cons, List.not_mem_nil, or_false, not_or] at hkey
    simp [part?, hkey]
  rw [find?_taggedMembers h, hnone, Option.or_none]

end

/-! #### Conditions are apart from filters -/

lemma operator_notMem_tags (operator : Condition.Operator) : operator.name ∉ Value.tags := by
  cases operator with
  | compare comparison => cases comparison <;> decide
  | _ => decide

lemma tag_notMem_partNames {tag : String} (h : tag ∈ Value.tags) : tag ∉ partNames := by
  revert tag
  decide

lemma exists_members_canonical (field : FieldFilter) :
    ∃ members, (fieldJson field).canonical = .object members := by
  cases field with
  | condition condition =>
    rw [fieldJson, Condition.canonical_toTaggedJson, Condition.toTaggedJson_eq]
    exact ⟨_, rfl⟩
  | relation nested =>
    rw [fieldJson, toTaggedJson_eq]
    exact ⟨_, rfl⟩

/-- The tag of a value is no operator, and a field of that name would hold an object. -/
lemma value_ne_field (value : Value) {field : FieldFilter} (hfield : FieldOrdinary field) :
    value.toTaggedJson ≠ (fieldJson field).canonical := by
  intro h
  obtain ⟨members, hmembers⟩ := exists_members_canonical field
  obtain ⟨tag, htag, text, rfl⟩ := Value.exists_tag_of_object (h.trans hmembers)
  cases field with
  | condition condition =>
    rw [fieldJson, Condition.canonical_toTaggedJson, Condition.toTaggedJson_eq] at hmembers
    obtain ⟨hname, -⟩ : condition.operator.name = tag ∧ condition.operandJson = .string text := by
      simpa using hmembers
    exact operator_notMem_tags _ (hname ▸ htag)
  | relation nested =>
    have hordinary : nested.Ordinary := hfield
    have hfind := Json.find?_canonicalMembers tag nested.taggedMembers
    rw [fieldJson, toTaggedJson_eq, Json.canonical, Json.object.injEq] at hmembers
    rw [hmembers, find?_of_notMem_partNames hordinary (tag_notMem_partNames htag),
      Table.find?, if_pos rfl, Option.map_map] at hfind
    obtain ⟨inner, -, hinner⟩ := Option.map_eq_some_iff.mp hfind.symm
    obtain ⟨others, hothers⟩ := exists_members_canonical inner
    exact absurd (hothers.symm.trans hinner) (by simp)

lemma compare_notMem_partNames (comparison : Comparison) :
    (Condition.Operator.compare comparison).name ∉ partNames := by
  cases comparison <;> decide

lemma canonical_partJson? {operands : List Filter} {json : Json}
    (h : (partJson? operands).map Json.canonical = some json) :
    operands ≠ [] ∧ json = .array (Json.canonicalItems (allToTaggedJson operands)) := by
  cases operands with
  | nil => simp [partJson?] at h
  | cons operand rest => exact ⟨by simp, (Option.some_inj.mp h).symm⟩

mutual
/-- No condition is written like a filter, whatever the fields of the filter are called. -/
theorem condition_ne_filter (condition : Condition) {filter : Filter} (h : filter.Ordinary) :
    condition.toTaggedJson ≠ filter.toTaggedJson.canonical := by
  intro heq
  have hfind : (filter.taggedMembers.find? condition.operator.name).map Json.canonical =
      some condition.operandJson := by
    rw [toTaggedJson_eq, Condition.toTaggedJson_eq, Json.canonical, Json.object.injEq] at heq
    rw [← Json.find?_canonicalMembers, ← heq, Table.find?, if_pos rfl]
  have hpart (hname : condition.operator.name ∈ partNames) :
      (filter.part? condition.operator.name).map Json.canonical = some condition.operandJson := by
    rw [← find?_of_mem_partNames h hname, hfind]
  have hfield (hname : condition.operator.name ∉ partNames) :
      ∃ field, FieldOrdinary field ∧ (fieldJson field).canonical = condition.operandJson := by
    rw [find?_of_notMem_partNames h hname, Option.map_map] at hfind
    obtain ⟨field, hfield, hoperand⟩ := Option.map_eq_some_iff.mp hfind
    exact ⟨field, fieldsOrdinary_iff.mp h.fields _ (Table.mem_of_find? hfield), hoperand⟩
  cases condition with
  | and operands =>
    obtain ⟨hne, hitems⟩ := canonical_partJson? (hpart (List.mem_cons_self ..))
    exact conditions_ne_filters operands hne h.and (Json.array.inj hitems)
  | or operands =>
    obtain ⟨hne, hitems⟩ := canonical_partJson?
      (hpart (List.mem_cons_of_mem _ (List.mem_cons_self ..)))
    exact conditions_ne_filters operands hne h.or (Json.array.inj hitems)
  | not operand =>
    have hnot := hpart (List.mem_cons_of_mem _ (List.mem_cons_of_mem _ (List.mem_cons_self ..)))
    obtain ⟨negated, hnegated, hoperand⟩ := Option.map_eq_some_iff.mp hnot
    obtain ⟨other, hother, rfl⟩ := Option.map_eq_some_iff.mp hnegated
    exact condition_ne_filter operand (h.not hother) hoperand.symm
  | compare comparison value =>
    obtain ⟨field, hordinary, hoperand⟩ := hfield (compare_notMem_partNames comparison)
    exact value_ne_field value hordinary hoperand.symm
  | _ =>
    obtain ⟨field, -, hoperand⟩ := hfield (by
      simp [Condition.operator, Condition.Operator.name, partNames])
    obtain ⟨members, hmembers⟩ := exists_members_canonical field
    exact absurd (hmembers.symm.trans hoperand) (by simp [Condition.operandJson])
termination_by structural condition

/-- Already the first of several conditions is written unlike every filter. -/
theorem conditions_ne_filters (operands : List Condition) {filters : List Filter}
    (hne : filters ≠ []) (h : AllOrdinary filters) :
    Condition.allToTaggedJson operands ≠ Json.canonicalItems (allToTaggedJson filters) := by
  cases filters with
  | nil => contradiction
  | cons filter others =>
    cases operands with
    | nil => simp [Condition.allToJsonWith, allToJsonWith, Json.canonicalItems]
    | cons condition rest =>
      have hfirst := condition_ne_filter condition h.1
      simp only [Condition.allToTaggedJson, Condition.allToJsonWith, allToTaggedJson,
        allToJsonWith, Json.canonicalItems, ne_eq, List.cons.injEq, not_and]
      exact fun heq => absurd heq hfirst
termination_by structural operands
end

/-! #### The same form only for the same filter -/

/-- The canonical forms of the fields, under their names. -/
def canonicalFields (fields : List (String × FieldFilter)) : Table Json :=
  fields.map fun pair => (pair.1, (fieldJson pair.2).canonical)

lemma canonicalItems_of_partJson?_eq {operands others : List Filter}
    (h : (partJson? operands).map Json.canonical = (partJson? others).map Json.canonical) :
    Json.canonicalItems (allToTaggedJson operands) =
      Json.canonicalItems (allToTaggedJson others) := by
  cases operands with
  | nil =>
    cases others with
    | nil => rfl
    | cons other others => simp [partJson?] at h
  | cons operand operands =>
    cases others with
    | nil => simp [partJson?] at h
    | cons other others => exact Json.array.inj (Option.some_inj.mp h)

section

variable {filter other : Filter}

lemma part?_of_canonical_eq (hf : filter.Ordinary) (ho : other.Ordinary)
    (h : filter.toTaggedJson.canonical = other.toTaggedJson.canonical) {key : String}
    (hkey : key ∈ partNames) :
    (filter.part? key).map Json.canonical = (other.part? key).map Json.canonical := by
  rw [toTaggedJson_eq, toTaggedJson_eq] at h
  have hfind := Json.find?_of_canonical_eq h key
  rwa [find?_of_mem_partNames hf hkey, find?_of_mem_partNames ho hkey] at hfind

/-- Fields are told apart from parts by their names, and from each other by look-ups. -/
lemma canonicalFields_of_canonical_eq (hf : filter.Ordinary) (ho : other.Ordinary)
    (h : filter.toTaggedJson.canonical = other.toTaggedJson.canonical) :
    canonicalFields filter.fields = canonicalFields other.fields := by
  rw [toTaggedJson_eq, toTaggedJson_eq] at h
  have hnone {filter : Filter} (hf : filter.Ordinary) {key : String} (hkey : key ∈ partNames) :
      Table.find? key filter.fields = none :=
    Table.find?_eq_none fun hmem => hf.notMem_partNames key hmem hkey
  have hascending {filter : Filter} (hf : filter.Ordinary) :
      Table.Ascending (canonicalFields filter.fields) := by
    rw [Table.Ascending, canonicalFields, Table.keys_map fun field => (fieldJson field).canonical]
    exact hf.ascending
  apply Table.ext_of_ascending (hascending hf) (hascending ho)
  intro key
  have hfind := Json.find?_of_canonical_eq h key
  rw [canonicalFields, canonicalFields, Table.find?_map fun field => (fieldJson field).canonical,
    Table.find?_map fun field => (fieldJson field).canonical]
  by_cases hkey : key ∈ partNames
  · rw [hnone hf hkey, hnone ho hkey]
  · rw [find?_of_notMem_partNames hf hkey, find?_of_notMem_partNames ho hkey, Option.map_map,
      Option.map_map] at hfind
    exact hfind

end

mutual
theorem equal_of_canonical_eq {filter other : Filter} (hf : filter.Ordinary) (ho : other.Ordinary)
    (h : filter.toTaggedJson.canonical = other.toTaggedJson.canonical) : filter.equal other := by
  have hpart (key : String) (hkey : key ∈ partNames) := part?_of_canonical_eq hf ho h hkey
  have hand := canonicalItems_of_partJson?_eq (hpart "and" (by decide))
  have hor := canonicalItems_of_partJson?_eq (hpart "or" (by decide))
  have hnot := hpart "not" (by decide)
  have hfields := canonicalFields_of_canonical_eq hf ho h
  obtain ⟨and, or, not, fields⟩ := filter
  obtain ⟨ands, ors, nots, others⟩ := other
  simp only [equal, Bool.and_eq_true]
  refine ⟨⟨⟨?_, ?_⟩, ?_⟩, ?_⟩
  · exact equalAll_of_canonicalItems_eq hf.and ho.and hand
  · exact equalAll_of_canonicalItems_eq hf.or ho.or hor
  · exact equalNegation_of_canonical_eq hf.2.2.2.1 ho.2.2.2.1 hnot
  · exact equalFields_of_canonicalFields_eq hf.fields ho.fields hfields
termination_by structural filter

theorem equalAll_of_canonicalItems_eq {operands others : List Filter} (hf : AllOrdinary operands)
    (ho : AllOrdinary others) (h : Json.canonicalItems (allToTaggedJson operands) =
      Json.canonicalItems (allToTaggedJson others)) : equalAll operands others := by
  cases operands with
  | nil =>
    cases others with
    | nil => rfl
    | cons other others => simp [allToJsonWith, Json.canonicalItems] at h
  | cons operand operands =>
    cases others with
    | nil => simp [allToJsonWith, Json.canonicalItems] at h
    | cons other others =>
      simp only [allToTaggedJson, allToJsonWith, Json.canonicalItems, List.cons.injEq] at h
      have hfirst := equal_of_canonical_eq hf.1 ho.1 h.1
      have hrest := equalAll_of_canonicalItems_eq hf.2 ho.2 h.2
      simp [equalAll, hfirst, hrest]
termination_by structural operands

theorem equalNegation_of_canonical_eq {operand other : Option Filter}
    (hf : NegationOrdinary operand) (ho : NegationOrdinary other)
    (h : (operand.map toTaggedJson).map Json.canonical =
      (other.map toTaggedJson).map Json.canonical) : equalNegation operand other := by
  cases operand with
  | none =>
    cases other with
    | none => rfl
    | some other => simp at h
  | some operand =>
    cases other with
    | none => simp at h
    | some other => exact equal_of_canonical_eq hf ho (Option.some_inj.mp h)
termination_by structural operand

theorem equalFields_of_canonicalFields_eq {fields others : List (String × FieldFilter)}
    (hf : FieldsOrdinary fields) (ho : FieldsOrdinary others)
    (h : canonicalFields fields = canonicalFields others) : equalFields fields others := by
  cases fields with
  | nil =>
    cases others with
    | nil => rfl
    | cons pair others => simp [canonicalFields] at h
  | cons pair rest =>
    obtain ⟨name, field⟩ := pair
    cases others with
    | nil => simp [canonicalFields] at h
    | cons other others =>
      obtain ⟨name', field'⟩ := other
      simp only [canonicalFields, List.map_cons, List.cons.injEq, Prod.mk.injEq] at h
      obtain ⟨⟨rfl, hfield⟩, hrest⟩ := h
      cases field with
      | condition condition =>
        cases field' with
        | condition condition' =>
          have hequal : condition.equal condition' := by
            rw [fieldJson, fieldJson, Condition.canonical_toTaggedJson,
              Condition.canonical_toTaggedJson] at hfield
            exact (condition.toTaggedJson_eq_iff condition').mp hfield
          have hothers : equalFields rest others := equalFields_of_canonicalFields_eq hf ho
            hrest
          simp [equalFields, hequal, hothers]
        | relation nested' =>
          rw [fieldJson, Condition.canonical_toTaggedJson] at hfield
          exact absurd hfield (condition_ne_filter condition ho.1)
      | relation nested =>
        cases field' with
        | condition condition' =>
          rw [fieldJson, fieldJson, Condition.canonical_toTaggedJson] at hfield
          exact absurd hfield.symm (condition_ne_filter condition' hf.1)
        | relation nested' =>
          have hequal := equal_of_canonical_eq hf.1 ho.1 hfield
          have hothers := equalFields_of_canonicalFields_eq hf.2 ho.2 hrest
          simp [equalFields, hequal, hothers]
termination_by structural fields
end

mutual
theorem toTaggedJson_eq_of_equal {filter other : Filter} (h : filter.equal other) :
    filter.toTaggedJson = other.toTaggedJson := by
  obtain ⟨and, or, not, fields⟩ := filter
  obtain ⟨ands, ors, nots, others⟩ := other
  simp only [equal, Bool.and_eq_true] at h
  obtain ⟨⟨⟨hand, hor⟩, hnot⟩, hfields⟩ := h
  rw [toTaggedJson_eq, toTaggedJson_eq, taggedMembers, taggedMembers,
    allToTaggedJson_eq_of_equal hand, allToTaggedJson_eq_of_equal hor,
    negationToJson_eq_of_equal hnot, fieldsToJson_eq_of_equal hfields]
termination_by structural filter

theorem allToTaggedJson_eq_of_equal {operands others : List Filter}
    (h : equalAll operands others) : allToTaggedJson operands = allToTaggedJson others := by
  cases operands with
  | nil =>
    cases others with
    | nil => rfl
    | cons other others => simp [equalAll] at h
  | cons operand operands =>
    cases others with
    | nil => simp [equalAll] at h
    | cons other others =>
      rw [equalAll, Bool.and_eq_true] at h
      exact congrArg₂ List.cons (toTaggedJson_eq_of_equal h.1) (allToTaggedJson_eq_of_equal h.2)
termination_by structural operands

theorem negationToJson_eq_of_equal {operand other : Option Filter}
    (h : equalNegation operand other) : negationToJsonWith Value.toTaggedJson operand =
      negationToJsonWith Value.toTaggedJson other := by
  cases operand with
  | none =>
    cases other with
    | none => rfl
    | some other => simp [equalNegation] at h
  | some operand =>
    cases other with
    | none => simp [equalNegation] at h
    | some other =>
      have heq : operand.toTaggedJson = other.toTaggedJson := toTaggedJson_eq_of_equal h
      exact congrArg (fun json => [("not", json)]) heq
termination_by structural operand

theorem fieldsToJson_eq_of_equal {fields others : List (String × FieldFilter)}
    (h : equalFields fields others) {members : Table Json} :
    fieldsToJsonWith Value.toTaggedJson members fields =
      fieldsToJsonWith Value.toTaggedJson members others := by
  cases fields with
  | nil =>
    cases others with
    | nil => rfl
    | cons pair others => simp [equalFields] at h
  | cons pair rest =>
    obtain ⟨name, field⟩ := pair
    cases others with
    | nil => cases field <;> simp [equalFields] at h
    | cons other others =>
      obtain ⟨name', field'⟩ := other
      cases field with
      | condition condition =>
        cases field' with
        | relation nested' => simp [equalFields] at h
        | condition condition' =>
          simp only [equalFields, Bool.and_eq_true, decide_eq_true_eq] at h
          obtain ⟨⟨rfl, hfield⟩, hrest⟩ := h
          rw [fieldsToJson_cons, fieldsToJson_cons, fieldJson, fieldJson,
            (condition.toTaggedJson_eq_iff condition').mpr hfield]
          exact fieldsToJson_eq_of_equal hrest
      | relation nested =>
        cases field' with
        | condition condition' => simp [equalFields] at h
        | relation nested' =>
          simp only [equalFields, Bool.and_eq_true, decide_eq_true_eq] at h
          obtain ⟨⟨rfl, hfield⟩, hrest⟩ := h
          have heq : nested.toTaggedJson = nested'.toTaggedJson := toTaggedJson_eq_of_equal hfield
          rw [fieldsToJson_cons, fieldsToJson_cons, fieldJson, fieldJson, heq]
          exact fieldsToJson_eq_of_equal hrest
termination_by structural fields
end

/-- The canonical tagged form tells filters apart, and nothing else. -/
theorem canonical_eq_iff {filter other : Filter} (hf : filter.Ordinary) (ho : other.Ordinary) :
    filter.toTaggedJson.canonical = other.toTaggedJson.canonical ↔ filter.equal other := by
  constructor
  · exact equal_of_canonical_eq hf ho
  · intro h
    rw [toTaggedJson_eq_of_equal h]

/-! #### Exactness -/

lemma membersExact_put {members : Table Json} (h : Json.MembersExact members) (key : String)
    {json : Json} (hjson : json.IsExact) : Json.MembersExact (members.put key json) := by
  rw [Json.membersExact_iff] at h ⊢
  intro member hmember
  rcases Table.mem_put hmember with rfl | hmember
  · exact hjson
  · exact h member hmember

lemma membersExact_append {members others : Table Json} (h : Json.MembersExact members)
    (ho : Json.MembersExact others) : Json.MembersExact (members ++ others) := by
  rw [Json.membersExact_iff] at h ho ⊢
  intro member hmember
  exact (List.mem_append.mp hmember).elim (h member) (ho member)

lemma membersExact_part (key : String) {items : List Json} (h : Json.AreExact items) :
    Json.MembersExact (partToJson key items) := by
  rw [partToJson]
  split
  · trivial
  · exact ⟨h, trivial⟩

mutual
/-- Doubles are left out of the tagged form. -/
lemma isExact_toTaggedJson (filter : Filter) : filter.toTaggedJson.IsExact := by
  obtain ⟨and, or, not, fields⟩ := filter
  have hparts := membersExact_append
    (membersExact_append (membersExact_part "and" (areExact_allToTaggedJson and))
      (membersExact_part "or" (areExact_allToTaggedJson or)))
    (membersExact_negationToJson not)
  exact membersExact_fieldsToJson fields hparts
termination_by structural filter

lemma areExact_allToTaggedJson (operands : List Filter) :
    Json.AreExact (allToTaggedJson operands) := by
  cases operands with
  | nil => trivial
  | cons operand rest => exact ⟨isExact_toTaggedJson operand, areExact_allToTaggedJson rest⟩
termination_by structural operands

lemma membersExact_negationToJson (operand : Option Filter) :
    Json.MembersExact (negationToJsonWith Value.toTaggedJson operand) := by
  cases operand with
  | none => trivial
  | some operand => exact ⟨isExact_toTaggedJson operand, trivial⟩
termination_by structural operand

lemma membersExact_fieldsToJson (fields : List (String × FieldFilter)) {members : Table Json}
    (h : Json.MembersExact members) :
    Json.MembersExact (fieldsToJsonWith Value.toTaggedJson members fields) := by
  cases fields with
  | nil => exact h
  | cons pair rest =>
    obtain ⟨name, field⟩ := pair
    cases field with
    | condition condition =>
      exact membersExact_fieldsToJson rest
        (membersExact_put h name condition.isExact_toTaggedJson)
    | relation nested =>
      exact membersExact_fieldsToJson rest
        (membersExact_put h name (isExact_toTaggedJson nested))
termination_by structural fields
end

end Filter

end EntityGraph
