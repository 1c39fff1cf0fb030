import EntityGraph.Proofs.Filter.Meaning
import EntityGraph.Proofs.Filter.Tagging
import EntityGraph.Proofs.UniqueWhere.Tagging
/-!
# What is written is read back

The plain form of strings, booleans, integers, nulls and lists of these tells their kinds, so
filters and unique wheres on such values are read back from their JSON as they were. Writing does
not look at the schema and leaves empty parts out; reading resolves every field against the entity.
-/
namespace EntityGraph

/-! ### Values -/

namespace Value

mutual
/-- Whether the plain form of a value tells its kind, also of the values in it. -/
def isPlain : Value → Bool
  | .string _ | .boolean _ | .int _ | .null => true
  | .list items => arePlain items
  | .uuid _ | .float _ | .literal _ => false
termination_by structural value => value

def arePlain : List Value → Bool
  | [] => true
  | item :: rest => isPlain item && arePlain rest
termination_by structural items => items
end

mutual
theorem ofJson_toJson (value : Value) (h : value.isPlain) : ofJson value.toJson = .ok value := by
  cases value with
  | string | boolean | null => rfl
  | int n =>
    have hread : ofJsonNumber (.integer n.toInt) = .ok (.int n) := by
      rw [ofJsonNumber, if_pos (fitsInt64_toInt n), ofInt, Int64.ofInt_toInt]
    exact hread
  | list items =>
    have hitems := allOfJson_toJson items h
    rw [toJson, toPlainJson, ofJson, hitems]
    rfl
  | uuid | float | literal => cases h
termination_by structural value

theorem allOfJson_toJson (items : List Value) (h : arePlain items) :
    allOfJson (allToPlainJson .asNull items) = .ok items := by
  cases items with
  | nil => rfl
  | cons item rest =>
    rw [arePlain, Bool.and_eq_true] at h
    have hfirst := ofJson_toJson item h.1
    have hrest := allOfJson_toJson rest h.2
    rw [toJson] at hfirst
    rw [allToPlainJson, allOfJson, hfirst, hrest]
    rfl
termination_by structural items
end

lemma allToPlainJson_eq_map (items : List Value) :
    allToPlainJson .asNull items = items.map toJson := by
  induction items with
  | nil => rfl
  | cons item rest ih => rw [allToPlainJson, ih, List.map_cons, toJson]

end Value

/-! ### Conditions -/

namespace Condition

mutual
/-- Whether all values of a condition are plain. -/
def isPlain : Condition → Bool
  | and operands | or operands => arePlain operands
  | not operand => isPlain operand
  | compare _ value => value.isPlain
  | oneOf values | noneOf values => Value.arePlain values
  | isNull _ | null _ | never | always => true
termination_by structural condition => condition

def arePlain : List Condition → Bool
  | [] => true
  | operand :: rest => isPlain operand && arePlain rest
termination_by structural operands => operands
end

lemma valuesOfJson_toJson (operator : Operator) {values : List Value} (h : Value.arePlain values) :
    valuesOfJson operator (.array (values.map Value.toJson)) = .ok values := by
  rw [valuesOfJson, ← Value.allToPlainJson_eq_map, Value.allOfJson_toJson values h]
  rfl

mutual
/-- Every operator is read back with its operand. -/
theorem ofJson_toJson (condition : Condition) (h : condition.isPlain) :
    ofJson condition.toJson = .ok condition := by
  cases condition with
  | and operands =>
    have hname : Operator.ofName? "and" = some .and := rfl
    rw [toJson, toJsonWith, ofJson, hname]
    exact congrArg (Except.map and) (allOfJson_toJson operands h)
  | or operands =>
    have hname : Operator.ofName? "or" = some .or := rfl
    rw [toJson, toJsonWith, ofJson, hname]
    exact congrArg (Except.map or) (allOfJson_toJson operands h)
  | not operand =>
    have hname : Operator.ofName? "not" = some .not := rfl
    rw [toJson, toJsonWith, ofJson.eq_def]
    simp only [hname]
    exact congrArg (Except.map not) (ofJson_toJson operand h)
  | compare comparison value =>
    rw [toJson, toJsonWith, ofJson.eq_def]
    simp only [Operator.ofName?_name, valueOfJson, value.ofJson_toJson h]
    rfl
  | oneOf values =>
    have hname : Operator.ofName? "in" = some .oneOf := rfl
    rw [toJson, toJsonWith, ofJson, hname]
    exact congrArg (Except.map oneOf) (valuesOfJson_toJson .oneOf h)
  | noneOf values =>
    have hname : Operator.ofName? "notIn" = some .noneOf := rfl
    rw [toJson, toJsonWith, ofJson, hname]
    exact congrArg (Except.map noneOf) (valuesOfJson_toJson .noneOf h)
  | isNull | null | never | always => rfl
termination_by structural condition

theorem allOfJson_toJson (operands : List Condition) (h : arePlain operands) :
    allOfJson (allToJsonWith Value.toJson operands) = .ok operands := by
  cases operands with
  | nil => rfl
  | cons operand rest =>
    rw [arePlain, Bool.and_eq_true] at h
    have hfirst := ofJson_toJson operand h.1
    have hrest := allOfJson_toJson rest h.2
    rw [toJson] at hfirst
    rw [allToJsonWith, allOfJson, hfirst, hrest]
    rfl
termination_by structural operands
end

end Condition

/-! ### Filters -/

namespace Filter

variable {schema : Schema} {entity : Entity}

/-- Whether conditions on plain values stand on columns, and filters on relations that lead
somewhere. -/
structure IsPlain (schema : Schema) (entity : Entity) (filter : Filter) : Prop where
  condition : ∀ {name condition}, (name, .condition condition) ∈ filter.fields →
    condition.isPlain ∧ ∃ column, entity.field name = .ok (.column column)
  relation : ∀ {name nested}, (name, .relation nested) ∈ filter.fields →
    ∃ relation target, entity.field name = .ok (.relation relation) ∧
      schema.targetEntity relation = .ok target

lemma IsPlain.tail {pair : String × FieldFilter} {rest : List (String × FieldFilter)}
    (h : IsPlain schema entity (ofFields (pair :: rest))) :
    IsPlain schema entity (ofFields rest) where
  condition hmem := h.condition (List.mem_cons_of_mem _ hmem)
  relation hmem := h.relation (List.mem_cons_of_mem _ hmem)

/-- What is written under the name of a field. -/
def plainFieldJson : FieldFilter → Json
  | .condition condition => condition.toJson
  | .relation nested => nested.toJson

/-- Fields with names of their own come behind the members that are there. -/
lemma fieldsToJsonWith_eq_append {fields : List (String × FieldFilter)} (members : Table Json)
    (h : (Table.keys members ++ Table.keys fields).Nodup) :
    fieldsToJsonWith Value.toJson members fields =
      members ++ fields.map fun pair => (pair.1, plainFieldJson pair.2) := by
  induction fields generalizing members with
  | nil => exact (List.append_nil members).symm
  | cons pair rest ih =>
    obtain ⟨name, field⟩ := pair
    have hcons : fieldsToJsonWith Value.toJson members ((name, field) :: rest) =
        fieldsToJsonWith Value.toJson (members.put name (plainFieldJson field)) rest := by
      cases field <;> rfl
    have hnew : name ∉ members.keys := fun hmem =>
      (List.nodup_append.mp h).2.2 name hmem name List.mem_cons_self rfl
    rw [hcons, Table.put_of_not_mem hnew, ih, List.append_assoc]
    · rfl
    · simpa [Table.keys] using h

/-- Fields that are not named like a part come behind the parts. -/
lemma parts_nodup {fields : List (String × FieldFilter)} (hascending : Table.Ascending fields)
    (hnames : ∀ name ∈ Table.keys fields, name ∉ partNames) (and or : List Json)
    (not : Option Filter) :
    (Table.keys (partToJson "and" and ++ partToJson "or" or ++
      negationToJsonWith Value.toJson not) ++ Table.keys fields).Nodup := by
  have hpart (key : String) (operands : List Json) :
      (Table.keys (partToJson key operands)).Sublist [key] := by
    rw [partToJson]
    split
    · exact List.nil_sublist _
    · exact .refl _
  have hnegation : (Table.keys (negationToJsonWith Value.toJson not)).Sublist ["not"] := by
    cases not with
    | none => exact List.nil_sublist _
    | some operand => exact .refl _
  have hparts : (Table.keys (partToJson "and" and ++ partToJson "or" or ++
      negationToJsonWith Value.toJson not)).Sublist partNames := by
    simpa [Table.keys, partNames] using ((hpart "and" and).append (hpart "or" or)).append hnegation
  rw [List.nodup_append]
  refine ⟨hparts.nodup (by decide), hascending.nodup_keys, fun name hpart other hfield => ?_⟩
  rintro rfl
  exact hnames name hfield (hparts.subset hpart)

/-! #### Parts in turn -/

/-- A part that is not written is empty. -/
lemma addMembers_conjunction {operands : List Filter}
    (h : allOfJson schema entity (allToJsonWith Value.toJson operands) = .ok operands)
    (or : List Filter) (not : Option Filter) (fields : List (String × FieldFilter))
    (others : List (String × Json)) :
    addMembers schema entity ⟨[], or, not, fields⟩
        (partToJson "and" (allToJsonWith Value.toJson operands) ++ others) =
      addMembers schema entity ⟨operands, or, not, fields⟩ others := by
  cases operands with
  | nil => rfl
  | cons operand rest => exact addMembers_and h _ others

lemma addMembers_disjunction {operands : List Filter}
    (h : allOfJson schema entity (allToJsonWith Value.toJson operands) = .ok operands)
    (and : List Filter) (not : Option Filter) (fields : List (String × FieldFilter))
    (others : List (String × Json)) :
    addMembers schema entity ⟨and, [], not, fields⟩
        (partToJson "or" (allToJsonWith Value.toJson operands) ++ others) =
      addMembers schema entity ⟨and, operands, not, fields⟩ others := by
  cases operands with
  | nil => rfl
  | cons operand rest => exact addMembers_or h _ others

/-! #### Whole filters -/

mutual
/-- A filter on plain values is read back as it was. -/
theorem ofJson_toJson {entity : Entity} (filter : Filter) (hordinary : filter.Ordinary)
    (h : Everywhere schema (IsPlain schema) entity filter) :
    ofJson schema entity filter.toJson = .ok filter := by
  obtain ⟨and, or, not, fields⟩ := filter
  obtain ⟨⟨hascending, hnames⟩, hand, hor, hnot, hfields⟩ := hordinary
  obtain ⟨hplain, hplainAnd, hplainOr, hplainNot, hplainFields⟩ := h
  have hreadAnd := allOfJson_toJson and hand hplainAnd
  have hreadOr := allOfJson_toJson or hor hplainOr
  have hapart := parts_nodup hascending hnames (allToJsonWith Value.toJson and)
    (allToJsonWith Value.toJson or) not
  rw [toJson, toJsonWith, fieldsToJsonWith_eq_append _ hapart, List.append_assoc,
    List.append_assoc, ofJson, empty, addMembers_conjunction hreadAnd,
    addMembers_disjunction hreadOr,
    addMembers_negation not hnot hplainNot]
  exact addMembers_fields fields hfields ⟨hplain.condition, hplain.relation⟩ hplainFields
    ⟨and, or, not, []⟩ hascending hnames
termination_by structural filter

theorem allOfJson_toJson {entity : Entity} (filters : List Filter)
    (hordinary : AllOrdinary filters)
    (h : EverywhereOperands schema (IsPlain schema) entity filters) :
    allOfJson schema entity (allToJsonWith Value.toJson filters) = .ok filters := by
  cases filters with
  | nil => rfl
  | cons filter rest =>
    have hfirst := ofJson_toJson filter hordinary.1 h.1
    have hrest := allOfJson_toJson rest hordinary.2 h.2
    rw [toJson] at hfirst
    rw [allToJsonWith, allOfJson, hfirst, hrest]
    rfl
termination_by structural filters

theorem addMembers_negation {entity : Entity} (not : Option Filter)
    (hordinary : NegationOrdinary not)
    (h : EverywhereNegation schema (IsPlain schema) entity not) (and or : List Filter)
    (others : List (String × Json)) :
    addMembers schema entity ⟨and, or, none, []⟩
        (negationToJsonWith Value.toJson not ++ others) =
      addMembers schema entity ⟨and, or, not, []⟩ others := by
  cases not with
  | none => rfl
  | some operand => exact addMembers_not (ofJson_toJson operand hordinary h) _ others
termination_by structural not

/-- Fields in order are added behind those that are there. -/
theorem addMembers_fields {entity : Entity} (fields : List (String × FieldFilter))
    (hordinary : FieldsOrdinary fields)
    (hplain : IsPlain schema entity (ofFields fields))
    (h : EverywhereFields schema (IsPlain schema) entity fields) (filter : Filter)
    (hascending : Table.Ascending (filter.fields ++ fields))
    (hnames : ∀ name ∈ Table.keys fields, name ∉ partNames) :
    addMembers schema entity filter (fields.map fun pair => (pair.1, plainFieldJson pair.2)) =
      .ok { filter with fields := filter.fields ++ fields } := by
  obtain ⟨and, or, not, done⟩ := filter
  match fields with
  | [] =>
    rw [List.append_nil]
    rfl
  | (name, .condition condition) :: rest =>
    have hname : name ∉ partNames := hnames name List.mem_cons_self
    obtain ⟨hcondition, column, hfield⟩ := hplain.condition List.mem_cons_self
    have hrest := addMembers_fields rest hordinary (hplain.tail) h
      ⟨and, or, not, done ++ [(name, .condition condition)]⟩
      (by simpa using hascending) fun other hmem => hnames other (List.mem_cons_of_mem _ hmem)
    rw [List.map_cons, plainFieldJson, addMembers_condition hname hfield
      (condition.ofJson_toJson hcondition)]
    simpa [hascending.insert_eq_append] using hrest
  | (name, .relation nested) :: rest =>
    have hname : name ∉ partNames := hnames name List.mem_cons_self
    obtain ⟨relation, target, hfield, htarget⟩ := hplain.relation List.mem_cons_self
    have hnested := ofJson_toJson nested hordinary.1
      (h.1 relation target (Entity.relation_of_field hfield) htarget)
    have hrest := addMembers_fields rest hordinary.2 hplain.tail h.2
      ⟨and, or, not, done ++ [(name, .relation nested)]⟩
      (by simpa using hascending) fun other hmem => hnames other (List.mem_cons_of_mem _ hmem)
    rw [List.map_cons, plainFieldJson, addMembers_relation hname hfield htarget hnested]
    simpa [hascending.insert_eq_append] using hrest
termination_by structural fields
end

end Filter

/-! ### Unique wheres -/

namespace UniqueWhere

mutual
/-- Whether plain values stand on columns, and nested unique wheres on relations that lead
somewhere. -/
inductive IsPlain (schema : Schema) : Entity → UniqueWhere → Prop
  | intro {entity : Entity} {which : UniqueWhere}
      (h : ∀ node ∈ which.nodes, NodeIsPlain schema entity node.1 node.2) :
      IsPlain schema entity which

inductive NodeIsPlain (schema : Schema) : Entity → String → UniqueNode → Prop
  | value {entity : Entity} {name : String} {column : Column} {value : Value}
      (hfield : entity.field name = .ok (.column column)) (hvalue : value.isPlain) :
      NodeIsPlain schema entity name (.value value)
  | relation {entity target : Entity} {name : String} {relation : Relation} {nested : UniqueWhere}
      (hfield : entity.field name = .ok (.relation relation))
      (htarget : schema.targetEntity relation = .ok target)
      (hnested : IsPlain schema target nested) : NodeIsPlain schema entity name (.relation nested)
end

variable {schema : Schema}

lemma IsPlain.nodes {entity : Entity} {which : UniqueWhere} (h : which.IsPlain schema entity) :
    ∀ node ∈ which.nodes, NodeIsPlain schema entity node.1 node.2 := by
  cases h with
  | intro h => exact h

mutual
/-- A unique where of plain values is read back as it was. -/
theorem ofJson_toJson {entity : Entity} (which : UniqueWhere) (hordered : which.Ordered)
    (h : which.IsPlain schema entity) : ofJson schema entity which.toJson = .ok which := by
  have hascending := hordered.ascending
  have hnodes := hordered.nodes
  have hplain := h.nodes
  obtain ⟨nodes⟩ := which
  rw [toJson, toJsonWith, ofJson]
  exact addMembers_nodes nodes hnodes hplain [] hascending
termination_by structural which

/-- Nodes in order are added behind those that are there. -/
theorem addMembers_nodes {entity : Entity} (nodes : List (String × UniqueNode))
    (hordered : NodesOrdered nodes)
    (hplain : ∀ node ∈ nodes, NodeIsPlain schema entity node.1 node.2)
    (done : List (String × UniqueNode)) (hascending : Table.Ascending (done ++ nodes)) :
    addMembers schema entity ⟨done⟩ (nodesToJsonWith Value.toJson nodes) =
      .ok ⟨done ++ nodes⟩ := by
  match nodes with
  | [] =>
    rw [List.append_nil]
    rfl
  | (name, .value value) :: rest =>
    obtain ⟨hnode, hrest⟩ := List.forall_mem_cons.mp hplain
    cases hnode with
    | value hfield hvalue =>
      have hrest := addMembers_nodes rest hordered hrest (done ++ [(name, .value value)])
        (by simpa using hascending)
      rw [nodesToJsonWith, addMembers]
      simp only [hfield, value.ofJson_toJson hvalue, withValue, hascending.insert_eq_append, hrest,
        List.append_assoc, List.singleton_append]
  | (name, .relation nested) :: rest =>
    obtain ⟨hnode, hrest⟩ := List.forall_mem_cons.mp hplain
    cases hnode with
    | relation hfield htarget hnested =>
      have hnested := ofJson_toJson nested hordered.1 hnested
      have hrest := addMembers_nodes rest hordered.2 hrest (done ++ [(name, .relation nested)])
        (by simpa using hascending)
      rw [toJson] at hnested
      rw [nodesToJsonWith, addMembers]
      simp only [hfield, htarget, hnested]
      simpa [bind, Except.bind, withRelation, hascending.insert_eq_append] using hrest
termination_by structural nodes
end

end UniqueWhere

/-- Filters and unique wheres on plain values are read back from their JSON as they were: for
every entity, with all operators and parts, at any depth. -/
theorem plain_restrictions_survive_json (schema : Schema) (entity : Entity) :
    (∀ filter : Filter, filter.Ordinary →
      Filter.Everywhere schema (Filter.IsPlain schema) entity filter →
      Filter.ofJson schema entity filter.toJson = .ok filter) ∧
    ∀ which : UniqueWhere, which.Ordered → which.IsPlain schema entity →
      UniqueWhere.ofJson schema entity which.toJson = .ok which :=
  ⟨fun filter hordinary h => filter.ofJson_toJson hordinary h,
    fun which hordered h => which.ofJson_toJson hordered h⟩

/-- Authors with a post titled `a` or none, but not the one named Ada; and a post by its author. -/
theorem plain_restrictions_survive_json_blog :
    let author := Entity.ofSteps "Author" Filter.authorSteps
    let post := Entity.ofSteps "Post" Filter.postSteps
    let titled := Filter.onColumn "title" (.or [.oneOf [.string "a"], .isNull true])
    let filter : Filter :=
      { Filter.negation (.onColumn "name" (.compare .equal (.string "Ada"))) with
        fields := [("posts", .relation titled)] }
    let which : UniqueWhere :=
      ⟨[("author", .relation (.single "id" (.int 1))), ("title", .value .null)]⟩
    Filter.ofJson Filter.blog author filter.toJson = .ok filter ∧
      UniqueWhere.ofJson Filter.blog post which.toJson = .ok which := by
  intro author post titled filter which
  have hname : author.field "name" = .ok (.column ⟨"name", "name", .string, true⟩) := by
    decide +kernel
  have hid : author.field "id" = .ok (.column ⟨"id", "id", .uuid, false⟩) := by decide +kernel
  have hposts : author.field "posts" =
      .ok (.relation ⟨"posts", "Post", .oneHasMany "author"⟩) := by decide +kernel
  have htitle : post.field "title" = .ok (.column ⟨"title", "title", .string, true⟩) := by
    decide +kernel
  have hauthor : post.field "author" = .ok (.relation
      ⟨"author", "Author", .manyHasOne ⟨"author_id", .cascade⟩ true (some "posts")⟩) := by
    decide +kernel
  have hpostEntity : Filter.blog.entity "Post" = .ok post := by decide +kernel
  have hauthorEntity : Filter.blog.entity "Author" = .ok author := by decide +kernel
  have hcolumn {entity : Entity} {name : String} {condition : Condition} {column : Column}
      (hfield : entity.field name = .ok (.column column)) (hcondition : condition.isPlain) :
      Filter.IsPlain Filter.blog entity (.onColumn name condition) := by
    refine ⟨fun hmem => ?_, fun hmem => by simp [Filter.onColumn, Filter.ofFields] at hmem⟩
    cases List.mem_singleton.mp hmem
    exact ⟨hcondition, column, hfield⟩
  have hfilter := (plain_restrictions_survive_json Filter.blog author).1 filter
  have hwhich := (plain_restrictions_survive_json Filter.blog post).2 which
  refine ⟨hfilter ?ordinary ?plain, hwhich ?ordered (.intro ?nodes)⟩
  case ordinary =>
    exact ⟨⟨List.pairwise_singleton _ _, by decide⟩, trivial, trivial,
      Filter.ordinary_onColumn (by decide) _, Filter.ordinary_onColumn (by decide) _, trivial⟩
  case plain =>
    refine ⟨⟨fun hmem => by simp at hmem, fun hmem => ?_⟩, trivial, trivial,
      ⟨hcolumn hname rfl, trivial, trivial, trivial, trivial⟩, fun relation target hr ht => ?_,
      trivial⟩
    · cases List.mem_singleton.mp hmem
      exact ⟨_, _, hposts, hpostEntity⟩
    · cases (Entity.relation_of_field hposts).symm.trans hr
      cases hpostEntity.symm.trans ht
      exact ⟨hcolumn htitle rfl, trivial, trivial, trivial, trivial⟩
  case ordered =>
    have hnames : List.Pairwise (· < ·) ["author", "title"] := by decide
    exact ⟨hnames, ⟨List.pairwise_singleton _ _, trivial⟩, trivial⟩
  case nodes =>
    have hkey : (UniqueWhere.single "id" (.int 1)).IsPlain Filter.blog author :=
      .intro (List.forall_mem_singleton.mpr (.value hid rfl))
    exact List.forall_mem_cons.mpr ⟨.relation hauthor hauthorEntity hkey,
      List.forall_mem_singleton.mpr (.value htitle rfl)⟩

end EntityGraph
