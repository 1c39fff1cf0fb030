import EntityGraph.Proofs.Data.Fitting
import EntityGraph.Proofs.Filter.Meaning
import EntityGraph.UniqueWhere.Json
/-!
# Reading filters

What reading an object as a filter preserves from one member to the next holds of every filter that
is read. In particular each of its fields is looked up in the entity before it is kept, so whatever
is read can be translated, alone and together with other filters.
-/
namespace EntityGraph.Filter

variable {schema : Schema} {entity target : Entity} {P : Entity → Filter → Prop}

/-! ### Member by member -/

section

variable {name : String} {items : List Json} {operands : List Filter} {operand nested : Filter}
  {argument : Json} {column : Column} {relation : Relation} {condition : Condition}

lemma addMembers_and (h : allOfJson schema entity items = .ok operands) (filter : Filter)
    (others : List (String × Json)) :
    addMembers schema entity filter (("and", .array items) :: others) =
      addMembers schema entity { filter with and := operands } others := by
  rw [addMembers.eq_def]
  simp only [if_true, h]
  rfl

lemma addMembers_or (h : allOfJson schema entity items = .ok operands) (filter : Filter)
    (others : List (String × Json)) :
    addMembers schema entity filter (("or", .array items) :: others) =
      addMembers schema entity { filter with or := operands } others := by
  have hand : "or" ≠ "and" := by decide
  rw [addMembers.eq_def]
  simp only [hand, if_false, if_true, h]
  rfl

lemma addMembers_not (h : ofJson schema entity argument = .ok operand) (filter : Filter)
    (others : List (String × Json)) :
    addMembers schema entity filter (("not", argument) :: others) =
      addMembers schema entity { filter with not := some operand } others := by
  have hand : "not" ≠ "and" := by decide
  have hor : "not" ≠ "or" := by decide
  rw [addMembers.eq_def]
  simp only [hand, hor, if_false, if_true, h]
  rfl

lemma addMembers_condition (hname : name ∉ ["and", "or", "not"])
    (hfield : entity.field name = .ok (.column column))
    (h : Condition.ofJson argument = .ok condition) (filter : Filter)
    (others : List (String × Json)) :
    addMembers schema entity filter ((name, argument) :: others) =
      addMembers schema entity
        { filter with fields := Table.insert name (.condition condition) filter.fields } others := by
  obtain ⟨hand, hor, hnot⟩ : name ≠ "and" ∧ name ≠ "or" ∧ name ≠ "not" := by simpa using hname
  rw [addMembers.eq_def]
  simp only [hand, hor, hnot, if_false, hfield, h]
  rfl

lemma addMembers_relation (hname : name ∉ ["and", "or", "not"])
    (hfield : entity.field name = .ok (.relation relation))
    (htarget : schema.targetEntity relation = .ok target)
    (h : ofJson schema target argument = .ok nested) (filter : Filter)
    (others : List (String × Json)) :
    addMembers schema entity filter ((name, argument) :: others) =
      addMembers schema entity
        { filter with fields := Table.insert name (.relation nested) filter.fields } others := by
  obtain ⟨hand, hor, hnot⟩ : name ≠ "and" ∧ name ≠ "or" ∧ name ≠ "not" := by simpa using hname
  rw [addMembers.eq_def]
  simp only [hand, hor, hnot, if_false, hfield, htarget, h]
  rfl

end

/-! ### What reading preserves -/

/-- A property of filters that holds at the start of reading and that every member preserves. -/
structure KeptByReading (schema : Schema) (P : Entity → Filter → Prop) : Prop where
  empty : ∀ entity, P entity .empty
  and : ∀ {entity filter operands}, P entity filter → (∀ operand ∈ operands, P entity operand) →
    P entity { filter with and := operands }
  or : ∀ {entity filter operands}, P entity filter → (∀ operand ∈ operands, P entity operand) →
    P entity { filter with or := operands }
  not : ∀ {entity filter operand}, P entity filter → P entity operand →
    P entity { filter with not := some operand }
  condition : ∀ {entity filter name column condition}, P entity filter →
    name ∉ ["and", "or", "not"] → entity.field name = .ok (.column column) →
    P entity { filter with fields := Table.insert name (.condition condition) filter.fields }
  relation : ∀ {entity filter name relation target nested}, P entity filter →
    name ∉ ["and", "or", "not"] → entity.field name = .ok (.relation relation) →
    schema.targetEntity relation = .ok target → P target nested →
    P entity { filter with fields := Table.insert name (.relation nested) filter.fields }

mutual
theorem KeptByReading.of_ofJson (hP : KeptByReading schema P) {entity : Entity} {json : Json}
    {filter : Filter} (h : ofJson schema entity json = .ok filter) : P entity filter := by
  match json with
  | .object members => exact hP.of_addMembers (hP.empty entity) h
  | .null | .bool _ | .number _ | .string _ | .array _ => cases h
termination_by structural json

theorem KeptByReading.of_addMembers (hP : KeptByReading schema P) {entity : Entity}
    {members : List (String × Json)} {filter result : Filter} (hfilter : P entity filter)
    (h : addMembers schema entity filter members = .ok result) : P entity result := by
  match members with
  | [] =>
    cases h
    exact hfilter
  | (key, argument) :: rest =>
    unfold addMembers at h
    by_cases hand : key = "and"
    · rw [if_pos hand] at h
      cases argument with
      | array items =>
        obtain ⟨operands, hoperands, h⟩ := Except.bind_eq_ok.mp h
        exact hP.of_addMembers (hP.and hfilter (hP.of_allOfJson hoperands)) h
      | _ => cases h
    rw [if_neg hand] at h
    by_cases hor : key = "or"
    · rw [if_pos hor] at h
      cases argument with
      | array items =>
        obtain ⟨operands, hoperands, h⟩ := Except.bind_eq_ok.mp h
        exact hP.of_addMembers (hP.or hfilter (hP.of_allOfJson hoperands)) h
      | _ => cases h
    rw [if_neg hor] at h
    by_cases hnot : key = "not"
    · rw [if_pos hnot] at h
      obtain ⟨operand, hoperand, h⟩ := Except.bind_eq_ok.mp h
      exact hP.of_addMembers (hP.not hfilter (hP.of_ofJson hoperand)) h
    rw [if_neg hnot] at h
    have hname : key ∉ ["and", "or", "not"] := by simp [hand, hor, hnot]
    cases hfield : entity.field key with
    | error e =>
      rw [hfield] at h
      cases h
    | ok field =>
      rw [hfield] at h
      cases field with
      | column column =>
        obtain ⟨condition, -, h⟩ := Except.bind_eq_ok.mp h
        exact hP.of_addMembers (hP.condition hfilter hname hfield) h
      | relation relation =>
        cases htarget : schema.targetEntity relation with
        | error e =>
          simp only [htarget] at h
          cases h
        | ok target =>
          simp only [htarget] at h
          obtain ⟨nested, hnested, h⟩ := Except.bind_eq_ok.mp h
          exact hP.of_addMembers
            (hP.relation hfilter hname hfield htarget (hP.of_ofJson hnested)) h
termination_by structural members

theorem KeptByReading.of_allOfJson (hP : KeptByReading schema P) {entity : Entity}
    {items : List Json} {filters : List Filter}
    (h : allOfJson schema entity items = .ok filters) : ∀ filter ∈ filters, P entity filter := by
  match items with
  | [] =>
    cases h
    exact fun _ hmem => absurd hmem List.not_mem_nil
  | item :: rest =>
    obtain ⟨filter, hfilter, h⟩ := Except.bind_eq_ok.mp h
    obtain ⟨filters, hfilters, h⟩ := Except.bind_eq_ok.mp h
    cases h
    exact List.forall_mem_cons.mpr ⟨hP.of_ofJson hfilter, hP.of_allOfJson hfilters⟩
termination_by structural items
end

/-! ### Filters that fit -/

lemma everywhereOperands_iff {operands : List Filter} :
    EverywhereOperands schema P entity operands ↔
      ∀ operand ∈ operands, Everywhere schema P entity operand := by
  induction operands with
  | nil => simp [EverywhereOperands]
  | cons operand rest ih => rw [EverywhereOperands, ih, List.forall_mem_cons]

lemma everywhereFields_iff {fields : List (String × FieldFilter)} :
    EverywhereFields schema P entity fields ↔
      ∀ name nested, (name, .relation nested) ∈ fields → ∀ relation target,
        entity.relation name = .ok relation → schema.targetEntity relation = .ok target →
        Everywhere schema P target nested := by
  induction fields with
  | nil => simp [EverywhereFields]
  | cons pair rest ih =>
    obtain ⟨name, condition | nested⟩ := pair
    · simp [EverywhereFields, ih]
    · rw [EverywhereFields, ih]
      constructor
      · rintro ⟨hfirst, hrest⟩ other inner hmem
        obtain heq | hmem := List.mem_cons.mp hmem
        · cases heq
          exact hfirst
        · exact hrest other inner hmem
      · exact fun h => ⟨h name nested List.mem_cons_self,
          fun other inner hmem => h other inner (List.mem_cons_of_mem _ hmem)⟩

/-- Filters that fit may be joined. -/
lemma Everywhere.andWith {filter other : Filter} (h : Everywhere schema Fits entity filter)
    (hother : Everywhere schema Fits entity other) :
    Everywhere schema Fits entity (filter.andWith other) := by
  unfold Filter.andWith
  split
  · exact hother
  split
  · exact h
  · have hnil : FieldsFit schema entity [] := .nil
    exact ⟨⟨hnil.fits.condition, hnil.fits.relation⟩, ⟨h, hother, trivial⟩, trivial, trivial,
      trivial⟩

/-- A field that fits may be added or replaced. -/
lemma Everywhere.withField {filter : Filter} (h : Everywhere schema Fits entity filter)
    {name : String} {field : FieldFilter} (hfield : FieldsFit schema entity [(name, field)]) :
    Everywhere schema Fits entity
      { filter with fields := Table.insert name field filter.fields } := by
  obtain ⟨and, or, not, fields⟩ := filter
  obtain ⟨hfits, hand, hor, hnot, hfields⟩ := h
  refine ⟨⟨fun hmem => ?_, fun hmem => ?_⟩, hand, hor, hnot,
    everywhereFields_iff.mpr fun other nested hmem => ?_⟩
  · obtain heq | hmem := Table.mem_insert hmem
    · cases heq
      exact hfield.fits.condition List.mem_cons_self
    · exact hfits.condition hmem
  · obtain heq | hmem := Table.mem_insert hmem
    · cases heq
      exact hfield.fits.relation List.mem_cons_self
    · exact hfits.relation hmem
  · obtain heq | hmem := Table.mem_insert hmem
    · cases heq
      exact everywhereFields_iff.mp hfield.inner _ nested List.mem_cons_self
    · exact everywhereFields_iff.mp hfields other nested hmem

/-- A field is kept with what the entity knows it for. -/
lemma keptByReading_fits : KeptByReading schema fun entity filter =>
    Everywhere schema Fits entity filter where
  empty _ := FieldsFit.nil.everywhere
  and := by
    rintro entity ⟨and, or, not, fields⟩ operands ⟨hfits, -, hor, hnot, hfields⟩ hoperands
    exact ⟨⟨hfits.condition, hfits.relation⟩, everywhereOperands_iff.mpr hoperands, hor, hnot,
      hfields⟩
  or := by
    rintro entity ⟨and, or, not, fields⟩ operands ⟨hfits, hand, -, hnot, hfields⟩ hoperands
    exact ⟨⟨hfits.condition, hfits.relation⟩, hand, everywhereOperands_iff.mpr hoperands, hnot,
      hfields⟩
  not := by
    rintro entity ⟨and, or, not, fields⟩ operand ⟨hfits, hand, hor, -, hfields⟩ hoperand
    exact ⟨⟨hfits.condition, hfits.relation⟩, hand, hor, hoperand, hfields⟩
  condition h _ hfield :=
    h.withField (.condition (Entity.columnName_of_column hfield) _ .nil)
  relation h _ hfield htarget hnested :=
    h.withField (.relation (Entity.relation_of_field hfield) htarget hnested .nil)

/-- In a built schema, every filter that is read from JSON has a condition, and so have two of them
together, and every unique where that is read. -/
theorem exists_tree_of_ofJson {definitions : List (String × List EntityStep)}
    (hs : Schema.build definitions = .ok schema) {name : String}
    (he : schema.entity name = .ok entity) :
    (∀ json filter, ofJson schema entity json = .ok filter →
      ∃ tree, toTree schema entity filter = .ok tree) ∧
    (∀ json filter, ofJson schema entity json = .ok filter →
      ∀ json' other, ofJson schema entity json' = .ok other →
      ∃ tree, toTree schema entity (filter.andWith other) = .ok tree) ∧
    ∀ json which, UniqueWhere.ofJson schema entity json = .ok which →
      ∃ tree, toTree schema entity which.toFilter = .ok tree := by
  have hw := Schema.wellFormed_of_build hs
  have hfits {json : Json} {filter : Filter} (h : ofJson schema entity json = .ok filter) :
      Everywhere schema Fits entity filter := keptByReading_fits.of_ofJson h
  refine ⟨fun json filter hfilter => exists_tree hw he filter (hfits hfilter), ?_, ?_⟩
  · intro json filter hfilter json' other hother
    exact exists_tree hw he _ ((hfits hfilter).andWith (hfits hother))
  · intro json which hwhich
    exact exists_tree hw he _ (UniqueWhere.fits_ofJson hwhich).everywhere_toFilter

/-- Authors that have a post titled a, and that are not called Grace. -/
def writersOfA : Json :=
  .object
    [("and", .array [.object [("posts", .object [("title", .object [("eq", .string "a")])])]]),
      ("not", .object [("name", .object [("eq", .string "Grace")])])]

/-- The author with the key 1. -/
def firstAuthor : Json := .object [("id", .integer 1)]

/-- Both are read, and what is read has a condition, also when the first is joined with itself. -/
theorem exists_tree_of_ofJson_blog :
    let author := Entity.ofSteps "Author" authorSteps
    (∃ filter, ofJson blog author writersOfA = .ok filter ∧
      (∃ tree, toTree blog author filter = .ok tree) ∧
      ∃ tree, toTree blog author (filter.andWith filter) = .ok tree) ∧
    ∃ which, UniqueWhere.ofJson blog author firstAuthor = .ok which ∧
      ∃ tree, toTree blog author which.toFilter = .ok tree := by
  intro author
  have hauthor : blog.entity "Author" = .ok author := rfl
  have hfilter : (ofJson blog author writersOfA).isOk = true := by decide
  have hwhich : (UniqueWhere.ofJson blog author firstAuthor).isOk = true := by decide
  cases hread : ofJson blog author writersOfA with
  | error failure =>
    rw [hread] at hfilter
    cases hfilter
  | ok filter =>
    cases hreadWhich : UniqueWhere.ofJson blog author firstAuthor with
    | error failure =>
      rw [hreadWhich] at hwhich
      cases hwhich
    | ok which =>
      obtain ⟨halone, htogether, hunique⟩ := exists_tree_of_ofJson build_blog hauthor
      exact ⟨⟨filter, rfl, halone _ _ hread, htogether _ _ hread _ _ hread⟩,
        which, rfl, hunique _ _ hreadWhich⟩

end EntityGraph.Filter
