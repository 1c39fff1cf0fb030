import EntityGraph.Data.Json
import EntityGraph.Proofs.Filter.Reading
import EntityGraph.Proofs.Table
/-!
# Input that fits the schema

Input fits an entity if every value in it has a column to go to, and every operation is on a
relation of the sort that it is for; nested input fits the target. What is read from JSON fits.
-/
namespace EntityGraph

variable {schema : Schema} {entity target : Entity} {name : String} {relation : Relation}

/-! ### Unique wheres -/

mutual
/-- Whether every node of a unique where has a column or a relation to go to. -/
inductive UniqueWhere.Fits (schema : Schema) : Entity → UniqueWhere → Prop
  | intro {entity : Entity} {which : UniqueWhere}
      (h : ∀ node ∈ which.nodes, UniqueNode.Fits schema entity node.1 node.2) :
      UniqueWhere.Fits schema entity which

inductive UniqueNode.Fits (schema : Schema) : Entity → String → UniqueNode → Prop
  | value {entity : Entity} {name column : String} {value : Value}
      (hcolumn : entity.columnName name = .ok column) :
      UniqueNode.Fits schema entity name (.value value)
  | relation {entity target : Entity} {name : String} {relation : Relation} {nested : UniqueWhere}
      (hrelation : entity.relation name = .ok relation)
      (htarget : schema.targetEntity relation = .ok target)
      (hnested : UniqueWhere.Fits schema target nested) :
      UniqueNode.Fits schema entity name (.relation nested)
end

namespace UniqueWhere

variable {which nested : UniqueWhere}

lemma Fits.nodes (h : which.Fits schema entity) :
    ∀ node ∈ which.nodes, node.2.Fits schema entity node.1 := by
  cases h with
  | intro h => exact h

lemma fits_empty : empty.Fits schema entity := .intro fun _ hmem => absurd hmem List.not_mem_nil

lemma fits_single {column : String} (hcolumn : entity.columnName name = .ok column)
    (value : Value) : (single name value).Fits schema entity :=
  .intro (List.forall_mem_singleton.mpr (.value hcolumn))

/-- A node that fits may be added. -/
lemma Fits.insert {node : UniqueNode} (h : which.Fits schema entity)
    (hnode : node.Fits schema entity name) :
    (⟨Table.insert name node which.nodes⟩ : UniqueWhere).Fits schema entity := by
  refine .intro fun other hmem => ?_
  obtain rfl | hmem := Table.mem_insert hmem
  · exact hnode
  · exact h.nodes other hmem

lemma Fits.withValue {column : String} (h : which.Fits schema entity)
    (hcolumn : entity.columnName name = .ok column) (value : Value) :
    (which.withValue name value).Fits schema entity := h.insert (.value hcolumn)

lemma Fits.withRelation (h : which.Fits schema entity)
    (hrelation : entity.relation name = .ok relation)
    (htarget : schema.targetEntity relation = .ok target) (hnested : nested.Fits schema target) :
    (which.withRelation name nested).Fits schema entity :=
  h.insert (.relation hrelation htarget hnested)

mutual
/-- The filter of a unique where that fits can be translated. -/
theorem Fits.everywhere_toFilter {entity : Entity} {which : UniqueWhere}
    (h : which.Fits schema entity) :
    Filter.Everywhere schema Filter.Fits entity which.toFilter := by
  obtain ⟨nodes⟩ := which
  rw [toFilter]
  exact (fieldsFit_nodesToFields h.nodes).everywhere
termination_by structural which

theorem fieldsFit_nodesToFields {entity : Entity} {nodes : List (String × UniqueNode)}
    (h : ∀ node ∈ nodes, node.2.Fits schema entity node.1) :
    Filter.FieldsFit schema entity (nodesToFields nodes) := by
  match nodes with
  | [] => exact .nil
  | (name, .value value) :: rest =>
    obtain ⟨hnode, hrest⟩ := List.forall_mem_cons.mp h
    cases hnode with
    | value hcolumn => exact .condition hcolumn _ (fieldsFit_nodesToFields hrest)
  | (name, .relation nested) :: rest =>
    obtain ⟨hnode, hrest⟩ := List.forall_mem_cons.mp h
    cases hnode with
    | relation hrelation htarget hnested =>
      exact .relation hrelation htarget (Fits.everywhere_toFilter hnested)
        (fieldsFit_nodesToFields hrest)
termination_by structural nodes
end

end UniqueWhere

namespace UniqueWhere

/-- A property of unique wheres that holds at the start of reading and that every member
preserves. -/
structure KeptByReading (schema : Schema) (P : Entity → UniqueWhere → Prop) : Prop where
  empty : ∀ entity, P entity .empty
  value : ∀ {entity which name column value}, P entity which →
    entity.field name = .ok (.column column) → P entity (which.withValue name value)
  relation : ∀ {entity which name relation target nested}, P entity which →
    entity.field name = .ok (.relation relation) → schema.targetEntity relation = .ok target →
    P target nested → P entity (which.withRelation name nested)

section

variable {P : Entity → UniqueWhere → Prop}

mutual
theorem KeptByReading.of_ofJson (hP : KeptByReading schema P) {entity : Entity} {json : Json}
    {which : UniqueWhere} (h : ofJson schema entity json = .ok which) : P entity which := by
  match json with
  | .object members => exact hP.of_addMembers (hP.empty entity) h
  | .null | .bool _ | .number _ | .string _ | .array _ => cases h
termination_by structural json

/-- Members are added under the fields that they name. -/
theorem KeptByReading.of_addMembers (hP : KeptByReading schema P) {entity : Entity}
    {members : List (String × Json)} {which result : UniqueWhere} (hwhich : P entity which)
    (h : addMembers schema entity which members = .ok result) : P entity result := by
  match members with
  | [] =>
    cases h
    exact hwhich
  | (key, argument) :: rest =>
    rw [addMembers] at h
    cases hfield : entity.field key with
    | error e =>
      rw [hfield] at h
      cases h
    | ok field =>
      rw [hfield] at h
      cases field with
      | column column =>
        cases hvalue : Value.ofJson argument with
        | error e =>
          rw [hvalue] at h
          cases h
        | ok value =>
          rw [hvalue] at h
          exact hP.of_addMembers (hP.value hwhich hfield) h
      | relation relation =>
        cases htarget : schema.targetEntity relation with
        | error e =>
          simp only [htarget] at h
          cases h
        | ok target =>
          simp only [htarget] at h
          obtain ⟨nested, hnested, h⟩ := Except.bind_eq_ok.mp h
          exact hP.of_addMembers (hP.relation hwhich hfield htarget (hP.of_ofJson hnested)) h
termination_by structural members
end

end

lemma keptByReading_fits : KeptByReading schema fun entity which => which.Fits schema entity where
  empty _ := fits_empty
  value hwhich hfield := hwhich.withValue (Entity.columnName_of_column hfield) _
  relation hwhich hfield htarget hnested :=
    hwhich.withRelation (Entity.relation_of_field hfield) htarget hnested

theorem fits_ofJson {entity : Entity} {json : Json} {which : UniqueWhere}
    (h : ofJson schema entity json = .ok which) : which.Fits schema entity :=
  keptByReading_fits.of_ofJson h

end UniqueWhere

/-! ### Data -/

namespace ToOneInput

/-- The unique wheres of an operation. -/
def wheres : ToOneInput → List UniqueWhere
  | connect which => [which]
  | _ => []

/-- The data of an operation, with whether a row is created from it. -/
def parts : ToOneInput → List (Bool × Data)
  | create data => [(true, data)]
  | update data => [(false, data)]
  | upsert new changes => [(true, new), (false, changes)]
  | _ => []

end ToOneInput

namespace ToManyInput

def wheres : ToManyInput → List UniqueWhere
  | connect which => [which]
  | create _ => []
  | update which _ => [which]
  | upsert which .. => [which]
  | disconnect which => [which]
  | delete which => [which]

def parts : ToManyInput → List (Bool × Data)
  | create data => [(true, data)]
  | update _ data => [(false, data)]
  | upsert _ changes new => [(false, changes), (true, new)]
  | _ => []

end ToManyInput

namespace FieldInput

def operations : FieldInput → List RelationOperation
  | value _ => []
  | one input => [input.operation]
  | many items => items.map fun item => item.input.operation

def parts : FieldInput → List (Bool × Data)
  | value _ => []
  | one input => input.parts
  | many items => items.flatMap fun item => item.input.parts

end FieldInput

mutual
/-- Whether every field of some data fits the field of the entity that it names. -/
inductive Data.Fits (schema : Schema) : Entity → Data → Prop
  | intro {entity : Entity} {data : Data}
      (h : ∀ entry ∈ data.fields, FieldInput.Fits schema entity entry.1 entry.2) :
      Data.Fits schema entity data

/-- Whether an input fits a field: a value has a column to go to, and an operation is on a relation
to one row or to many rows, as it says. -/
inductive FieldInput.Fits (schema : Schema) : Entity → String → FieldInput → Prop
  | value {entity : Entity} {field column : String} {value : Value}
      (hcolumn : entity.columnName field = .ok column) :
      FieldInput.Fits schema entity field (.value value)
  | one {entity target : Entity} {field : String} {relation : Relation} {input : ToOneInput}
      (hrelation : entity.relation field = .ok relation) (hkind : relation.kind.isHasOne = true)
      (htarget : schema.targetEntity relation = .ok target)
      (hwheres : ∀ which ∈ input.wheres, which.Fits schema target)
      (hparts : ∀ part ∈ input.parts, Data.Fits schema target part.2) :
      FieldInput.Fits schema entity field (.one input)
  | many {entity target : Entity} {field : String} {relation : Relation} {items : List ToManyItem}
      (hrelation : entity.relation field = .ok relation) (hkind : relation.kind.isHasOne = false)
      (htarget : schema.targetEntity relation = .ok target)
      (hwheres : ∀ item ∈ items, ∀ which ∈ item.input.wheres, which.Fits schema target)
      (hparts : ∀ item ∈ items, ∀ part ∈ item.input.parts, Data.Fits schema target part.2) :
      FieldInput.Fits schema entity field (.many items)
end

/-- Whether some create data, at the top of the input if that is create data and in any of its
parts, asks a relation for something else than `connect` and `create`. -/
inductive Data.Misplaces : Bool → Data → Prop
  | here {data : Data} {entry : String × FieldInput} (hentry : entry ∈ data.fields)
      {operation : RelationOperation} (hoperation : operation ∈ entry.2.operations)
      (hother : operation ≠ .connect ∧ operation ≠ .create) : Data.Misplaces true data
  | inside {creates : Bool} {data : Data} {entry : String × FieldInput}
      (hentry : entry ∈ data.fields) {part : Bool × Data} (hpart : part ∈ entry.2.parts)
      (hmisplaces : Data.Misplaces part.1 part.2) : Data.Misplaces creates data

namespace Data

variable {data : Data} {creates : Bool}

lemma Fits.fields (h : data.Fits schema entity) :
    ∀ entry ∈ data.fields, entry.2.Fits schema entity entry.1 := by
  cases h with
  | intro h => exact h

lemma fits_empty : empty.Fits schema entity := .intro fun _ hmem => absurd hmem List.not_mem_nil

lemma Fits.set {input : FieldInput} (h : data.Fits schema entity)
    (hinput : input.Fits schema entity name) : (data.set name input).Fits schema entity := by
  refine .intro fun entry hmem => ?_
  obtain rfl | hmem := Table.mem_put hmem
  · exact hinput
  · exact h.fields entry hmem

lemma not_misplaces_empty : ¬ empty.Misplaces creates := by
  rintro (⟨hentry⟩ | ⟨hentry⟩)
  · exact absurd hentry List.not_mem_nil
  · exact absurd hentry List.not_mem_nil

/-- Setting a field misplaces nothing that the field does not. -/
lemma Misplaces.of_set {input : FieldInput} (h : (data.set name input).Misplaces creates)
    (hoperations : ∀ operation ∈ input.operations,
      ¬ (creates ∧ operation ≠ .connect ∧ operation ≠ .create))
    (hparts : ∀ part ∈ input.parts, ¬ part.2.Misplaces part.1) : data.Misplaces creates := by
  cases h with
  | here hentry hoperation hother =>
    obtain rfl | hentry := Table.mem_put hentry
    · exact absurd ⟨rfl, hother⟩ (hoperations _ hoperation)
    · exact .here hentry hoperation hother
  | inside hentry hpart hmisplaces =>
    obtain rfl | hentry := Table.mem_put hentry
    · exact absurd hmisplaces (hparts _ hpart)
    · exact .inside hentry hpart hmisplaces

lemma fits_whichOfMember {place key : String} {argument : Json} {which : UniqueWhere}
    (h : whichOfMember schema target place key argument = .ok which) :
    which.Fits schema target := by
  unfold whichOfMember at h
  split at h
  · exact UniqueWhere.fits_ofJson h
  · cases h

/-- Whether an operation fits the target of its relation: so do its unique wheres and its data. -/
structure OperationFits (schema : Schema) (target : Entity) (wheres : List UniqueWhere)
    (parts : List (Bool × Data)) : Prop where
  wheres : ∀ which ∈ wheres, which.Fits schema target
  parts : ∀ part ∈ parts, part.2.Fits schema target

namespace OperationFits

lemma nil : OperationFits schema target [] [] :=
  ⟨fun _ hmem => absurd hmem List.not_mem_nil, fun _ hmem => absurd hmem List.not_mem_nil⟩

lemma ofWhere {which : UniqueWhere} (h : which.Fits schema target) :
    OperationFits schema target [which] [] :=
  ⟨List.forall_mem_singleton.mpr h, fun _ hmem => absurd hmem List.not_mem_nil⟩

lemma ofData {data : Data} (h : data.Fits schema target) (creates : Bool) :
    OperationFits schema target [] [(creates, data)] :=
  ⟨fun _ hmem => absurd hmem List.not_mem_nil, List.forall_mem_singleton.mpr h⟩

end OperationFits

mutual
theorem fits_ofJson {entity : Entity} {json : Json} {data : Data}
    (h : ofJson schema entity json = .ok data) : data.Fits schema entity := by
  match json with
  | .object members => exact fits_addMembers fits_empty h
  | .null | .bool _ | .number _ | .string _ | .array _ => cases h
termination_by structural json

/-- The kind of a field decides how its member is read. -/
theorem fits_addMembers {entity : Entity} {members : List (String × Json)} {data result : Data}
    (hdata : data.Fits schema entity) (h : addMembers schema entity data members = .ok result) :
    result.Fits schema entity := by
  match members with
  | [] =>
    cases h
    exact hdata
  | (key, argument) :: rest =>
    rw [addMembers] at h
    cases hfield : entity.field key with
    | error e =>
      rw [hfield] at h
      cases h
    | ok field =>
      rw [hfield] at h
      cases field with
      | column column =>
        cases hvalue : Value.ofJson argument with
        | error e =>
          rw [hvalue] at h
          cases h
        | ok value =>
          rw [hvalue] at h
          have hinput : (FieldInput.value value).Fits schema entity key :=
            .value (Entity.columnName_of_column hfield)
          exact fits_addMembers (hdata.set hinput) h
      | relation relation =>
        cases htarget : schema.targetEntity relation with
        | error e =>
          simp only [htarget] at h
          cases h
        | ok target =>
          simp only [htarget] at h
          have hrelation := Entity.relation_of_field hfield
          split at h
          · obtain ⟨input, hinput, h⟩ := Except.bind_eq_ok.mp h
            have hfits := fits_toOneOfJson hinput
            have hadded := hdata.set (.one hrelation ‹_› htarget hfits.wheres hfits.parts)
            exact fits_addMembers hadded h
          · match argument with
            | .array items =>
              obtain ⟨inputs, hinputs, h⟩ := Except.bind_eq_ok.mp h
              have hfits := fits_toManyOfJson hinputs
              have hadded := hdata.set (.many hrelation (Bool.eq_false_iff.mpr ‹_›) htarget
                (fun item hmem => (hfits item hmem).wheres)
                fun item hmem => (hfits item hmem).parts)
              exact fits_addMembers hadded h
            | .null | .bool _ | .number _ | .string _ | .object _ => cases h
termination_by structural members

theorem fits_dataOfMember {target : Entity} {place key : String} {members : List (String × Json)}
    {data : Data} (h : dataOfMember schema target place key members = .ok data) :
    data.Fits schema target := by
  match members with
  | [] => cases h
  | (name, json) :: rest =>
    rw [dataOfMember] at h
    split at h
    · exact fits_ofJson h
    · exact fits_dataOfMember h
termination_by structural members

theorem fits_toOneOfJson {target : Entity} {place : String} {json : Json} {input : ToOneInput}
    (h : toOneOfJson schema target place json = .ok input) :
    OperationFits schema target input.wheres input.parts := by
  match json with
  | .object members => exact fits_toOneOfMembers h
  | .null | .bool _ | .number _ | .string _ | .array _ => cases h
termination_by structural json

theorem fits_toOneOfMembers {target : Entity} {place : String} {members : List (String × Json)}
    {input : ToOneInput} (h : toOneOfMembers schema target place members = .ok input) :
    OperationFits schema target input.wheres input.parts := by
  match members with
  | [] => cases h
  | (name, argument) :: rest =>
    unfold toOneOfMembers at h
    split at h
    · exact fits_toOneOfMembers h
    · split at h
      · cases h
      · cases hoperation : RelationOperation.ofName? name with
        | none =>
          rw [hoperation] at h
          cases h
        | some operation =>
          rw [hoperation] at h
          cases operation with
          | connect =>
            obtain ⟨which, hwhich, rfl⟩ := Except.map_eq_ok.mp h
            exact .ofWhere (UniqueWhere.fits_ofJson hwhich)
          | create =>
            obtain ⟨data, hdata, rfl⟩ := Except.map_eq_ok.mp h
            exact .ofData (fits_ofJson hdata) _
          | update =>
            obtain ⟨data, hdata, rfl⟩ := Except.map_eq_ok.mp h
            exact .ofData (fits_ofJson hdata) _
          | upsert =>
            match argument with
            | .object members =>
              obtain ⟨new, hnew, h⟩ := Except.bind_eq_ok.mp h
              obtain ⟨changes, hchanges, h⟩ := Except.bind_eq_ok.mp h
              cases h
              refine ⟨OperationFits.nil.wheres,
                List.forall_mem_cons.mpr ⟨fits_dataOfMember hnew, ?_⟩⟩
              exact List.forall_mem_singleton.mpr (fits_dataOfMember hchanges)
            | .null | .bool _ | .number _ | .string _ | .array _ => cases h
          | disconnect =>
            cases h
            exact .nil
          | delete =>
            cases h
            exact .nil
termination_by structural members

theorem fits_toManyOfJson {target : Entity} {place : String} {items : List Json}
    {result : List ToManyItem} (h : toManyOfJson schema target place items = .ok result) :
    ∀ item ∈ result, OperationFits schema target item.input.wheres item.input.parts := by
  match items with
  | [] =>
    cases h
    exact fun _ hmem => absurd hmem List.not_mem_nil
  | .object members :: rest =>
    obtain ⟨input, hinput, h⟩ := Except.bind_eq_ok.mp h
    obtain ⟨others, hothers, h⟩ := Except.bind_eq_ok.mp h
    cases h
    exact List.forall_mem_cons.mpr ⟨fits_toManyOfMembers hinput, fits_toManyOfJson hothers⟩
  | .null :: _ | .bool _ :: _ | .number _ :: _ | .string _ :: _ | .array _ :: _ => cases h
termination_by structural items

theorem fits_toManyOfMembers {target : Entity} {place : String} {members : List (String × Json)}
    {input : ToManyInput} (h : toManyOfMembers schema target place members = .ok input) :
    OperationFits schema target input.wheres input.parts := by
  match members with
  | [] => cases h
  | (name, argument) :: rest =>
    unfold toManyOfMembers at h
    split at h
    · exact fits_toManyOfMembers h
    · split at h
      · cases h
      · cases hoperation : RelationOperation.ofName? name with
        | none =>
          rw [hoperation] at h
          cases h
        | some operation =>
          rw [hoperation] at h
          cases operation with
          | connect =>
            obtain ⟨which, hwhich, rfl⟩ := Except.map_eq_ok.mp h
            exact .ofWhere (UniqueWhere.fits_ofJson hwhich)
          | create =>
            obtain ⟨data, hdata, rfl⟩ := Except.map_eq_ok.mp h
            exact .ofData (fits_ofJson hdata) _
          | update =>
            obtain ⟨which, hwhich, h⟩ := Except.bind_eq_ok.mp h
            match argument with
            | .object members =>
              obtain ⟨data, hdata, rfl⟩ := Except.map_eq_ok.mp h
              exact ⟨List.forall_mem_singleton.mpr (fits_whichOfMember hwhich),
                List.forall_mem_singleton.mpr (fits_dataOfMember hdata)⟩
            | .null | .bool _ | .number _ | .string _ | .array _ => cases h
          | upsert =>
            obtain ⟨which, hwhich, h⟩ := Except.bind_eq_ok.mp h
            match argument with
            | .object members =>
              obtain ⟨changes, hchanges, h⟩ := Except.bind_eq_ok.mp h
              obtain ⟨new, hnew, h⟩ := Except.bind_eq_ok.mp h
              cases h
              refine ⟨List.forall_mem_singleton.mpr (fits_whichOfMember hwhich),
                List.forall_mem_cons.mpr ⟨fits_dataOfMember hchanges, ?_⟩⟩
              exact List.forall_mem_singleton.mpr (fits_dataOfMember hnew)
            | .null | .bool _ | .number _ | .string _ | .array _ => cases h
          | disconnect =>
            obtain ⟨which, hwhich, rfl⟩ := Except.map_eq_ok.mp h
            exact .ofWhere (UniqueWhere.fits_ofJson hwhich)
          | delete =>
            obtain ⟨which, hwhich, rfl⟩ := Except.map_eq_ok.mp h
            exact .ofWhere (UniqueWhere.fits_ofJson hwhich)
termination_by structural members
end

end Data

end EntityGraph
