import EntityGraph.Mutation.RelationInput
import EntityGraph.Proofs.Data.Fitting
/-!
# The weight of input data

Some data is weighed by what its inputs may ask for: each operation on a relation counts for the
statements that it is carried out by, and for the data given inside it. The weight does not depend
on the schema. Beside it stands what else may be read off the data before anything runs, whether it
deletes rows and whether it touches a relation that does.
-/
namespace EntityGraph

open Mutation

mutual
/-- A row is looked up and written, beside what its inputs ask for. -/
def Data.weight : Data → Nat
  | ⟨fields⟩ => 2 + weightOfFields fields
termination_by structural data => data

def weightOfFields : List (String × FieldInput) → Nat
  | [] => 0
  | (_, input) :: rest => input.weight + weightOfFields rest
termination_by structural fields => fields

def FieldInput.weight : FieldInput → Nat
  | .value _ => 0
  | .one input => input.weight
  | .many items => weightOfItems items
termination_by structural input => input

/-- A connection of an inverse relation is the heaviest: the target connects to the row in turn, and
the row that it was connected to has to let it go. -/
def ToOneInput.weight : ToOneInput → Nat
  | .connect _ => 6
  | .create data => 2 + data.weight
  | .update data => 1 + data.weight
  | .upsert create update => 1 + create.weight + update.weight
  | .disconnect => 2
  | .delete => 0
termination_by structural input => input

def weightOfItems : List ToManyItem → Nat
  | [] => 0
  | ⟨_, input⟩ :: rest => input.weight + weightOfItems rest
termination_by structural items => items

def ToManyInput.weight : ToManyInput → Nat
  | .connect _ => 2
  | .create data => 1 + data.weight
  | .update _ data => 2 + data.weight
  | .upsert _ update create => 2 + update.weight + create.weight
  | .disconnect _ => 2
  | .delete _ => 0
termination_by structural input => input
end

/-- A relation that removes orphans, seen from either of its sides. -/
def Mutation.RelationSides.RemovesOrphans (sides : RelationSides) : Prop :=
  sides.relation.removesOrphans = true ∨ ∃ paired ∈ sides.paired, paired.removesOrphans = true

namespace Data

/-- Whether some input in the data, at any depth, is a deletion. -/
inductive Deletes : Data → Prop
  | here {data : Data} {entry : String × FieldInput} (hentry : entry ∈ data.fields)
      (hdelete : RelationOperation.delete ∈ entry.2.operations) : Deletes data
  | inside {data : Data} {entry : String × FieldInput} (hentry : entry ∈ data.fields)
      {part : Bool × Data} (hpart : part ∈ entry.2.parts) (hdeletes : Deletes part.2) :
      Deletes data

/-- Whether some input in the data, at any depth, is on a relation that removes orphans. -/
inductive TouchesOrphans (schema : Schema) : Entity → Data → Prop
  | here {entity : Entity} {data : Data} {entry : String × FieldInput} {sides : RelationSides}
      (hentry : entry ∈ data.fields) (hinput : entry.2.operations ≠ [])
      (hsides : RelationSides.ofField schema entity entry.1 = .ok sides)
      (horphans : sides.RemovesOrphans) : TouchesOrphans schema entity data
  | inside {entity : Entity} {data : Data} {entry : String × FieldInput} {sides : RelationSides}
      {part : Bool × Data} (hentry : entry ∈ data.fields)
      (hsides : RelationSides.ofField schema entity entry.1 = .ok sides)
      (hpart : part ∈ entry.2.parts) (htouches : TouchesOrphans schema sides.target part.2) :
      TouchesOrphans schema entity data

/-- Data that removes no rows, neither as it says nor as the schema has it. -/
structure RemovesNothing (schema : Schema) (entity : Entity) (data : Data) : Prop where
  deletes : ¬ data.Deletes
  orphans : ¬ data.TouchesOrphans schema entity

end Data

/-- An operation on a relation that removes no rows, with the data given inside it. -/
structure Mutation.RelationSides.Retains (schema : Schema) (sides : RelationSides)
    (operation : RelationOperation) (parts : List (Bool × Data)) : Prop where
  operation : operation ≠ .delete
  orphans : ¬ sides.RemovesOrphans
  parts : ∀ part ∈ parts, part.2.RemovesNothing schema sides.target

namespace Data

variable {schema : Schema} {entity : Entity} {data : Data} {field : String} {sides : RelationSides}

namespace RemovesNothing

variable (h : data.RemovesNothing schema entity)
include h

lemma operation_ne_delete {input : ToOneInput} (hfield : (field, .one input) ∈ data.fields) :
    input.operation ≠ .delete :=
  fun hdelete => h.deletes (.here hfield (hdelete ▸ List.mem_singleton_self _))

lemma one {input : ToOneInput} (hfield : (field, .one input) ∈ data.fields)
    (hsides : RelationSides.ofField schema entity field = .ok sides) :
    sides.Retains schema input.operation input.parts where
  operation := h.operation_ne_delete hfield
  orphans horphans := h.orphans (.here hfield (List.cons_ne_nil _ _) hsides horphans)
  parts _ hpart := ⟨fun hdeletes => h.deletes (.inside hfield hpart hdeletes),
    fun htouches => h.orphans (.inside hfield hsides hpart htouches)⟩

lemma item {items : List ToManyItem} {item : ToManyItem}
    (hfield : (field, .many items) ∈ data.fields)
    (hsides : RelationSides.ofField schema entity field = .ok sides) (hitem : item ∈ items) :
    sides.Retains schema item.input.operation item.input.parts := by
  have hoperation : item.input.operation ∈ (FieldInput.many items).operations :=
    List.mem_map.mpr ⟨item, hitem, rfl⟩
  have hinside {part : Bool × Data} (hpart : part ∈ item.input.parts) :
      part ∈ (FieldInput.many items).parts := List.mem_flatMap.mpr ⟨item, hitem, hpart⟩
  refine ⟨fun hdelete => h.deletes (.here hfield (hdelete ▸ hoperation)), fun horphans => ?_,
    fun part hpart => ⟨fun hdeletes => ?_, fun htouches => ?_⟩⟩
  · exact h.orphans (.here hfield (List.ne_nil_of_mem hoperation) hsides horphans)
  · exact h.deletes (.inside hfield (hinside hpart) hdeletes)
  · exact h.orphans (.inside hfield hsides (hinside hpart) htouches)

/-- A value removes nothing. -/
lemma withValue (field : String) (value : Value) :
    (data.withValue field value).RemovesNothing schema entity where
  deletes hdeletes := by
    cases hdeletes with
    | here hentry hdelete =>
      obtain rfl | hentry := Table.mem_put hentry
      · cases hdelete
      · exact h.deletes (.here hentry hdelete)
    | inside hentry hpart hdeletes =>
      obtain rfl | hentry := Table.mem_put hentry
      · cases hpart
      · exact h.deletes (.inside hentry hpart hdeletes)
  orphans htouches := by
    cases htouches with
    | here hentry hinput hsides horphans =>
      obtain rfl | hentry := Table.mem_put hentry
      · exact hinput rfl
      · exact h.orphans (.here hentry hinput hsides horphans)
    | inside hentry hsides hpart htouches =>
      obtain rfl | hentry := Table.mem_put hentry
      · cases hpart
      · exact h.orphans (.inside hentry hsides hpart htouches)

end RemovesNothing

lemma removesNothing_empty : empty.RemovesNothing schema entity where
  deletes hdeletes := by
    cases hdeletes with
    | here hentry => cases hentry
    | inside hentry => cases hentry
  orphans htouches := by
    cases htouches with
    | here hentry => cases hentry
    | inside hentry => cases hentry

lemma weight_eq (data : Data) : data.weight = 2 + weightOfFields data.fields := by
  cases data
  rw [weight]

/-- A value weighs nothing, and what it takes the place of may have. -/
lemma weight_withValue_le (data : Data) (field : String) (value : Value) :
    (data.withValue field value).weight ≤ data.weight := by
  have hfields (fields : List (String × FieldInput)) :
      weightOfFields (Table.put field (.value value) fields) ≤ weightOfFields fields := by
    induction fields with
    | nil => simp [Table.put, weightOfFields, FieldInput.weight]
    | cons entry rest ih =>
      obtain ⟨name, input⟩ := entry
      rw [Table.put]
      split
      · simp [weightOfFields, FieldInput.weight]
      · simpa [weightOfFields] using ih
  rw [weight_eq, weight_eq]
  exact Nat.add_le_add_left (hfields data.fields) 2

end Data

end EntityGraph
