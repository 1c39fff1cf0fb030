import EntityGraph.Schema
/-!
Validation of a schema: constraints name fields that exist, targets exist, and paired relations
are of opposite kinds and name each other.
-/
namespace EntityGraph.Schema

/-- Checks a list in order up to its first fault. -/
def checkAll {α : Type} (check : α → Except SchemaError Unit) : List α → Except SchemaError Unit
  | [] => .ok ()
  | a :: rest =>
    match check a with
    | .ok () => checkAll check rest
    | .error e => .error e

theorem checkAll_eq_ok_iff {α : Type} {check : α → Except SchemaError Unit} {items : List α} :
    checkAll check items = .ok () ↔ ∀ a ∈ items, check a = .ok () := by
  induction items with
  | nil => simp [checkAll]
  | cons a rest ih => cases h : check a <;> simp [checkAll, h, ih]

/-- Every field of a unique constraint exists. -/
def checkUnique (entity : Entity) (fields : List String) : Except SchemaError Unit :=
  match fields.find? fun field => !entity.fields.contains field with
  | some field => .error (.invalidUnique entity.name field)
  | none => .ok ()

/-- The target exists, and so does the relation it is paired with, which is of the opposite kind,
leads back and is paired with this one or with none. -/
def checkRelation (schema : Schema) (entity : Entity) (relation : Relation) :
    Except SchemaError Unit :=
  let invalid := fun fault => .error (.invalidRelation entity.name relation.name fault)
  match schema.targetEntity relation with
  | .error _ => invalid .unknownTarget
  | .ok target =>
    match relation.pairedName? with
    | none => .ok ()
    | some name =>
      match target.relation name with
      | .error _ => invalid (.noPairedRelation target.name name)
      | .ok paired =>
        let expected := relation.kind.opposite
        if paired.kind ≠ expected ∨ paired.target ≠ entity.name then
          invalid (.wrongPairing target.name name expected entity.name)
        else if paired.pairedName?.any (· ≠ relation.name) then
          invalid (.pairedElsewhere target.name name)
        else .ok ()

def checkEntity (schema : Schema) (entity : Entity) : Except SchemaError Unit :=
  match checkAll (checkUnique entity) entity.unique with
  | .ok () => checkAll (schema.checkRelation entity) entity.relations
  | .error e => .error e

def validate (schema : Schema) : Except SchemaError Unit :=
  checkAll schema.checkEntity (schema.entities.map Prod.snd)

end EntityGraph.Schema
