import EntityGraph.Mutation.UpdateInput
/-!
Relation inputs of a row that is being created. Only `connect` and `create` make sense there.
-/
namespace EntityGraph.Mutation

/-- The value of a joining column, resolved before the row is inserted. -/
def createColumn (sides : RelationSides) (input : ToOneInput) :
    Except Failure (FieldValue Rows) :=
  match sides.kind.hasJoiningColumn, input with
  | true, .connect which => .ok (connectOwning sides which none)
  | true, .create data => .ok (createOwning sides data)
  | _, _ => .error (sides.unsupported input.operation .creating)

namespace RelatedRow

/-- Points the target at the new row. A row that the target pointed at before is deleted if the
relation removes orphans, and is in the way if it must have a target. -/
def connectInverse (row : RelatedRow) (which : UniqueWhere) : Action Rows (List Result) := do
  let paired ← liftExcept row.sides.pair
  match ← Rows.primaryValue row.sides.target which with
  | none => return missing which
  | some found =>
    let owner := row.targetKey found
    let previous ← Rows.selectField row.sides.target owner paired.name
    if previous.isSome && !paired.removesOrphans && !row.sides.relation.isNullable then
      return [.atRoot (.violation .notNull)]
    else
      let results ← Rows.update row.sides.target owner (row.linked paired .empty)
      match previous, paired.removesOrphans with
      | some orphan, true =>
        note (.removingOrphan row.sides.entity.name row.sides.relation.name)
        let removed ← Rows.delete row.sides.entity (byPrimary row.sides.entity orphan)
        return results ++ removed
      | _, _ => return results

/-- The operation on an inverse relation, run once the row has its key. -/
def createToOne (row : RelatedRow) (input : ToOneInput) :
    Except Failure (Action Rows (List Result)) :=
  match row.sides.kind, input with
  | .oneHasOneInverse, .connect which =>
    .ok (underPath row.sides.path (row.connectInverse which))
  | .oneHasOneInverse, .create data => do
    let paired ← row.sides.pair
    .ok (underPath row.sides.path (Rows.insert row.sides.target (row.linked paired data)))
  | _, _ => .error (row.sides.unsupported input.operation .creating)

def createToMany (row : RelatedRow) (items : List ToManyItem) :
    Except Failure (List (Action Rows (List Result))) :=
  match items.find? fun item => item.input.operation ≠ .connect && item.input.operation ≠ .create with
  | some item => .error (row.sides.unsupported item.input.operation .creating)
  | none => row.toManyOperations items

end RelatedRow

end EntityGraph.Mutation
