import EntityGraph.Mutation.Session
/-!
Deletions. After a batch of rows is gone, every relation that pointed at it is visited: its rows
are deleted in turn, their joining column is cleared, or they are left for the database to refuse.
-/
namespace EntityGraph.Mutation

def deferConstraints : String := "SET CONSTRAINTS ALL DEFERRED"

def checkConstraints : String := "SET CONSTRAINTS ALL IMMEDIATE"

/-- The filter for the rows whose relation leads to one of the given keys. -/
def pointingAt (entity : Entity) (relation : Relation) (primaries : List Value) : Filter :=
  .onRelation relation.name (.onColumn entity.primary (.oneOf primaries))

namespace Session

/-- Deletes the rows that satisfy a filter and returns their keys. -/
def deleteBatch (session : Session) (entity : Entity) (filter : Filter) :
    Action Effect (List Value) := do
  let tree ← session.permitted entity filter .delete []
  let set ← session.query
    (.delete ⟨Sql.table entity.tableName, some tree, [Sql.column entity.primaryColumn]⟩)
  liftExcept ((set.columnValues entity.primaryColumn).mapError .database)

/-- Clears the joining column of the rows that satisfy a filter. -/
def clearReferences (session : Session) (entity : Entity) (relation : Relation)
    (filter : Filter) : Action Effect Unit := do
  let tree ← session.permitted entity filter .update [relation.name]
  let column ← liftExcept ((entity.columnName relation.name).mapError .schema)
  let rows ← session.execute
    (.update ⟨Sql.table entity.tableName, [(Sql.column column, .param .null)], some tree, []⟩)
  note (.clearedReferences entity.name relation.name rows)

/-- What a deletion of rows of `entity` does to the rows of `owner` that point at them; `cascade`
goes on with what that deletes. -/
def visitRelation (session : Session) (cascade : Entity → List Value → Action Effect Unit)
    (entity : Entity) (primaries : List Value) (owner : Entity) (relation : Relation) :
    Action Effect Unit := do
  let some joining := relation.joiningColumn?
    | throw (.schema (.invalidRelation owner.name relation.name .missingJoiningColumn))
  let pointing := pointingAt entity relation primaries
  match joining.onDelete with
  | .restrict => return ()
  | .cascade =>
    let deleted ← session.deleteBatch owner pointing
    if deleted.isEmpty then return () else cascade owner deleted
  | .setNull => session.clearReferences owner relation pointing

/-- Visits every relation that points at deleted rows, to a bounded depth. -/
def cascade (session : Session) : Nat → Entity → List Value → Action Effect Unit
  | 0, _, _ => ExceptT.lift Effect.overrun
  | depth + 1, entity, primaries =>
    (session.schema.owningRelationsTo entity.name).forM fun (owner, relation) =>
      session.visitRelation (session.cascade depth) entity primaries owner relation

/-- Deletes the rows that satisfy a filter, with what depends on them, and returns their keys. It
is a failure to delete nothing. -/
def deleteWhere (session : Session) (depth : Nat) (entity : Entity) (filter : Filter) :
    Action Effect (List Value) := do
  if session.settings.deferConstraints then
    session.command deferConstraints
  let deleted ← session.deleteBatch entity filter
  if deleted.isEmpty then
    throw .denied
  session.cascade depth entity deleted
  if session.settings.deferConstraints then
    session.command checkConstraints
  return deleted

end Session

end EntityGraph.Mutation
