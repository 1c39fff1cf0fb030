import EntityGraph.Mutation.FieldValues
import EntityGraph.Mutation.Session
/-!
Statements that write one row. The values are resolved first; what they left to run follows the
statement.
-/
namespace EntityGraph.Mutation

/-- A way to answer every operation on rows. -/
abbrev RowAnswers := (request : RowRequest) → Program Effect request.Reply

/-- Runs an action whose operations on rows are answered. -/
def answered {α : Type} (rows : RowAnswers) (action : Action Rows α) : Action Effect α :=
  ExceptT.mk (Program.interpret rows action.run)

/-- The columns behind the fields, with the values as parameters. -/
def columnValues (entity : Entity) :
    Table Value → Except SchemaError (List (Sql.ColumnRef × Sql.Expr))
  | [] => .ok []
  | (field, value) :: rest => do
    let column ← entity.columnName field
    let columns ← columnValues entity rest
    .ok ((Sql.column column, .param value) :: columns)

structure Inserted where
  /-- The key that the database returned, unless no row was inserted. -/
  primary : Option Value
  values : Table Value
  results : List Result

structure Updated where
  /-- How many rows were touched; nothing to set, no statement. -/
  rows : Option Nat
  values : Table Value
  results : List Result

namespace Session

def insertValues (session : Session) (rows : RowAnswers) (entity : Entity)
    (values : FieldValues Rows) : Action Effect Inserted := do
  let row ← answered rows values.resolve
  let columns ← liftExcept ((columnValues entity row.values).mapError .schema)
  let set ← session.query
    (.insert ⟨Sql.table entity.tableName, columns, false, [Sql.column entity.primaryColumn]⟩)
  let results ← answered rows row.finish
  return ⟨set.valueAt? 0 0, row.values, results⟩

def updateValues (session : Session) (rows : RowAnswers) (entity : Entity)
    (values : FieldValues Rows) (tree : Sql.ConditionTree) : Action Effect Updated := do
  let row ← answered rows values.resolve
  let columns ← liftExcept ((columnValues entity row.values).mapError .schema)
  let count ← if columns.isEmpty then pure none else do
    some <$> session.execute (.update ⟨Sql.table entity.tableName, columns, some tree, []⟩)
  let results ← answered rows row.finish
  return ⟨count, row.values, results⟩

end Session

end EntityGraph.Mutation
