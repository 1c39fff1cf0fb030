import EntityGraph.Effect
import EntityGraph.Filter.Sql
import EntityGraph.Mutation.Rows
import EntityGraph.Mutation.Settings
import EntityGraph.Sql.Statement
/-!
Sessions: a schema and the settings under which statements are sent. Every statement on the rows of
an entity is restricted by the access rules.
-/
namespace EntityGraph.Mutation

open Database (ResultSet)
open Sql (ConditionTree)

structure Session where
  schema : Schema
  settings : Settings

/-- The failure of a part becomes a value. -/
def attempt {I : Interface} {α : Type} (action : Action I α) : Action I (Except Failure α) :=
  ExceptT.mk do return .ok (← action.run)

namespace Session

def logged (session : Session) (text : String) : Action Effect Unit :=
  if session.settings.logQueries then note (.executing text) else pure ()

def query (session : Session) (query : Sql.Query) : Action Effect ResultSet := do
  session.logged query.statement.text
  (Effect.query query).adapt .database

def execute (session : Session) (query : Sql.Query) : Action Effect Nat := do
  session.logged query.statement.text
  (Effect.execute query).adapt .database

def command (session : Session) (text : String) : Action Effect Unit := do
  session.logged text
  (Effect.command text).adapt .database

/-- The condition for the rows that satisfy a filter and the access rules. -/
def permitted (session : Session) (entity : Entity) (filter : Filter)
    (operation : AccessOperation) (fields : List String) : Action Effect ConditionTree := do
  let predicate ← ExceptT.lift (Effect.predicate entity operation fields)
  liftExcept (((filter.andWith predicate).toTree session.schema entity).mapError .schema)

/-- The column of a row that satisfies a filter, unless there is no such row or it holds null. -/
def selectColumn (session : Session) (entity : Entity) (filter : Filter) (field : String) :
    Action Effect (Option Value) := do
  let tree ← session.permitted entity filter .read [field]
  let column ← liftExcept ((entity.columnName field).mapError .schema)
  let set ← session.query
    (.select { Filter.selection entity.tableName column tree with limit := some 1 })
  match set.rows with
  | [] => return none
  | row :: _ =>
    let value ← liftExcept ((Database.singleValue row).mapError .database)
    return if value.isNull then none else some value

end Session

end EntityGraph.Mutation
