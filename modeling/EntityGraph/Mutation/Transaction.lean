import EntityGraph.Data.Json
import EntityGraph.Database.Transaction
import EntityGraph.Mutation.Response
import EntityGraph.Mutation.RowWriter
/-!
Mutations as the client asks for them: an entity by its name and input objects. Each one runs in a
transaction of its own, and only a response without errors is committed.
-/
namespace EntityGraph.Mutation

open Database (Transaction)

def start (settings : Settings) : Action Effect Transaction :=
  (Transaction.start (some settings.isolationLevel)).adapt .database

/-- Ends a transaction in which a mutation came to an outcome. A failure to commit or to undo a
failed response is a failure; when the mutation itself failed, it is only reported. -/
def finish (transaction : Transaction) (outcome : Except Failure Response) :
    Action Effect Response :=
  ExceptT.mk do
    match outcome with
    | .ok response =>
      let ending := if response.isOk then Database.Ending.commit else .rollback
      if !response.isOk then
        Program.report (.rollingBack response.errors.length)
      let (ended, _) ← transaction.finish ending
      return (ended.mapError .database).map fun _ => response
    | .error failure =>
      match (← transaction.finish .rollback).1 with
      | .ok _ => return .error failure
      | .error e =>
        Program.report (.rollbackFailed e.message)
        return .error failure

namespace Session

/-- Runs one operation on rows in a transaction of its own. -/
def inTransaction (session : Session) (operation : Action Effect (List Result)) :
    Action Effect Response := do
  let transaction ← start session.settings
  let outcome ← attempt operation
  finish transaction (outcome.map Response.mk)

def entity (session : Session) (name : String) : Except Failure Entity :=
  (session.schema.entity name).mapError .schema

def create (session : Session) (depth : Nat) (entity : String) (data : Json) :
    Action Effect Response := do
  let entity ← liftExcept (session.entity entity)
  let data ← liftExcept ((Data.ofJson session.schema entity data).mapError .input)
  session.inTransaction (session.rows depth (.insert entity data))

def update (session : Session) (depth : Nat) (entity : String) (which data : Json) :
    Action Effect Response := do
  let entity ← liftExcept (session.entity entity)
  let which ← liftExcept ((UniqueWhere.ofJson session.schema entity which).mapError .input)
  let data ← liftExcept ((Data.ofJson session.schema entity data).mapError .input)
  session.inTransaction (session.rows depth (.update entity which data))

def delete (session : Session) (depth : Nat) (entity : String) (which : Json) :
    Action Effect Response := do
  let entity ← liftExcept (session.entity entity)
  let which ← liftExcept ((UniqueWhere.ofJson session.schema entity which).mapError .input)
  session.inTransaction (session.rows depth (.delete entity which))

end Session

end EntityGraph.Mutation
