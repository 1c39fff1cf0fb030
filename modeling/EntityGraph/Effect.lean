import EntityGraph.Database.ResultSet
import EntityGraph.Filter
import EntityGraph.Program
import EntityGraph.Schema
import EntityGraph.Sql.Query
/-!
What programs ask of their surroundings: statements run by the database, filters from the access
rules, and fresh identifiers. An access rule answers for an operation with the filter that a row has
to satisfy.
-/
namespace EntityGraph

inductive AccessOperation where
  | read
  | create
  | update
  | delete
deriving DecidableEq

def AccessOperation.name : AccessOperation → String
  | read => "read"
  | create => "create"
  | update => "update"
  | delete => "delete"

inductive EffectRequest where
  /-- Runs a query and returns its rows. -/
  | query (query : Sql.Query)
  /-- Runs a query and returns how many rows it touched. -/
  | execute (query : Sql.Query)
  | command (text : String)
  /-- The filter for an operation on some fields of the rows of an entity. -/
  | predicate (entity : Entity) (operation : AccessOperation) (fields : List String)
  | freshUuid
  /-- The program nests deeper than its bound; there is no answer. -/
  | overrun

def EffectRequest.Reply : EffectRequest → Type
  | query _ => Except Database.Error Database.ResultSet
  | execute _ => Except Database.Error Nat
  | command _ => Except Database.Error Unit
  | predicate .. => Filter
  | freshUuid => Uuid
  | overrun => Empty

def Effect : Interface := ⟨EffectRequest, EffectRequest.Reply⟩

namespace Effect

def query (query : Sql.Query) : ExceptT Database.Error (Program Effect) Database.ResultSet :=
  Program.ask (.query query) Program.done

def execute (query : Sql.Query) : ExceptT Database.Error (Program Effect) Nat :=
  Program.ask (.execute query) Program.done

def command (text : String) : ExceptT Database.Error (Program Effect) Unit :=
  Program.ask (.command text) Program.done

def predicate (entity : Entity) (operation : AccessOperation) (fields : List String) :
    Program Effect Filter :=
  .ask (.predicate entity operation fields) .done

def freshUuid : Program Effect Uuid := .ask .freshUuid .done

def overrun {α : Type} : Program Effect α := .ask .overrun Empty.elim

end Effect

end EntityGraph
