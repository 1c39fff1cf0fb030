import EntityGraph.Data
import EntityGraph.Database.Error
import EntityGraph.InputError
import EntityGraph.Mutation.Result
import EntityGraph.UniqueWhere.Key
/-!
Failures of a mutation. Some are results that the client can act on; every other one is fatal and
ends the mutation.
-/
namespace EntityGraph.Mutation

/-- Where an operation that a relation does not offer was asked for. -/
inductive InputPlace where
  | creating
  | toOne
  | toMany
deriving DecidableEq

def InputPlace.text : InputPlace → String
  | creating => "when creating a row"
  | toOne => "as a has-one input"
  | toMany => "as a has-many input"

inductive Failure where
  | database (e : Database.Error)
  | schema (e : SchemaError)
  | input (e : InputError)
  | nonUniqueWhere (e : NonUniqueWhere)
  /-- The row does not exist or the access rules denied it. -/
  | denied
  | unsupported (entity relation : String) (kind : RelationKind) (operation : RelationOperation)
      (place : InputPlace)
  | configuration (message : String)
deriving DecidableEq

namespace Failure

def message : Failure → String
  | database e => s!"Error in connector: {e.message}"
  | schema e => s!"Error in domain logic: {e.message}"
  | input e => e.message
  | nonUniqueWhere e => e.message
  | denied => "The row does not exist or the operation was denied"
  | unsupported entity relation kind operation place =>
    s!"Operation `{operation.name}` is not supported on {kind.name} relation " ++
      s!"`{entity}.{relation}` {place.text}"
  | configuration message => message

/-- Whether the same mutation may succeed on a new connection. -/
def isTransient : Failure → Bool
  | database e => e.isClosed
  | _ => false

/-- The outcome that reports the failure, if it is no fatal one. -/
def outcome? : Failure → Option Outcome
  | database e =>
    match e.fault with
    | .uniqueViolation _ => some (.violation .uniqueKey)
    | .nullViolation _ => some (.violation .notNull)
    | .foreignKeyViolation _ => some (.violation .foreignKey)
    | _ => none
  | denied => some .denied
  | nonUniqueWhere e => some (.nonUniqueWhere (some e.message))
  | _ => none

def result? (failure : Failure) : Option Result := failure.outcome?.map .atRoot

/-- A failure as the only result, or as itself where it is fatal. -/
def classified (failure : Failure) : Except Failure (List Result) :=
  match failure.result? with
  | some result => .ok [result]
  | none => .error failure

end Failure

end EntityGraph.Mutation
