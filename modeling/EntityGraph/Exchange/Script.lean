import EntityGraph.Exchange.Data
import EntityGraph.Exchange.Mutation
import EntityGraph.Exchange.Sql
import EntityGraph.Script.Database
import EntityGraph.Script.Rows
/-!
Scripts and their records in exchange documents.
-/
namespace EntityGraph.Exchange

open Script (Answer Asked Response RowQueues Rule Sent SentKind)

def resultSet (json : Json) : Reading Database.ResultSet := do
  return ⟨← required "columns" json asTexts, ← required "rows" json (listOf valueList), none⟩

/-- The only answer among the members of a response. -/
def scriptAnswer (json : Json) : Reading Answer :=
  match given? "ids" json, given? "rows" json, given? "affected" json, given? "fail" json with
  | some ids, _, _, _ => do
    return .rows ⟨["id"], (← valueList ids).map fun id => [id], none⟩
  | none, some set, _, _ => .rows <$> resultSet set
  | none, none, some n, _ => .affected <$> asNat n
  | none, none, none, some e => .fail <$> serverError e
  | none, none, none, none => .error "a response without an answer"

def response (json : Json) : Reading Response := do
  return ⟨← text "prefix" json, flag "repeat" json, ← scriptAnswer json⟩

def accessOperation? : String → Option AccessOperation
  | "read" => some .read
  | "create" => some .create
  | "update" => some .update
  | "delete" => some .delete
  | _ => none

def accessRule (json : Json) : Reading Rule := do
  return ⟨← text "entity" json, ← required "operation" json (word accessOperation?),
    ← required "filter" json filter⟩

def sentKind : SentKind → String
  | .query => "query"
  | .execute => "execute"
  | .command => "cmd"

def ofSent (sent : Sent) : Json :=
  .object [("kind", .string (sentKind sent.kind)), ("sql", .string sent.statement.text),
    ("params", ofValues sent.statement.params)]

def ofAsked (asked : Asked) : Json :=
  .array [.string asked.entity, .string asked.operation.name, .strings asked.fields]

/-- The queues of a script; an operation without one has an empty queue. -/
def rowQueues (json : Json) : Reading RowQueues := do
  let writes (key : String) := orElse key json [] (listOf (attempted results))
  let lookup : Json → Reading (Option Value)
    | .null => .ok none
    | json => some <$> value json
  let reads (key : String) := orElse key json [] (listOf (attempted lookup))
  return ⟨← writes "insert", ← writes "update", ← writes "delete", ← reads "selectField",
    ← reads "primaryValue", ← writes "connect", ← writes "disconnect"⟩

/-- An operation by its name and its arguments. -/
def ofRowRequest (request : Mutation.RowRequest) : Json :=
  let call (name : String) (arguments : List Json) : Json := .array [.string name, .array arguments]
  match request with
  | .insert entity data => call "insert" [.string entity.name, ofData data]
  | .update entity which data =>
    call "update" [.string entity.name, ofUnique which, ofData data]
  | .delete entity which => call "delete" [.string entity.name, ofUnique which]
  | .selectField entity which field =>
    call "selectField" [.string entity.name, ofUnique which, .string field]
  | .primaryValue entity which => call "primaryValue" [.string entity.name, ofUnique which]
  | .connect owner relation ownerKey inversedKey =>
    call "connect" [.string owner.name, .string relation.name, ofValue ownerKey,
      ofValue inversedKey]
  | .disconnect owner relation ownerKey inversedKey =>
    call "disconnect" [.string owner.name, .string relation.name, ofValue ownerKey,
      ofValue inversedKey]

end EntityGraph.Exchange
