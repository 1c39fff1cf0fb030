import EntityGraph.Effect
import EntityGraph.Sql.Statement
/-!
A scripted database. It answers a statement by the first response for the beginning of its text,
applies the first access rule for an entity, and records all that it was asked.
-/
namespace EntityGraph.Script

inductive Answer where
  | rows (set : Database.ResultSet)
  | affected (rows : Nat)
  | fail (e : Database.ServerError)

structure Response where
  start : String
  /-- Whether the response stays after it was used. -/
  repeats : Bool
  answer : Answer

structure Rule where
  entity : String
  operation : AccessOperation
  filter : Filter

inductive SentKind where
  | query
  | execute
  | command
deriving DecidableEq

structure Sent where
  kind : SentKind
  statement : Sql.Statement

/-- A question to the access rules. -/
structure Asked where
  entity : String
  operation : AccessOperation
  fields : List String

structure World where
  responses : List Response
  rules : List Rule
  sent : List Sent
  asked : List Asked
  events : List Event
  /-- The number of the next fresh identifier. -/
  fresh : Nat

/-- The first response for a statement, and the responses that are left. -/
def takeResponse (text : List Char) : List Response → Option Answer × List Response
  | [] => (none, [])
  | response :: rest =>
    if response.start.toList.isPrefixOf text then
      (some response.answer, if response.repeats then response :: rest else rest)
    else ((takeResponse text rest).1, response :: (takeResponse text rest).2)

namespace World

def empty : World := ⟨[], [], [], [], [], 0⟩

/-- Records a statement and finds the answer to it. -/
def send (kind : SentKind) (statement : Sql.Statement) (world : World) : Option Answer × World :=
  let (answer, responses) := takeResponse statement.text.toList world.responses
  (answer, { world with responses, sent := world.sent ++ [⟨kind, statement⟩] })

/-- Forgets what was recorded. -/
def unrecorded (world : World) : World := { world with sent := [], asked := [], events := [] }

end World

def asRows : Option Answer → Except Database.Error Database.ResultSet
  | some (.rows set) => .ok set
  | some (.fail e) => .error e.classified
  | _ => .ok ⟨["id"], [], none⟩

def asCount : Option Answer → Except Database.Error Nat
  | some (.rows set) => .ok set.size
  | some (.affected n) => .ok n
  | some (.fail e) => .error e.classified
  | none => .ok 1

def asDone : Option Answer → Except Database.Error Unit
  | some (.fail e) => .error e.classified
  | _ => .ok ()

/-- The numbers from which fresh identifiers are counted. -/
def freshBase : Nat := 0xa5e1c0de000040008000000000000000

def freshUuid (n : Nat) : Uuid := ⟨BitVec.ofNat 128 (freshBase + n)⟩

def filterFor (rules : List Rule) (entity : String) (operation : AccessOperation) : Filter :=
  match rules.find? fun rule => rule.entity = entity && rule.operation = operation with
  | some rule => rule.filter
  | none => .empty

/-- The answer to a request and the world after it. A program that nests too deeply has none. -/
def answer : (request : EffectRequest) → World → Option (request.Reply × World)
  | .query q, world =>
    let (found, world) := world.send .query q.statement
    some (asRows found, world)
  | .execute q, world =>
    let (found, world) := world.send .execute q.statement
    some (asCount found, world)
  | .command text, world =>
    let (found, world) := world.send .command ⟨text, []⟩
    some (asDone found, world)
  | .predicate entity operation fields, world =>
    some (filterFor world.rules entity.name operation,
      { world with asked := world.asked ++ [⟨entity.name, operation, fields⟩] })
  | .freshUuid, world => some (freshUuid world.fresh, { world with fresh := world.fresh + 1 })
  | .overrun, _ => none

def record (event : Event) (world : World) : Option (Unit × World) :=
  some ((), { world with events := world.events ++ [event] })

/-- Runs a program in a scripted world. -/
def run {α : Type} (program : Program Effect α) : StateT World Option α :=
  let answers : (request : Effect.Request) → StateT World Option (Effect.Reply request) := answer
  program.run answers record

end EntityGraph.Script
