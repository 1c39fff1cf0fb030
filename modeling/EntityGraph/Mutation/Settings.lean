import EntityGraph.Database.Transaction
import EntityGraph.Mutation.Failure
import EntityGraph.Text.Blank
/-!
Settings of mutations, read from named variables or from JSON; what is not given has a default.
-/
namespace EntityGraph.Mutation

open Database (IsolationLevel)

structure Settings where
  isolationLevel : IsolationLevel
  /-- Whether foreign keys are checked only after a deletion has visited every relation. -/
  deferConstraints : Bool
  logQueries : Bool
deriving DecidableEq

namespace Settings

def standard : Settings := ⟨.standard, true, false⟩

def isolationVariable : String := "CONTENT_ISOLATION_LEVEL"

def deferVariable : String := "CONTENT_DEFER_CONSTRAINTS"

def logVariable : String := "CONTENT_LOG_QUERIES"

/-- The level in a variable. -/
def levelOf (name text : String) : Except Failure IsolationLevel :=
  (IsolationLevel.ofText? text).mapError fun e => .configuration s!"{name}: {e.message}"

/-- The flag in a variable; blanks around it and its case do not matter. -/
def flagOf (name text : String) : Except Failure Bool :=
  let word := String.ofList ((Text.strip text.toList).map Char.toLower)
  if ["1", "true", "yes", "on"].contains word then .ok true
  else if ["0", "false", "no", "off"].contains word then .ok false
  else .error (.configuration s!"{name}: expected a boolean, got `{word}`")

/-- A setting, read from its variable if that is set. -/
def fromVariable {α : Type} (lookup : String → Option String) (name : String) (default : α)
    (read : String → String → Except Failure α) : Except Failure α :=
  match lookup name with
  | some text => read name text
  | none => .ok default

def ofVariables (lookup : String → Option String) : Except Failure Settings := do
  let level ← fromVariable lookup isolationVariable standard.isolationLevel levelOf
  let defers ← fromVariable lookup deferVariable standard.deferConstraints flagOf
  let logs ← fromVariable lookup logVariable standard.logQueries flagOf
  .ok ⟨level, defers, logs⟩

def toJson (settings : Settings) : Json :=
  .object [("isolationLevel", .string settings.isolationLevel.text),
    ("deferConstraints", .bool settings.deferConstraints),
    ("logQueries", .bool settings.logQueries)]

/-- A member, or the default where it is missing. -/
def memberOr {α : Type} (members : Table Json) (key : String) (default : α)
    (read : Json → Option α) : Option α :=
  match members.find? key with
  | some json => read json
  | none => some default

def levelOfJson? (json : Json) : Option IsolationLevel := do
  (IsolationLevel.ofText? (← json.asText?)).toOption

def ofJson? (json : Json) : Option Settings := do
  let record := json.asRecord ["isolationLevel", "deferConstraints", "logQueries"]
  let members ← record.asObject?
  let level ← memberOr members "isolationLevel" standard.isolationLevel levelOfJson?
  let defers ← memberOr members "deferConstraints" standard.deferConstraints Json.asBool?
  let logs ← memberOr members "logQueries" standard.logQueries Json.asBool?
  some ⟨level, defers, logs⟩

end Settings

end EntityGraph.Mutation
