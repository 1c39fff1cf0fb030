import EntityGraph.Effect
/-!
Transactions: begun on a connection, and ended once, by a commit or by a rollback. Their isolation
levels are written in capitals and read in any case.
-/
namespace EntityGraph.Database

inductive IsolationLevel where
  | readUncommitted
  | readCommitted
  | repeatableRead
  | serializable
deriving DecidableEq

namespace IsolationLevel

def text : IsolationLevel → String
  | readUncommitted => "READ UNCOMMITTED"
  | readCommitted => "READ COMMITTED"
  | repeatableRead => "REPEATABLE READ"
  | serializable => "SERIALIZABLE"

/-- The level of transactions for which none is chosen. -/
def standard : IsolationLevel := repeatableRead

/-- The space inside a level may be left out. -/
def ofText? (text : String) : Except Error IsolationLevel :=
  match String.ofList (text.toList.map Char.toLower) with
  | "read uncommitted" | "readuncommitted" => .ok readUncommitted
  | "read committed" | "readcommitted" => .ok readCommitted
  | "repeatable read" | "repeatableread" => .ok repeatableRead
  | "serializable" => .ok serializable
  | _ => .error (.ofFault (.conversion s!"Invalid isolation level `{text}`"))

end IsolationLevel

structure Transaction where
  isClosed : Bool
deriving DecidableEq

inductive Ending where
  | commit
  | rollback
deriving DecidableEq

def Ending.text : Ending → String
  | commit => "COMMIT"
  | rollback => "ROLLBACK"

namespace Transaction

def setIsolation (level : IsolationLevel) : ExceptT Error (Program Effect) Unit :=
  Effect.command s!"SET TRANSACTION ISOLATION LEVEL {level.text}"

/-- The level is set right after the beginning. -/
def start (level : Option IsolationLevel) : ExceptT Error (Program Effect) Transaction := do
  Effect.command "BEGIN"
  match level with
  | some chosen => setIsolation chosen
  | none => pure ()
  return ⟨false⟩

/-- A transaction is closed even when the database refuses its ending. -/
def finish (ending : Ending) (transaction : Transaction) :
    Program Effect (Except Error Unit × Transaction) :=
  if transaction.isClosed then
    .done (.error (.ofFault (.transactionClosed s!"Cannot {ending.text} a finished transaction.")),
      transaction)
  else do
    let outcome ← (Effect.command ending.text).run
    .done (outcome, ⟨true⟩)

end Transaction

end EntityGraph.Database
