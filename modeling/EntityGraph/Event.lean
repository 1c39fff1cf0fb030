/-!
What programs report while they run.
-/
namespace EntityGraph

inductive Severity where
  | debug
  | error
deriving DecidableEq

def Severity.text : Severity → String
  | debug => "DEBUG"
  | error => "ERROR"

inductive Event where
  /-- A statement is about to be sent. -/
  | executing (statement : String)
  /-- A mutation with failed results is undone. -/
  | rollingBack (errors : Nat)
  | rollbackFailed (error : String)
  /-- An operation failed fatally after another one already had. -/
  | laterFailure (error : String)
  | removingOrphan (entity relation : String)
  | clearedReferences (entity relation : String) (rows : Nat)
deriving DecidableEq

namespace Event

def severity : Event → Severity
  | rollbackFailed _ => .error
  | laterFailure _ => .error
  | _ => .debug

def message : Event → String
  | executing _ => "executing SQL"
  | rollingBack _ => "rolling back a failed mutation"
  | rollbackFailed _ => "Rollback after a fatal mutation error failed"
  | laterFailure _ => "Unclassified error in a concurrent mutation"
  | removingOrphan .. => "removing orphaned row"
  | clearedReferences .. => "cleared references of deleted rows"

/-- What is reported beside the message. -/
def details : Event → List (String × String)
  | executing statement => [("query", statement)]
  | rollingBack errors => [("errors", toString errors)]
  | rollbackFailed error => [("error", error)]
  | laterFailure error => [("error", error)]
  | removingOrphan entity relation => [("entity", entity), ("relation", relation)]
  | clearedReferences entity relation rows =>
    [("entity", entity), ("relation", relation), ("updated", toString rows)]

end Event

end EntityGraph
