import EntityGraph.Mutation.Failure
import EntityGraph.Program
/-!
Collecting the outcomes of sibling operations. All of them run, in order. Failures that are results
stay in their places; of the fatal ones the first wins and the others are reported as events.
-/
namespace EntityGraph.Mutation

/-- A program that may fail. -/
abbrev Action (I : Interface) (α : Type) := ExceptT Failure (Program I) α

/-- The outcomes in order, and the fatal failures among them in order. -/
def split {α : Type} :
    List (Except Failure α) → List (Except Result α) × List Failure
  | [] => ([], [])
  | .ok a :: rest => ((.ok a) :: (split rest).1, (split rest).2)
  | .error failure :: rest =>
    match failure.result? with
    | some result => (.error result :: (split rest).1, (split rest).2)
    | none => ((split rest).1, failure :: (split rest).2)

/-- The outcomes if none is fatal, else the first fatal failure; with events for the others. -/
def classify {α : Type} (outcomes : List (Except Failure α)) :
    Except Failure (List (Except Result α)) × List Event :=
  match split outcomes with
  | (kept, []) => (.ok kept, [])
  | (_, first :: later) => (.error first, later.map fun failure => .laterFailure failure.message)

/-- The results of all outcomes, in order. -/
def flatten : List (Except Result (List Result)) → List Result
  | [] => []
  | .ok results :: rest => results ++ flatten rest
  | .error result :: rest => result :: flatten rest

def collect (outcomes : List (Except Failure (List Result))) :
    Except Failure (List Result) × List Event :=
  ((classify outcomes).1.map flatten, (classify outcomes).2)

/-- What an operation hands over: results, lists of results, or possibly nothing. -/
inductive Yield where
  | results (results : List Result)
  | lists (lists : List (List Result))
  | optional (results : Option (List Result))

def Yield.all : Yield → List Result
  | .results own => own
  | .lists own => own.flatten
  | .optional own => own.getD []

variable {I : Interface}

def liftExcept {α : Type} (outcome : Except Failure α) : Action I α := ExceptT.mk (.done outcome)

def note (event : Event) : Action I Unit := ExceptT.lift (Program.report event)

/-- Reports the events and goes on with the outcome. -/
def settle {α : Type} (outcome : Except Failure α × List Event) : Action I α :=
  ExceptT.mk do
    Program.reportAll outcome.2
    return outcome.1

/-- Runs operations one after another and collects their results. -/
def collectAll (operations : List (Action I (List Result))) : Action I (List Result) :=
  ExceptT.mk do
    let outcomes ← Program.sequence (operations.map ExceptT.run)
    settle (collect outcomes)

/-- Runs operations one after another and collects all that they hand over. -/
def gather (operations : List (Action I Yield)) : Action I (List Result) :=
  ExceptT.mk do
    let outcomes ← Program.sequence (operations.map ExceptT.run)
    settle (collect (outcomes.map (Except.map Yield.all)))

end EntityGraph.Mutation
