import EntityGraph.Mutation.Collect
/-!
Values of the row being written. A deferred value depends on other writes and is known only after
they ran; resolving keeps every value in the place of its field.
-/
namespace EntityGraph.Mutation

/-- What a deferred value turned out to be. -/
structure Resolved (I : Interface) where
  /-- Without a value the column is left out of the statement. -/
  value : Option Value
  results : List Result
  /-- Runs after the statement of the row. -/
  after : Option (Action I (List Result))

namespace Resolved

variable {I : Interface}

def ofValue (value : Value) : Resolved I := ⟨some value, [], none⟩

/-- No value, with the results of the attempt. -/
def skip (results : List Result) : Resolved I := ⟨none, results, none⟩

end Resolved

inductive FieldValue (I : Interface) where
  | value (value : Value)
  | deferred (resolve : Action I (Resolved I))

abbrev FieldValues (I : Interface) := List (String × FieldValue I)

/-- The values of a row, with the results so far and what is left to run. -/
structure RowValues (I : Interface) where
  values : Table Value
  results : List Result
  after : List (Action I (List Result))

namespace FieldValues

variable {I : Interface}

def names (values : FieldValues I) : List String := values.map Prod.fst

def deferred : FieldValues I → List (Action I (Resolved I))
  | [] => []
  | (_, .value _) :: rest => deferred rest
  | (_, .deferred resolve) :: rest => resolve :: deferred rest

/-- The value of every field, given the outcomes of the deferred ones in order. -/
def slots : FieldValues I → List (Except Result (Resolved I)) → List (String × Option Value)
  | [], _ => []
  | (field, .value value) :: rest, outcomes => (field, some value) :: slots rest outcomes
  | (field, .deferred _) :: rest, .ok resolved :: outcomes =>
    (field, resolved.value) :: slots rest outcomes
  | (field, .deferred _) :: rest, .error _ :: outcomes => (field, none) :: slots rest outcomes
  | (field, .deferred _) :: rest, [] => (field, none) :: slots rest []

/-- The fields that have a value, each once. -/
def present (slots : List (String × Option Value)) : Table Value :=
  .ofPairs (slots.filterMap fun (field, value) => value.map (field, ·))

def resultsOf : Except Result (Resolved I) → List Result
  | .ok resolved => resolved.results
  | .error result => [result]

def afterOf? : Except Result (Resolved I) → Option (Action I (List Result))
  | .ok resolved => resolved.after
  | .error _ => none

/-- Runs every deferred value in order. One that fails with a result is left out. -/
def resolve (values : FieldValues I) : Action I (RowValues I) :=
  ExceptT.mk do
    let outcomes ← Program.sequence (values.deferred.map ExceptT.run)
    (do
      let resolved ← settle (classify outcomes)
      return ⟨present (slots values resolved), resolved.flatMap resultsOf,
        resolved.filterMap afterOf?⟩ : Action I (RowValues I))

end FieldValues

/-- Runs what was left for after the statement, and returns every result. -/
def RowValues.finish {I : Interface} (row : RowValues I) : Action I (List Result) := do
  let results ← collectAll row.after
  return row.results ++ results

end EntityGraph.Mutation
