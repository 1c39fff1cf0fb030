import EntityGraph.Mutation.Result
/-!
Responses: all results of a mutation, with an error for every result that failed.
-/
namespace EntityGraph.Mutation

inductive ErrorKind where
  | notNullViolation
  | uniqueViolation
  | foreignKeyViolation
  | notFoundOrDenied
  | nonUniqueWhere
deriving DecidableEq

def ErrorKind.name : ErrorKind → String
  | notNullViolation => "NotNullConstraintViolation"
  | uniqueViolation => "UniqueConstraintViolation"
  | foreignKeyViolation => "ForeignKeyConstraintViolation"
  | notFoundOrDenied => "NotFoundOrDenied"
  | nonUniqueWhere => "NonUniqueWhereInput"

def Outcome.errorKind? : Outcome → Option ErrorKind
  | notFound _ => some .notFoundOrDenied
  | denied => some .notFoundOrDenied
  | violation .notNull => some .notNullViolation
  | violation .uniqueKey => some .uniqueViolation
  | violation .foreignKey => some .foreignKeyViolation
  | nonUniqueWhere _ => some .nonUniqueWhere
  | _ => none

structure ResponseError where
  kind : ErrorKind
  message : Option String
  path : Path

structure Response where
  results : List Result

namespace Response

def errorOf? (result : Result) : Option ResponseError :=
  result.outcome.errorKind?.map fun kind => ⟨kind, result.outcome.message?, result.path⟩

def errors (response : Response) : List ResponseError := response.results.filterMap errorOf?

/-- A response is good when no result failed. -/
def isOk (response : Response) : Bool := response.errors.isEmpty

theorem errorOf?_isSome (result : Result) : (errorOf? result).isSome = result.isError := by
  obtain ⟨path, outcome⟩ := result
  cases outcome with
  | violation constraint => cases constraint <;> rfl
  | _ => rfl

end Response

end EntityGraph.Mutation
