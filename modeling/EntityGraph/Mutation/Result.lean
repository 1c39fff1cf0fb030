import EntityGraph.UniqueWhere.Json
/-!
Results of a mutation. Every write reports a result, and a result carries the path from the root
input to the input that caused it.
-/
namespace EntityGraph.Mutation

inductive PathSegment where
  | field (name : String)
  | index (index : Nat) (label : Option String)
deriving DecidableEq

namespace PathSegment

def text : PathSegment → String
  | field name => name
  | index i none => toString i
  | index i (some label) => s!"{i}({label})"

def toJson : PathSegment → Json
  | field name => .object [("field", .string name)]
  | index i none => .object [("index", .integer i)]
  | index i (some label) => .object [("index", .integer i), ("alias", .string label)]

end PathSegment

abbrev Path := List PathSegment

inductive ConstraintKind where
  | notNull
  | uniqueKey
  | foreignKey
deriving DecidableEq

def ConstraintKind.name : ConstraintKind → String
  | notNull => "notNull"
  | uniqueKey => "uniqueKey"
  | foreignKey => "foreignKey"

def ConstraintKind.message : ConstraintKind → String
  | notNull => "Not null constraint violation"
  | uniqueKey => "Unique constraint violation"
  | foreignKey => "Foreign key constraint violation"

inductive IdleReason where
  | noData
  | emptyRelation
  | alreadyExists
deriving DecidableEq

def IdleReason.name : IdleReason → String
  | noData => "noData"
  | emptyRelation => "emptyRelation"
  | alreadyExists => "alreadyExists"

/-- What became of one write. -/
inductive Outcome where
  | created (entity : String) (primary : Value) (values : Table Value)
  | updated (entity : String) (primary : Value) (values : Table Value)
  | deleted (entity : String) (primary : Value)
  /-- A row of a junction table was written or removed. -/
  | linked (entity relation : String) (owner inversed : Value)
  | notFound (which : UniqueWhere)
  | idle (reason : IdleReason)
  | violation (constraint : ConstraintKind)
  /-- The row does not exist or the access rules denied it. -/
  | denied
  | nonUniqueWhere (message : Option String)

inductive ResultKind where
  | ok
  | nothingToDo
  | notFound
  | constraintViolation
  | noResult
  | input
deriving DecidableEq

def ResultKind.name : ResultKind → String
  | ok => "ok"
  | nothingToDo => "nothingToDo"
  | notFound => "notFoundError"
  | constraintViolation => "constraintViolationError"
  | noResult => "noResultError"
  | input => "inputError"

inductive Modification where
  | create
  | update
  | delete
  | junctionUpdate
deriving DecidableEq

def Modification.name : Modification → String
  | create => "create"
  | update => "update"
  | delete => "delete"
  | junctionUpdate => "junctionUpdate"

namespace Outcome

def kind : Outcome → ResultKind
  | created .. => .ok
  | updated .. => .ok
  | deleted .. => .ok
  | linked .. => .ok
  | notFound _ => .notFound
  | idle _ => .nothingToDo
  | violation _ => .constraintViolation
  | denied => .noResult
  | nonUniqueWhere _ => .input

/-- How a successful write changed the data. -/
def modification? : Outcome → Option Modification
  | created .. => some .create
  | updated .. => some .update
  | deleted .. => some .delete
  | linked .. => some .junctionUpdate
  | _ => none

/-- Says what failed. -/
def message? : Outcome → Option String
  | notFound which => some ("Entity not found or access denied for " ++ which.toJson.text)
  | violation constraint => some constraint.message
  | denied => some "Mutation failed, operation denied by ACL rules"
  | nonUniqueWhere message => some (message.getD "Invalid input")
  | _ => none

def isNotFound : Outcome → Bool
  | notFound _ => true
  | _ => false

end Outcome

structure Result where
  path : Path
  outcome : Outcome

namespace Result

/-- A result at the root of the input. -/
def atRoot (outcome : Outcome) : Result := ⟨[], outcome⟩

def isOk (result : Result) : Bool := result.outcome.kind = .ok

/-- Only what was done and what needed nothing done is no error. -/
def isError (result : Result) : Bool :=
  result.outcome.kind ≠ .ok && result.outcome.kind ≠ .nothingToDo

def under (path : Path) (result : Result) : Result := { result with path := path ++ result.path }

@[simp] theorem under_nil (result : Result) : result.under [] = result := rfl

@[simp] theorem under_under (outer inner : Path) (result : Result) :
    (result.under inner).under outer = result.under (outer ++ inner) := by
  simp [under]

end Result

/-- Puts a path in front of the path of every result. -/
def allUnder (path : Path) (results : List Result) : List Result := results.map (Result.under path)

/-- The key of the row that a create inserted; its result comes first. -/
def createdKey? : List Result → Option Value
  | ⟨_, .created _ primary _⟩ :: _ => some primary
  | _ => none

def updatedKey? : List Result → Option Value
  | ⟨_, .updated _ primary _⟩ :: _ => some primary
  | _ => none

end EntityGraph.Mutation
