import EntityGraph.Value
/-!
Errors of the database. What the server reports is classified by its state code; the rest arises
on this side of the connection.
-/
namespace EntityGraph.Database

/-- An error as the server reports it. -/
structure ServerError where
  code : String
  message : String
  severity : String
  detail : Option String
  column : Option String
  constraint : Option String
  table : Option String
deriving DecidableEq

def ServerError.text (e : ServerError) : String :=
  match e.detail with
  | some detail => s!"{e.severity}: {e.message}\nDETAIL: {detail}"
  | none => s!"{e.severity}: {e.message}"

/-- What a violated constraint refers to, as far as it is known. -/
inductive Constraint where
  | fields (names : List String)
  | index (name : String)
  | foreignKey
  | unknown
deriving DecidableEq

def Constraint.text : Constraint → String
  | fields names => "(" ++ ",".intercalate names ++ ")"
  | index name => name
  | foreignKey => "FOREIGN KEY"
  | unknown => ""

inductive Fault where
  | query (e : ServerError)
  | noRecord
  | uniqueViolation (constraint : Constraint)
  | nullViolation (constraint : Constraint)
  | foreignKeyViolation (constraint : Constraint)
  | unknownColumn (name : String)
  | connectionClosed
  | transactionClosed (reason : String)
  | conversion (reason : String)
deriving DecidableEq

def Fault.message : Fault → String
  | query e => s!"Error querying the database: {e.text}"
  | noRecord => "Record not found"
  | uniqueViolation constraint => s!"Unique constraint failed: {constraint.text}"
  | nullViolation constraint => s!"Null constraint failed: {constraint.text}"
  | foreignKeyViolation constraint => s!"Foreign key constraint failed: {constraint.text}"
  | unknownColumn name => s!"Error accessing result set, column not found: {name}"
  | connectionClosed => "Connection closed."
  | transactionClosed reason => s!"Transaction was already closed: {reason}"
  | conversion reason => s!"Error creating a database parameter: {reason}"

/-- A fault, with the code and the message of the server where it reported them. -/
structure Error where
  fault : Fault
  code : Option String
  serverMessage : Option String
deriving DecidableEq

namespace Error

def ofFault (fault : Fault) : Error := ⟨fault, none, none⟩

def ofConversion (e : ConversionError) : Error := ofFault (.conversion e.message)

def message (e : Error) : String := e.fault.message

def isClosed (e : Error) : Bool := e.fault = .connectionClosed

end Error

/-- The characters after the first `Key (`. -/
def afterKey? : List Char → Option (List Char)
  | [] => none
  | 'K' :: 'e' :: 'y' :: ' ' :: '(' :: rest => some rest
  | _ :: rest => afterKey? rest

/-- The characters before the first `)`. -/
def upToClosing? : List Char → Option (List Char)
  | [] => none
  | ')' :: _ => some []
  | c :: rest => (upToClosing? rest).map (c :: ·)

/-- The parts of a list separated by a comma and a space. -/
def listParts : List Char → List (List Char)
  | [] => [[]]
  | ',' :: ' ' :: rest => [] :: listParts rest
  | c :: rest =>
    match listParts rest with
    | [] => [[c]]
    | part :: parts => (c :: part) :: parts

/-- The columns that a detail such as `Key (email, tenant)=(a, 1) already exists.` names. -/
def keyColumns? (detail : String) : Option (List String) := do
  let columns ← upToClosing? (← afterKey? detail.toList)
  some ((listParts columns).map String.ofList)

namespace ServerError

/-- The constraint of a unique violation: its columns where the detail names them, else its name. -/
def uniqueConstraint (e : ServerError) : Constraint :=
  match e.detail.bind keyColumns?, e.constraint with
  | some names, _ => .fields names
  | none, some name => .index name
  | none, none => .unknown

/-- The class of an error, by its state code. -/
def fault (e : ServerError) : Fault :=
  match e.code with
  | "23505" => .uniqueViolation e.uniqueConstraint
  | "23502" => .nullViolation ((e.column.map fun name => .fields [name]).getD .unknown)
  | "23503" => .foreignKeyViolation ((e.constraint.map .index).getD .foreignKey)
  | "40P01" | "40001" | "25P02" => .transactionClosed e.message
  | "57P01" | "08006" | "08003" => .connectionClosed
  | _ => .query e

def classified (e : ServerError) : Error := ⟨e.fault, some e.code, some e.message⟩

end ServerError

end EntityGraph.Database
