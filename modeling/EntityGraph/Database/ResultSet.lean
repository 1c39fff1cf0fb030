import EntityGraph.Database.Error
/-!
Rows that the database answers with, under the names of their columns.
-/
namespace EntityGraph.Database

structure ResultSet where
  columns : List String
  rows : List (List Value)
  /-- The count of affected rows, where it is reported apart from the rows. -/
  affected : Option Nat

/-- The value of a row in the first column of the given name. -/
def namedValue? (name : String) : List String → List Value → Option Value
  | column :: columns, value :: values =>
    if column = name then some value else namedValue? name columns values
  | _, _ => none

namespace ResultSet

def size (set : ResultSet) : Nat := set.rows.length

def isEmpty (set : ResultSet) : Bool := set.rows.isEmpty

def affectedRows (set : ResultSet) : Nat := set.affected.getD set.size

def row? (set : ResultSet) (index : Nat) : Option (List Value) := set.rows[index]?

def valueAt? (set : ResultSet) (row column : Nat) : Option Value := do
  (← set.row? row)[column]?

def valueNamed? (set : ResultSet) (row : Nat) (name : String) : Option Value := do
  namedValue? name set.columns (← set.row? row)

/-- The values of one column; rows too short to have one are passed over. -/
def columnValues (set : ResultSet) (name : String) : Except Error (List Value) :=
  if set.columns.contains name then
    .ok (set.rows.filterMap (namedValue? name set.columns))
  else .error (.ofFault (.unknownColumn name))

/-- The first row. -/
def single (set : ResultSet) : Except Error (List Value) :=
  match set.rows with
  | row :: _ => .ok row
  | [] => .error (.ofFault .noRecord)

end ResultSet

/-- The value of the only column of a row. -/
def singleValue : List Value → Except Error Value
  | value :: _ => .ok value
  | [] => .error (.ofFault .noRecord)

end EntityGraph.Database
