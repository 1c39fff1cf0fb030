import EntityGraph.Table
import EntityGraph.Number.Double
/-!
JSON documents whose objects keep the order of their members, and whose numbers are integers or
doubles, never both.
-/
namespace EntityGraph

/-- A JSON number. An integer that fits neither 64 signed nor 64 unsigned bits is read as a double. -/
inductive JsonNumber where
  | integer (n : Int)
  | double (x : Double)
deriving DecidableEq

inductive Json where
  | null
  | bool (flag : Bool)
  | number (number : JsonNumber)
  | string (text : String)
  | array (items : List Json)
  | object (members : List (String × Json))

namespace Json

def integer (n : Int) : Json := .number (.integer n)

def strings (texts : List String) : Json := .array (texts.map .string)

/-- The text, or null where there is none. -/
def ofText? : Option String → Json
  | some text => .string text
  | none => .null

def asBool? : Json → Option Bool
  | .bool flag => some flag
  | _ => none

def asText? : Json → Option String
  | .string text => some text
  | _ => none

def asArray? : Json → Option (List Json)
  | .array items => some items
  | _ => none

def asObject? : Json → Option (Table Json)
  | .object members => some members
  | _ => none

/-- The member of an object under `key`; other values have none. -/
def member? (key : String) : Json → Option Json
  | .object members => Table.find? key members
  | _ => none

/-- A record written as a list of its members in their order, with the members' names put back. -/
def asRecord (names : List String) : Json → Json
  | .array items =>
    if items.length ≤ names.length then .object (names.zip items) else .array items
  | json => json

/-! ### The canonical form: every object has its members in ascending order of keys -/

mutual
def canonical : Json → Json
  | .array items => .array (canonicalItems items)
  | .object members => .object (canonicalMembers members)
  | json => json
termination_by structural json => json

def canonicalItems : List Json → List Json
  | [] => []
  | item :: rest => canonical item :: canonicalItems rest
termination_by structural items => items

/-- Of several members with one key the first stays. -/
def canonicalMembers : List (String × Json) → Table Json
  | [] => []
  | (key, json) :: rest => Table.insert key (canonical json) (canonicalMembers rest)
termination_by structural members => members
end

end Json

end EntityGraph
