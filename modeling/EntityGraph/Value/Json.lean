import EntityGraph.Json.Writer
import EntityGraph.Value
/-!
Values as JSON. The plain form loses the kinds of literals, uuids and decimals; the tagged form
keeps every two values apart and writes decimals exactly. Reading takes the plain form.
-/
namespace EntityGraph.Value

/-- How a decimal too large for a double is written in the plain form. -/
inductive Overflow where
  | asNull
  | asText

def plainDecimal (overflow : Overflow) (d : Decimal) : Json :=
  let x := Double.ofDecimal d
  if x.isFinite then .number (.double x)
  else match overflow with
    | .asNull => .null
    | .asText => .string d.text

mutual
/-- The plain form: literals and uuids are strings, decimals are doubles. -/
def toPlainJson (overflow : Overflow) : Value → Json
  | .string text => .string text
  | .boolean flag => .bool flag
  | .int n => .integer n.toInt
  | .uuid id => .string id.text
  | .float d => plainDecimal overflow d
  | .literal word => .string word
  | .list items => .array (allToPlainJson overflow items)
  | .null => .null
termination_by structural value => value

def allToPlainJson (overflow : Overflow) : List Value → List Json
  | [] => []
  | item :: rest => toPlainJson overflow item :: allToPlainJson overflow rest
termination_by structural items => items
end

/-- The plain form in which responses are written. -/
def toJson (value : Value) : Json := value.toPlainJson .asNull

mutual
/-- The tagged form: literals, uuids and decimals stand under the name of their kind. -/
def toTaggedJson : Value → Json
  | .string text => .string text
  | .boolean flag => .bool flag
  | .int n => .integer n.toInt
  | .uuid id => .object [("uuid", .string id.text)]
  | .float d => .object [("float", .string d.normalize.text)]
  | .literal word => .object [("literal", .string word)]
  | .list items => .array (allToTaggedJson items)
  | .null => .null
termination_by structural value => value

def allToTaggedJson : List Value → List Json
  | [] => []
  | item :: rest => toTaggedJson item :: allToTaggedJson rest
termination_by structural items => items
end

/-- An integer where it fits, else the number that its text writes. -/
def ofJsonNumber (number : JsonNumber) : Except ConversionError Value :=
  match number with
  | .integer n => if Number.fitsInt64 n then .ok (.ofInt n) else ofNumber? number.text
  | .double _ => ofNumber? number.text

mutual
/-- Reads the plain form; objects are no values. -/
def ofJson : Json → Except ConversionError Value
  | .null => .ok .null
  | .bool flag => .ok (.boolean flag)
  | .number n => ofJsonNumber n
  | .string text => .ok (.string text)
  | .array items => (allOfJson items).map .list
  | .object _ => .error .jsonObject
termination_by structural json => json

def allOfJson : List Json → Except ConversionError (List Value)
  | [] => .ok []
  | item :: rest => do
    let value ← ofJson item
    let values ← allOfJson rest
    .ok (value :: values)
termination_by structural items => items
end

end EntityGraph.Value
