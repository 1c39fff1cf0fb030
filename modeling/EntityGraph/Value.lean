import EntityGraph.Number.Decimal
import EntityGraph.Number.Double
import EntityGraph.Uuid
/-!
Values: the scalars and lists that flow through filters, inputs and statements. A number literal
becomes an integer when it fits 64 signed bits and an exact decimal otherwise.
-/
namespace EntityGraph

inductive Value where
  | string (text : String)
  | boolean (flag : Bool)
  | int (number : Int64)
  | uuid (id : Uuid)
  | float (number : Decimal)
  /-- A bare word passed through as it is, such as an enum member. -/
  | literal (word : String)
  | list (items : List Value)
  | null

/-- A value that cannot be read as something else. -/
structure ConversionError where
  source : String
  target : String
deriving DecidableEq

namespace ConversionError

def message (e : ConversionError) : String := s!"Unable to convert {e.source} to {e.target}."

def numberLiteral : ConversionError := ⟨"number literal", "ContentValue::Float"⟩

def double : ConversionError := ⟨"f64", "Decimal"⟩

def jsonObject : ConversionError := ⟨"JSON object", "ContentValue"⟩

def integer : ConversionError := ⟨"ContentValue", "i64"⟩

def text : ConversionError := ⟨"ContentValue", "String"⟩

end ConversionError

namespace Value

def ofInt (n : Int) : Value := .int (Int64.ofInt n)

def isNull : Value → Bool
  | .null => true
  | _ => false

def isNumber : Value → Bool
  | .int _ => true
  | .float _ => true
  | _ => false

def asString? : Value → Option String
  | .string text => some text
  | _ => none

def asLiteral? : Value → Option String
  | .literal word => some word
  | _ => none

def asInt? : Value → Option Int64
  | .int n => some n
  | _ => none

def asBoolean? : Value → Option Bool
  | .boolean flag => some flag
  | _ => none

def asList? : Value → Option (List Value)
  | .list items => some items
  | _ => none

/-- The text of a string or of a literal. -/
def asWord? : Value → Option String
  | .string text => some text
  | .literal word => some word
  | _ => none

def toInt64 (value : Value) : Except ConversionError Int64 :=
  match value.asInt? with
  | some n => .ok n
  | none => .error .integer

def toText (value : Value) : Except ConversionError String :=
  match value.asString? with
  | some text => .ok text
  | none => .error .text

/-- The name of the kind of a value, as messages give it. -/
def kindName : Value → String
  | .string _ => "string"
  | .boolean _ => "boolean"
  | .int _ => "int"
  | .uuid _ => "uuid"
  | .float _ => "float"
  | .literal _ => "literal"
  | .list _ => "list"
  | .null => "null"

/-- An integer of 64 signed bits, else a decimal. -/
def ofNumber? (image : String) : Except ConversionError Value :=
  match Number.int64? image.toList with
  | some n => .ok (.ofInt n)
  | none =>
    match Decimal.ofText? image with
    | some d => .ok (.float d)
    | none => .error .numberLiteral

/-- A finite double at sixteen significant digits. -/
def ofDouble? (x : Double) : Except ConversionError Value :=
  match x.toDecimal? with
  | some d => .ok (.float d)
  | none => .error .double

mutual
/-- The text of a value: strings in single quotes, lists in brackets. -/
def display : Value → String
  | .string text => "'" ++ text ++ "'"
  | .boolean flag => if flag then "true" else "false"
  | .int n => toString n.toInt
  | .uuid id => id.text
  | .float d => d.text
  | .literal word => word
  | .list items => "[" ++ ", ".intercalate (displayAll items) ++ "]"
  | .null => "null"
termination_by structural value => value

def displayAll : List Value → List String
  | [] => []
  | item :: rest => display item :: displayAll rest
termination_by structural items => items
end

end Value

end EntityGraph
