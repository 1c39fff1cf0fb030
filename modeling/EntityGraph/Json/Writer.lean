import EntityGraph.Text.Hex
import EntityGraph.Json
/-!
The compact text of a JSON document. Quotes, backslashes and control characters are escaped and
nothing else is; doubles have the fewest digits that read back.
-/
namespace EntityGraph

namespace Double

/-- The exponent of scientific notation, which always has a sign. -/
def exponentText (exponent : Int) : List Char :=
  (if 0 ≤ exponent then ['e', '+'] else ['e', '-']) ++ Nat.toDigits 10 exponent.natAbs

/-- The number `digits * 10 ^ exponent`: positional from 10^-5 to below 10^16, else scientific. -/
def layout (digits : List Char) (exponent : Int) : List Char :=
  let size := (digits.length : Int) + exponent
  if 0 ≤ exponent ∧ size ≤ 16 then digits ++ List.replicate exponent.toNat '0' ++ ['.', '0']
  else if 0 < size ∧ size ≤ 16 then digits.take size.toNat ++ '.' :: digits.drop size.toNat
  else if -5 < size ∧ size ≤ 0 then '0' :: '.' :: List.replicate (-size).toNat '0' ++ digits
  else
    let mantissa := match digits with
      | [d] => [d]
      | d :: rest => d :: '.' :: rest
      | [] => []
    mantissa ++ exponentText (size - 1)

/-- The shortest text of a finite double, always with a point or an exponent. -/
def text (x : Double) : String :=
  let magnitude := x.magnitude
  let unsigned :=
    if magnitude.m = 0 then ['0', '.', '0']
    else
      let (digits, exponent) := magnitude.shortest
      layout (Nat.toDigits 10 digits) exponent
  String.ofList (if x.isNegative then '-' :: unsigned else unsigned)

example : (ofScientific false 5 (-324)).text = "5e-324" := by decide +kernel
example : (ofScientific true 0 0).text = "-0.0" := by decide +kernel
example : (ofScientific false 1 16).text = "1e+16" := by decide +kernel
example : (ofScientific false 1 15).text = "1000000000000000.0" := by decide +kernel
example : (ofScientific false 1 (-5)).text = "0.00001" := by decide +kernel
example : (ofScientific false 123 (-8)).text = "1.23e-6" := by decide +kernel

end Double

/-- JSON has no text for a double that is not finite, so it writes null. -/
def JsonNumber.text : JsonNumber → String
  | .integer n => toString n
  | .double x => if x.isFinite then x.text else "null"

namespace Json

/-- How a character is written inside quotes. -/
def escape (c : Char) : List Char :=
  if c = '"' then ['\\', '"']
  else if c = '\\' then ['\\', '\\']
  else if c.toNat = 8 then ['\\', 'b']
  else if c.toNat = 9 then ['\\', 't']
  else if c.toNat = 10 then ['\\', 'n']
  else if c.toNat = 12 then ['\\', 'f']
  else if c.toNat = 13 then ['\\', 'r']
  else if c.toNat < 32 then '\\' :: 'u' :: Text.hexDigits 4 c.toNat
  else [c]

def quoted (text : String) : List Char := '"' :: (text.toList.flatMap escape ++ ['"'])

mutual
/-- The characters of a document, no blanks between them. -/
def chars : Json → List Char
  | .null => ['n', 'u', 'l', 'l']
  | .bool true => ['t', 'r', 'u', 'e']
  | .bool false => ['f', 'a', 'l', 's', 'e']
  | .number n => n.text.toList
  | .string text => quoted text
  | .array items => '[' :: itemChars items
  | .object members => '\x7b' :: memberChars members
termination_by structural json => json

/-- What follows the opening bracket. -/
def itemChars : List Json → List Char
  | [] => [']']
  | [item] => chars item ++ [']']
  | item :: rest => chars item ++ ',' :: itemChars rest
termination_by structural items => items

/-- What follows the opening brace. -/
def memberChars : List (String × Json) → List Char
  | [] => ['\x7d']
  | [(key, json)] => quoted key ++ ':' :: chars json ++ ['\x7d']
  | (key, json) :: rest => quoted key ++ ':' :: chars json ++ ',' :: memberChars rest
termination_by structural members => members
end

def text (json : Json) : String := String.ofList json.chars

example : text (.object [("a", .array [integer 1, .null]), ("b\n", .string "\"")]) =
    "\x7b\"a\":[1,null],\"b\\n\":\"\\\"\"\x7d" := by decide +kernel

end Json

end EntityGraph
