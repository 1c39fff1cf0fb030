import EntityGraph.Text.Hex
import EntityGraph.Number.Integer
import EntityGraph.Json
/-!
Reading a JSON document. Objects keep their members in the order written; an integer of at most
64 bits stays an integer, any other number is the nearest double.
-/
namespace EntityGraph.Json

def isSpace (c : Char) : Bool := c == ' ' || c == '\t' || c == '\n' || c == '\r'

def skip (text : List Char) : List Char := text.dropWhile isSpace

/-- Four hexadecimal digits and what follows them. -/
def codeUnit? : List Char → Option (Nat × List Char)
  | a :: b :: c :: d :: rest => (Text.ofHexDigits? [a, b, c, d]).map (·, rest)
  | _ => none

/-- The character behind a backslash and a `u`, which may take a second unit. -/
def unicode? (text : List Char) : Option (Char × List Char) := do
  let (unit, rest) ← codeUnit? text
  if 0xD800 ≤ unit ∧ unit < 0xDC00 then
    match rest with
    | '\\' :: 'u' :: rest =>
      let (low, rest) ← codeUnit? rest
      if 0xDC00 ≤ low ∧ low < 0xE000 then
        some (Char.ofNat (0x10000 + (unit - 0xD800) * 0x400 + (low - 0xDC00)), rest)
      else none
    | _ => none
  else if 0xDC00 ≤ unit ∧ unit < 0xE000 then none
  else some (Char.ofNat unit, rest)

/-- The character that a backslash and this letter stand for. -/
def unescape? : Char → Option Char
  | '"' => some '"'
  | '\\' => some '\\'
  | '/' => some '/'
  | 'b' => some (Char.ofNat 8)
  | 'f' => some (Char.ofNat 12)
  | 'n' => some '\n'
  | 'r' => some '\r'
  | 't' => some '\t'
  | _ => none

/-- The rest of a string up to its closing quote, at most `fuel` characters long. -/
def stringBody? : (fuel : Nat) → List Char → Option (List Char × List Char)
  | 0, _ => none
  | _ + 1, [] => none
  | _ + 1, '"' :: rest => some ([], rest)
  | fuel + 1, '\\' :: 'u' :: rest => do
    let (c, rest) ← unicode? rest
    let (body, rest) ← stringBody? fuel rest
    some (c :: body, rest)
  | fuel + 1, '\\' :: c :: rest => do
    let c ← unescape? c
    let (body, rest) ← stringBody? fuel rest
    some (c :: body, rest)
  | fuel + 1, c :: rest =>
    if c.toNat < 32 then none
    else do
      let (body, rest) ← stringBody? fuel rest
      some (c :: body, rest)

/-- The string behind an opening quote. -/
def string? (text : List Char) : Option (String × List Char) :=
  (stringBody? (text.length + 1) text).map fun (body, rest) => (String.ofList body, rest)

/-- The value of an unsigned number in three parts: whole digits, a fraction, an exponent. -/
def numberOf (negative : Bool) (whole fraction : List Char) (exponent : Option Int) : JsonNumber :=
  let n := Number.ofDigits whole
  if fraction.isEmpty && exponent.isNone && !(negative && n == 0) then
    let signed : Int := if negative then -n else n
    if Number.fitsInt64 signed ∨ Number.fitsUInt64 signed then .integer signed
    else .double (.ofScientific negative n 0)
  else
    .double (.ofScientific negative (Number.ofDigits (whole ++ fraction))
      (exponent.getD 0 - fraction.length))

/-- A fraction behind its point; without a point there is none. -/
def fraction? : List Char → Option (List Char × List Char)
  | '.' :: rest =>
    let digits := rest.takeWhile Char.isDigit
    if digits.isEmpty then none else some (digits, rest.dropWhile Char.isDigit)
  | text => some ([], text)

/-- An exponent behind its mark; without a mark there is none. -/
def exponent? (text : List Char) : Option (Option Int × List Char) :=
  match text with
  | [] => some (none, [])
  | c :: rest =>
    if c = 'e' ∨ c = 'E' then
      let (negative, rest) := match rest with
        | '-' :: rest => (true, rest)
        | '+' :: rest => (false, rest)
        | rest => (false, rest)
      let digits := rest.takeWhile Char.isDigit
      if digits.isEmpty then none
      else
        let n : Int := Number.ofDigits digits
        some (some (if negative then -n else n), rest.dropWhile Char.isDigit)
    else some (none, text)

/-- A number at the start of the text; its whole part has no needless zero in front. -/
def number? (text : List Char) : Option (JsonNumber × List Char) := do
  let (negative, rest) := match text with
    | '-' :: rest => (true, rest)
    | rest => (false, rest)
  let whole := rest.takeWhile Char.isDigit
  if whole.isEmpty || (whole.length > 1 && whole.head? == some '0') then none
  else do
    let (fraction, rest) ← fraction? (rest.dropWhile Char.isDigit)
    let (exponent, rest) ← exponent? rest
    some (numberOf negative whole fraction exponent, rest)

mutual
/-- A value at the start of the text, blanks before it skipped. -/
def value? : (fuel : Nat) → List Char → Option (Json × List Char)
  | 0, _ => none
  | fuel + 1, text =>
    match skip text with
    | 'n' :: 'u' :: 'l' :: 'l' :: rest => some (.null, rest)
    | 't' :: 'r' :: 'u' :: 'e' :: rest => some (.bool true, rest)
    | 'f' :: 'a' :: 'l' :: 's' :: 'e' :: rest => some (.bool false, rest)
    | '"' :: rest => (string? rest).map fun (text, rest) => (.string text, rest)
    | '[' :: rest =>
      match skip rest with
      | ']' :: rest => some (.array [], rest)
      | rest => (items? fuel rest).map fun (items, rest) => (.array items, rest)
    | '\x7b' :: rest =>
      match skip rest with
      | '\x7d' :: rest => some (.object [], rest)
      | rest => (members? fuel rest).map fun (members, rest) => (.object members, rest)
    | rest => (number? rest).map fun (n, rest) => (.number n, rest)

/-- Items up to the closing bracket, at least one. -/
def items? : (fuel : Nat) → List Char → Option (List Json × List Char)
  | 0, _ => none
  | fuel + 1, text => do
    let (item, rest) ← value? fuel text
    match skip rest with
    | ',' :: rest => (items? fuel rest).map fun (items, rest) => (item :: items, rest)
    | ']' :: rest => some ([item], rest)
    | _ => none

/-- Members up to the closing brace, at least one. -/
def members? : (fuel : Nat) → List Char → Option (List (String × Json) × List Char)
  | 0, _ => none
  | fuel + 1, text => do
    match skip text with
    | '"' :: rest =>
      let (key, rest) ← string? rest
      match skip rest with
      | ':' :: rest =>
        let (json, rest) ← value? fuel rest
        match skip rest with
        | ',' :: rest =>
          (members? fuel rest).map fun (members, rest) => ((key, json) :: members, rest)
        | '\x7d' :: rest => some ([(key, json)], rest)
        | _ => none
      | _ => none
    | _ => none
end

/-- The document that the whole text writes. Every value, item and member takes a character, so
twice the length bounds the depth of the calls. -/
def ofText (text : String) : Option Json :=
  match value? (2 * text.length + 2) text.toList with
  | some (json, rest) => if (skip rest).isEmpty then some json else none
  | none => none

end EntityGraph.Json
