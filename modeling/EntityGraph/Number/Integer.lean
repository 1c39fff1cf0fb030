/-!
Decimal integers as text. A signed integer is an optional sign and at least one digit; a 64 bit
one also lies in the range of the type.
-/
namespace EntityGraph.Number

/-- The number that a list of decimal digits writes. -/
def ofDigits (digits : List Char) : Nat :=
  digits.foldl (fun n c => n * 10 + (c.toNat - 48)) 0

/-- Digits only, and at least one. -/
def natural? (text : List Char) : Option Nat :=
  if text.isEmpty || !text.all Char.isDigit then none else some (ofDigits text)

/-- Digits behind at most one sign. -/
def integer? : List Char → Option Int
  | '+' :: rest => (natural? rest).map Int.ofNat
  | '-' :: rest => (natural? rest).map fun n => -(Int.ofNat n)
  | text => (natural? text).map Int.ofNat

def fitsInt64 (n : Int) : Bool := -9223372036854775808 ≤ n && n ≤ 9223372036854775807

def fitsUInt64 (n : Int) : Bool := 0 ≤ n && n ≤ 18446744073709551615

/-- An integer that fits 64 signed bits. -/
def int64? (text : List Char) : Option Int := (integer? text).filter fitsInt64

example : int64? ['-', '0', '7'] = some (-7) := by decide
example : int64? ['+', '-', '7'] = none := by decide
example : int64? "9223372036854775808".toList = none := by decide +kernel

end EntityGraph.Number
