import EntityGraph.Number.Integer
/-!
Decimal numbers of any size. A decimal keeps the scale it was written with, so 1.50 and 1.5 are
two decimals; `equal` and `compare` look at the number only and `normalize` picks one decimal for
each number.
-/
namespace EntityGraph

/-- The number `unscaled * 10 ^ (-scale)`. -/
structure Decimal where
  unscaled : Int
  scale : Int
deriving DecidableEq

namespace Decimal

def zero : Decimal := ⟨0, 0⟩

/-- The unscaled parts of two decimals at the larger of their scales. -/
def align (a b : Decimal) : Int × Int :=
  let scale := max a.scale b.scale
  (a.unscaled * Nat.pow 10 (scale - a.scale).toNat, b.unscaled * Nat.pow 10 (scale - b.scale).toNat)

/-- Whether both stand for the same number. -/
def equal (a b : Decimal) : Bool :=
  if a.unscaled = 0 ∨ b.unscaled = 0 then a.unscaled = b.unscaled
  else (align a b).1 = (align a b).2

/-- The order of the numbers. Different signs decide without aligning. -/
def compare (a b : Decimal) : Ordering :=
  if a.unscaled = 0 ∨ b.unscaled = 0 ∨ a.unscaled.sign ≠ b.unscaled.sign then
    Ord.compare a.unscaled.sign b.unscaled.sign
  else Ord.compare (align a b).1 (align a b).2

/-- A positive number without its trailing decimal zeros, and how many there were. -/
def stripZeros (n : Nat) : Nat × Nat :=
  if n ≠ 0 ∧ n % 10 = 0 then
    let stripped := stripZeros (n / 10)
    (stripped.1, stripped.2 + 1)
  else (n, 0)
termination_by n
decreasing_by omega

/-- The decimal of the same number whose digits do not end in zero; zero has scale zero. -/
def normalize (d : Decimal) : Decimal :=
  if d.unscaled = 0 then zero
  else
    let stripped := stripZeros d.unscaled.natAbs
    ⟨d.unscaled.sign * stripped.1, d.scale - stripped.2⟩

/-- The digits of the unscaled part, positional, without an exponent. -/
def text (d : Decimal) : String :=
  let digits := Nat.toDigits 10 d.unscaled.natAbs
  let magnitude :=
    if (digits.length : Int) ≤ d.scale then
      '0' :: '.' :: (List.replicate (d.scale - digits.length).toNat '0' ++ digits)
    else if d.scale ≤ 0 then digits ++ List.replicate (-d.scale).toNat '0'
    else
      let whole := digits.length - d.scale.toNat
      digits.take whole ++ '.' :: digits.drop whole
  String.ofList (if d.unscaled < 0 then '-' :: magnitude else magnitude)

example : text ⟨150, 2⟩ = "1.50" ∧ text ⟨-5, 3⟩ = "-0.005" ∧ text ⟨12, -2⟩ = "1200" := by
  decide +kernel
example : text ⟨0, 5⟩ = "0.00000" ∧ text ⟨0, -3⟩ = "0000" := by decide +kernel

/-!
### Reading

A mantissa with at most one point, then optionally `e` or `E` and an exponent of 64 signed bits. The
mantissa may hold underscores after its first digit, and every character behind its point counts for
the scale.
-/

def isExponentMark (c : Char) : Bool := c == 'e' || c == 'E'

/-- Digits and underscores, a digit or nothing but a digit first. -/
def digitRun? (text : List Char) : Option Nat :=
  if text.isEmpty || text.head? == some '_' then none
  else if text.all fun c => c.isDigit || c == '_' then
    some (Number.ofDigits (text.filter Char.isDigit))
  else none

/-- One sign before the digits. A minus may not be followed by a plus, nor a plus by another. -/
def mantissa? : List Char → Option Int
  | '-' :: '+' :: _ => none
  | '-' :: rest => (digitRun? rest).map fun n => -(Int.ofNat n)
  | '+' :: rest => (digitRun? rest).map Int.ofNat
  | text => (digitRun? text).map Int.ofNat

/-- The exponent behind its mark. One plus is dropped before a signed integer is read. -/
def exponent? : List Char → Option Int
  | '+' :: rest => Number.int64? rest
  | text => Number.int64? text

/-- The decimal written by a mantissa and an exponent. -/
def ofParts? (base : List Char) (exponent : Int) : Option Decimal :=
  if base.isEmpty then none
  else
    let whole := base.takeWhile (· ≠ '.')
    let behind := (base.dropWhile (· ≠ '.')).drop 1
    (mantissa? (whole ++ behind)).map fun n => ⟨n, (behind.length : Int) - exponent⟩

def ofChars? (text : List Char) : Option Decimal :=
  let base := text.takeWhile fun c => !isExponentMark c
  match text.dropWhile fun c => !isExponentMark c with
  | [] => ofParts? base 0
  | _ :: exponent => (exponent? exponent).bind (ofParts? base)

def ofText? (text : String) : Option Decimal := ofChars? text.toList

example : ofText? "-12.50" = some ⟨-1250, 2⟩ := by decide +kernel
example : ofText? ".5" = some ⟨5, 1⟩ ∧ ofText? "1." = some ⟨1, 0⟩ := by decide +kernel
example : ofText? "1_000e+3" = some ⟨1000, -3⟩ ∧ ofText? "e5" = none := by decide +kernel

end Decimal

end EntityGraph
