import EntityGraph.Number.Decimal
/-!
Binary floating point numbers of 64 bits, told apart by their bits. A finite one is `m * 2 ^ q`;
all choices of decimal digits are made on these integers, exactly.
-/
namespace EntityGraph

structure Double where
  bits : UInt64
deriving DecidableEq

namespace Double

def ofFloat (x : Float) : Double := ⟨x.toBits⟩

def toFloat (x : Double) : Float := Float.ofBits x.bits

def isNegative (x : Double) : Bool := x.bits >>> 63 == 1

def exponentBits (x : Double) : Nat := ((x.bits >>> 52) &&& 0x7FF).toNat

def fractionBits (x : Double) : Nat := (x.bits &&& 0xFFFFFFFFFFFFF).toNat

def isFinite (x : Double) : Bool := x.exponentBits != 0x7FF

/-- The magnitude `m * 2 ^ q` of a finite number. -/
structure Magnitude where
  m : Nat
  q : Int
  /-- The number below is half as far away as the number above. -/
  narrowBelow : Bool

def magnitude (x : Double) : Magnitude :=
  if x.exponentBits = 0 then ⟨x.fractionBits, -1074, false⟩
  else ⟨Nat.pow 2 52 + x.fractionBits, (x.exponentBits : Int) - 1075,
    x.fractionBits = 0 && 1 < x.exponentBits⟩

/-- The order of `a * 10 ^ i` and `n * 2 ^ j`. -/
def compareScaled (a : Nat) (i : Int) (n : Nat) (j : Int) : Ordering :=
  compare (a * Nat.pow 10 i.toNat * Nat.pow 2 (-j).toNat)
    (n * Nat.pow 2 j.toNat * Nat.pow 10 (-i).toNat)

namespace Magnitude

/-- Whether `digits * 10 ^ exponent` lies among the numbers that round to this one. -/
def readsBack (x : Magnitude) (digits : Nat) (exponent : Int) : Bool :=
  let low := if x.narrowBelow then 4 * x.m - 1 else 4 * x.m - 2
  let fromLow := compareScaled digits exponent low (x.q - 2)
  let fromHigh := compareScaled digits exponent (4 * x.m + 2) (x.q - 2)
  let closed := x.m % 2 == 0
  (fromLow == .gt || (closed && fromLow == .eq)) && (fromHigh == .lt || (closed && fromHigh == .eq))

/-- The least `k` with `m * 2 ^ q < 10 ^ k`, for `m` other than zero. -/
def decimalSize (x : Magnitude) : Int :=
  let estimate := ((x.m.log2 : Int) + x.q) * 30103 / 100000
  let candidates := [estimate - 1, estimate, estimate + 1, estimate + 2]
  (candidates.find? fun k => compareScaled 1 k x.m x.q == .gt).getD (estimate + 3)

/-- Numerator and denominator of the number in units of `10 ^ exponent`. -/
def inUnits (x : Magnitude) (exponent : Int) : Nat × Nat :=
  (x.m * Nat.pow 2 x.q.toNat * Nat.pow 10 (-exponent).toNat,
    Nat.pow 2 (-x.q).toNat * Nat.pow 10 exponent.toNat)

/-- The nearest multiple of `10 ^ exponent`, in that unit; a half goes to the even one. -/
def roundToUnit (x : Magnitude) (exponent : Int) : Nat :=
  let (num, den) := x.inUnits exponent
  let below := num / den
  match compare (2 * (num % den)) den with
  | .lt => below
  | .gt => below + 1
  | .eq => if below % 2 = 0 then below else below + 1

/-- The neighbour of the number on the grid of `10 ^ exponent` that reads back, the nearer of two. -/
def onGrid? (x : Magnitude) (exponent : Int) : Option Nat :=
  let (num, den) := x.inUnits exponent
  let below := num / den
  match x.readsBack below exponent, x.readsBack (below + 1) exponent with
  | true, true => some (x.roundToUnit exponent)
  | true, false => some below
  | false, true => some (below + 1)
  | false, false => none

/-- The fewest digits that read back, as digits and a power of ten. Seventeen always suffice. -/
def shortest (x : Magnitude) : Nat × Int :=
  let size := x.decimalSize
  let grids := (List.range 17).map fun n => size - (n + 1 : Nat)
  match grids.findSome? fun e => (x.onGrid? e).map (·, e) with
  | some (digits, exponent) =>
    let stripped := Decimal.stripZeros digits
    (stripped.1, exponent + stripped.2)
  | none => (x.roundToUnit (size - 17), size - 17)

end Magnitude

/-- Sixteen significant digits of a finite number, as a decimal. -/
def toDecimal? (x : Double) : Option Decimal :=
  if !x.isFinite then none
  else
    let magnitude := x.magnitude
    let sign : Int := if x.isNegative then -1 else 1
    if magnitude.m = 0 then some ⟨0, 15⟩
    else
      let unit := magnitude.decimalSize - 16
      let digits := magnitude.roundToUnit unit
      if digits = Nat.pow 10 16 then some ⟨sign * Nat.pow 10 15, -(unit + 1)⟩
      else some ⟨sign * digits, -unit⟩

/-- The number nearest to `digits * 10 ^ exponent`, a half going to the even one. -/
def ofScientific (negative : Bool) (digits : Nat) (exponent : Int) : Double :=
  let x :=
    if digits = 0 ∨ exponent + (Nat.log2 digits : Int) < -1200 then 0.0
    else if 400 < exponent then 1.0 / 0.0
    else Float.ofScientific digits (exponent < 0) exponent.natAbs
  ofFloat (if negative then -x else x)

/-- `acc * base ^ n` by repeated squaring, the partial products rounded. -/
def timesPower (acc base : Float) (n : Nat) : Float :=
  let acc := if n % 2 = 1 then acc * base else acc
  if n / 2 = 0 then acc else timesPower acc (base * base) (n / 2)
termination_by n
decreasing_by omega

/-- Ten to an integer power; a negative power is the inverse of the positive one. -/
def powerOfTen (exponent : Int) : Float :=
  let power := timesPower 1.0 10.0 exponent.natAbs
  if exponent < 0 then 1.0 / power else power

/-- The product of the rounded unscaled part and the rounded power of ten, rounded once more. -/
def ofDecimal (d : Decimal) : Double :=
  let unscaled := Float.ofScientific d.unscaled.natAbs false 0
  ofFloat ((if d.unscaled < 0 then -unscaled else unscaled) * powerOfTen (-d.scale))

example : ofDecimal ⟨3, 1⟩ ≠ ofScientific false 3 (-1) := by decide +kernel
example : (ofScientific false 3 (-1)).magnitude.shortest = (3, -1) := by decide +kernel
example : (toDecimal? (ofScientific false 100 0)).map Decimal.text = some "100.0000000000000" := by
  decide +kernel

end Double

end EntityGraph
