import EntityGraph.Text.Hex
/-!
Universally unique identifiers: 128 bits, written as 32 lower case hexadecimal digits in five
groups. The order of the numbers is the order of their texts.
-/
namespace EntityGraph

structure Uuid where
  bits : BitVec 128
deriving DecidableEq

namespace Uuid

/-- The lengths of the groups of digits. -/
def groups : List Nat := [8, 4, 4, 4, 12]

/-- Cuts digits into groups joined by hyphens. -/
def hyphenate : List Nat → List Char → List Char
  | [], digits => digits
  | [_], digits => digits
  | length :: rest, digits => digits.take length ++ '-' :: hyphenate rest (digits.drop length)

def text (id : Uuid) : String :=
  String.ofList (hyphenate groups (Text.hexDigits 32 id.bits.toNat))

/-- Reads the written form of an identifier. -/
def ofText? (text : String) : Option Uuid := do
  let digits := text.toList.filter (· ≠ '-')
  let n ← Text.ofHexDigits? digits
  let id : Uuid := ⟨BitVec.ofNat 128 n⟩
  if digits.length = 32 then some id else none

def compare (a b : Uuid) : Ordering := Ord.compare a.bits.toNat b.bits.toNat

example : (ofText? "00000000-0000-0000-0000-0000000000ff").map text =
    some "00000000-0000-0000-0000-0000000000ff" := by decide +kernel

end Uuid

end EntityGraph
