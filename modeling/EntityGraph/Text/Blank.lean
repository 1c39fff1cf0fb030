/-!
White space: the 25 characters with the property White_Space of Unicode 15, and the text without
those at its ends.
-/
namespace EntityGraph.Text

/-- Closed ranges of code points, ascending and apart. -/
def blankRanges : List (Nat × Nat) :=
  [(0x09, 0x0D), (0x20, 0x20), (0x85, 0x85), (0xA0, 0xA0), (0x1680, 0x1680), (0x2000, 0x200A),
   (0x2028, 0x2029), (0x202F, 0x202F), (0x205F, 0x205F), (0x3000, 0x3000)]

def isBlank (c : Char) : Bool :=
  blankRanges.any fun range => range.1 ≤ c.toNat && c.toNat ≤ range.2

/-- The text between its first and its last character that is not blank. -/
def strip (text : List Char) : List Char :=
  ((text.dropWhile isBlank).reverse.dropWhile isBlank).reverse

example : isBlank ' ' = true ∧ isBlank '\u2003' = true ∧ isBlank '\u200b' = false := by decide
example : strip [' ', 'o', ' ', 'n', '\n'] = ['o', ' ', 'n'] := by decide

end EntityGraph.Text
