import EntityGraph.Proofs.Language.Numbers
import Mathlib.Order.Bounds.Basic
/-!
# The longest number

The scanner takes as much of a text as is a number. A point or the mark of an exponent that could
go on with the number, and has no digits to do so, is left for the next token.
-/
namespace EntityGraph.Language

open Number (signed)

/-! ### A part of a number in front of another text -/

lemma byteLength_eq_length {text : List Char} (h : ∀ c ∈ text, c.toNat < 128) :
    byteLength text = text.length := by
  induction text with
  | nil => rfl
  | cons c rest ih =>
    obtain ⟨hc, hrest⟩ := List.forall_mem_cons.mp h
    have hsize : c.utf8Size = 1 :=
      Char.utf8Size_eq_one_iff.mpr (UInt32.le_iff_toNat_le.mpr (Nat.le_of_lt_succ hc))
    rw [byteLength, hsize, ih hrest, List.length_cons, Nat.add_comm]

lemma Digits.toNat_lt_of_mem (digits : Digits) : ∀ c ∈ digits.chars, c.toNat < 128 := by
  intro c hc
  have hdigit := isDigit_iff.mp (digits.isDigit c hc)
  omega

lemma fractionLength_append (digits : Digits) (rest : List Char) :
    fractionLength (fractionChars (some digits) ++ rest) =
      (fractionChars (some digits)).length + digitCount rest := by
  have hcount := digitCount_append digits.isDigit rest
  have hpos : digits.chars.length ≠ 0 := by simpa using digits.ne_nil
  simp only [fractionChars, List.cons_append, fractionLength, hcount, List.length_cons]
  rw [if_neg (by omega)]
  omega

lemma signLength_append (sign : ExponentSign) (digits : Digits) (rest : List Char) :
    signLength (sign.chars ++ (digits.chars ++ rest)) = sign.chars.length := by
  cases sign with
  | plus => rfl
  | minus => rfl
  | none =>
    obtain ⟨c, tail, hchars⟩ := List.exists_cons_of_ne_nil digits.ne_nil
    have hdigit : c.isDigit := digits.isDigit c (by simp [hchars])
    have hplus : c ≠ '+' := Number.ne_of_isDigit hdigit rfl
    have hminus : c ≠ '-' := Number.ne_of_isDigit hdigit rfl
    simp [ExponentSign.chars, hchars, signLength, hplus, hminus]

lemma Exponent.exponentLength_append (exponent : Exponent) (rest : List Char) :
    exponentLength (exponent.chars ++ rest) = exponent.chars.length + digitCount rest := by
  obtain ⟨capital, sign, digits⟩ := exponent
  have hmark : (if capital then 'E' else 'e') = 'e' ∨ (if capital then 'E' else 'e') = 'E' := by
    cases capital <;> simp
  have hcount := digitCount_append digits.isDigit rest
  have hpos : digits.chars.length ≠ 0 := by simpa using digits.ne_nil
  simp only [Exponent.chars, List.cons_append, List.append_assoc, exponentLength,
    signLength_append, List.drop_left, hcount, List.length_cons, List.length_append]
  rw [if_pos ⟨hmark, by omega⟩]
  omega

lemma Exponent.toNat_lt_of_mem (exponent : Exponent) : ∀ c ∈ exponent.chars, c.toNat < 128 := by
  obtain ⟨capital, sign, digits⟩ := exponent
  have hmark : (if capital then 'E' else 'e').toNat < 128 := by cases capital <;> decide
  have hsign : ∀ c ∈ sign.chars, c.toNat < 128 := by cases sign <;> simp [ExponentSign.chars]
  rw [chars, List.forall_mem_cons, List.forall_mem_append]
  exact ⟨hmark, hsign, digits.toNat_lt_of_mem⟩

/-- Behind a mantissa the scan goes on with digits, and with a fraction where there was none. -/
lemma NumberLiteral.mantissaLength_append (literal : NumberLiteral) (rest : List Char) :
    mantissaLength (literal.mantissa ++ rest) = literal.mantissa.length + (digitCount rest +
      if literal.fraction = none then fractionLength (rest.drop (digitCount rest)) else 0) := by
  obtain ⟨negative, whole, fraction, exponent⟩ := literal
  cases fraction with
  | none =>
    have hwhole := wholeLength_signed negative whole.ne_nil whole.isDigit rest
    have hdrop : (signed negative whole.chars ++ rest).drop
        ((signed negative whole.chars).length + digitCount rest) = rest.drop (digitCount rest) := by
      rw [List.drop_append]
      simp
    simp [mantissaLength, mantissa, fractionChars, hwhole, hdrop, Nat.add_assoc]
  | some digits =>
    have hpoint : digitCount (fractionChars (some digits) ++ rest) = 0 :=
      digitCount_eq_zero (by simp [fractionChars])
    have hwhole := wholeLength_signed negative whole.ne_nil whole.isDigit
      (fractionChars (some digits) ++ rest)
    rw [hpoint, Nat.add_zero] at hwhole
    simp only [mantissaLength, mantissa, List.append_assoc, hwhole, List.drop_left,
      fractionLength_append, List.length_append, reduceCtorEq, if_false]
    omega

/-! ### The longest prefix -/

/-- How long the numbers are that a text begins with. -/
def numberLengths (text : List Char) : Set ℕ :=
  {n | ∃ literal : NumberLiteral, literal.chars.length = n ∧ literal.chars <+: text}

namespace NumberLiteral

variable (literal : NumberLiteral) {rest : List Char}

/-- An exponent goes on with neither the digits nor the fraction in front of it. -/
lemma mantissaLength_exponent (exponent : Exponent) (rest : List Char) :
    mantissaLength (literal.mantissa ++ (exponent.chars ++ rest)) = literal.mantissa.length := by
  obtain ⟨capital, sign, digits⟩ := exponent
  have hcount : digitCount (Exponent.chars ⟨capital, sign, digits⟩ ++ rest) = 0 :=
    digitCount_eq_zero (by cases capital <;> simp [Exponent.chars])
  have hfraction : fractionLength (Exponent.chars ⟨capital, sign, digits⟩ ++ rest) = 0 := by
    cases capital <;> simp [Exponent.chars, fractionLength]
  simp [literal.mantissaLength_append, hcount, hfraction]

/-- The scan goes at least as far as any number that the text begins with. -/
lemma length_le_numberLength (rest : List Char) :
    literal.chars.length ≤ numberLength (literal.chars ++ rest) := by
  rw [chars_eq]
  cases literal.exponent with
  | none =>
    rw [exponentChars, List.append_nil, numberLength_eq, literal.mantissaLength_append]
    omega
  | some exponent =>
    rw [exponentChars, List.append_assoc, numberLength_eq, literal.mantissaLength_exponent,
      List.drop_left, exponent.exponentLength_append, List.length_append]
    omega

/-- A number ends in front of what goes on with none of its parts. -/
lemma drop_numberLength (hexponent : literal.exponent = none) (hdigits : digitCount rest = 0)
    (hfraction : literal.fraction = none → fractionLength rest = 0)
    (hmark : exponentLength rest = 0) :
    (literal.chars ++ rest).drop (numberLength (literal.chars ++ rest)) = rest := by
  have hmantissa : mantissaLength (literal.mantissa ++ rest) = literal.mantissa.length := by
    by_cases hnone : literal.fraction = none
    · simp [literal.mantissaLength_append, hdigits, hfraction hnone]
    · simp [literal.mantissaLength_append, hdigits, hnone]
  rw [chars_eq, hexponent, exponentChars, List.append_nil, numberLength_eq, hmantissa,
    List.drop_left, hmark, Nat.add_zero, List.drop_left]

lemma toNat_lt_of_mem_chars : ∀ c ∈ literal.chars, c.toNat < 128 := by
  obtain ⟨negative, whole, fraction, exponent⟩ := literal
  rw [chars, List.forall_mem_append, List.forall_mem_append]
  refine ⟨?_, ?_, ?_⟩
  · cases negative with
    | true => exact List.forall_mem_cons.mpr ⟨by decide, whole.toNat_lt_of_mem⟩
    | false => exact whole.toNat_lt_of_mem
  · cases fraction with
    | none => exact List.forall_mem_nil _
    | some digits => exact List.forall_mem_cons.mpr ⟨by decide, digits.toNat_lt_of_mem⟩
  · cases exponent with
    | none => exact List.forall_mem_nil _
    | some exponent => exact exponent.toNat_lt_of_mem

end NumberLiteral

/-- No mark of an exponent is taken without its digits. -/
lemma exponentLength_eq_zero {text : List Char}
    (h : ∀ exponent : Exponent, ¬ exponent.chars <+: text) : exponentLength text = 0 := by
  obtain ⟨exponent, htake⟩ := exists_exponent text
  cases exponent with
  | none =>
    rcases List.take_eq_nil_iff.mp htake with hzero | rfl
    · exact hzero
    · rfl
  | some exponent =>
    have hprefix : exponent.chars <+: text := by
      rw [← exponentChars, ← htake]
      exact List.take_prefix _ text
    exact absurd hprefix (h exponent)

/-! ### Numbers in a text -/

/-- The first `n` characters are the longest number that the text begins with, and its first token.
A point without a digit behind it stays, and so does the mark of an exponent without digits. -/
structure TakesNumber (text : List Char) (n : ℕ) : Prop where
  longest : IsGreatest (numberLengths text) n
  within : n ≤ text.length
  byte_each : byteLength (text.take n) = n
  token : pieces text = .token .number (text.take n) :: pieces (text.drop n)
  point_left (literal : NumberLiteral) (rest : List Char) (hwhole : literal.IsWhole)
    (hdigit : ∀ c ∈ rest.head?, ¬ c.isDigit) (htext : text = literal.chars ++ '.' :: rest) :
    text.drop n = '.' :: rest
  mark_left (literal : NumberLiteral) (mark : Char) (rest : List Char)
    (hmark : mark = 'e' ∨ mark = 'E') (hliteral : literal.exponent = none)
    (hexponent : ∀ exponent : Exponent, ¬ exponent.chars <+: mark :: rest)
    (htext : text = literal.chars ++ mark :: rest) : text.drop n = mark :: rest

section

variable {text : List Char}

lemma isGreatest_numberLength (h : BeginsNumber text) :
    IsGreatest (numberLengths text) (numberLength text) := by
  constructor
  · obtain ⟨literal, hliteral⟩ := exists_literal h
    have hprefix : literal.chars <+: text := hliteral ▸ List.take_prefix _ text
    refine ⟨literal, ?_, hprefix⟩
    rw [← hliteral, List.length_take, Nat.min_eq_left (numberLength_le_length text)]
  · rintro n ⟨literal, rfl, rest, rfl⟩
    exact literal.length_le_numberLength rest

lemma pieces_of_beginsNumber (h : BeginsNumber text) :
    pieces text = .token .number (text.take (numberLength text)) ::
      pieces (text.drop (numberLength text)) := by
  cases text with
  | nil => cases h
  | cons c rest =>
    have hread : Text.isBlank c = false ∧
        lexeme? c rest = some (.number, numberLength (c :: rest) - 1) := by
      rcases h with hdigit | ⟨rfl, hrest⟩
      · exact ⟨isBlank_of_isDigit hdigit, lexeme?_of_isDigit hdigit rest⟩
      · exact ⟨by decide, lexeme?_minus hrest⟩
    obtain ⟨extra, hlength⟩ := Nat.exists_eq_add_one.mpr h.numberLength_pos
    rw [pieces, if_neg (by simp [hread.1]), hread.2, hlength]
    simp

/-- The number at the front of a text is taken as far as it goes. -/
theorem takesNumber_numberLength (h : BeginsNumber text) :
    TakesNumber text (numberLength text) := by
  constructor
  case longest => exact isGreatest_numberLength h
  case within => exact numberLength_le_length text
  case byte_each =>
    obtain ⟨literal, hliteral⟩ := exists_literal h
    rw [hliteral, byteLength_eq_length literal.toNat_lt_of_mem_chars, ← hliteral, List.length_take,
      Nat.min_eq_left (numberLength_le_length text)]
  case token => exact pieces_of_beginsNumber h
  case point_left =>
    rintro literal rest ⟨-, hexponent⟩ hdigit rfl
    have hfraction : fractionLength ('.' :: rest) = 0 := if_pos (digitCount_eq_zero hdigit)
    exact literal.drop_numberLength hexponent rfl (fun _ => hfraction) rfl
  case mark_left =>
    rintro literal mark rest hmark hliteral hexponent rfl
    have hdigits : digitCount (mark :: rest) = 0 := by
      rcases hmark with rfl | rfl <;> rfl
    have hfraction : fractionLength (mark :: rest) = 0 := by
      rcases hmark with rfl | rfl <;> rfl
    exact literal.drop_numberLength hliteral hdigits (fun _ => hfraction)
      (exponentLength_eq_zero hexponent)

/-- The mark of an exponent with a sign and no digit stays, and the point is taken. -/
theorem takesNumber_numberLength_marked :
    TakesNumber "-12.5e+x".toList 5 ∧ "-12.5e+x".toList.drop 5 = ['e', '+', 'x'] := by
  have hlength : numberLength "-12.5e+x".toList = 5 := by decide
  exact ⟨hlength ▸ takesNumber_numberLength (.inr ⟨rfl, rfl⟩), by decide⟩

end

end EntityGraph.Language
