import EntityGraph.Proofs.Language.Spelling
/-!
# Numbers

The token of a number is a minus or none, digits, and then a fraction and an exponent where they
are written. An integer of 64 bits is read from one without either, and else a decimal of the same
number, unless the exponent does not fit 64 bits.
-/
namespace EntityGraph.Language

open Number (ofDigits signed signedValue signed_append fitsInt64)

/-! ### Literals -/

/-- Decimal digits, at least one of them. -/
structure Digits where
  chars : List Char
  ne_nil : chars ≠ []
  isDigit : ∀ c ∈ chars, c.isDigit

inductive ExponentSign where
  | none
  | plus
  | minus

namespace ExponentSign

def chars : ExponentSign → List Char
  | none => []
  | plus => ['+']
  | minus => ['-']

def isMinus : ExponentSign → Bool
  | minus => true
  | _ => false

end ExponentSign

structure Exponent where
  capital : Bool
  sign : ExponentSign
  digits : Digits

namespace Exponent

def chars (exponent : Exponent) : List Char :=
  (if exponent.capital then 'E' else 'e') :: (exponent.sign.chars ++ exponent.digits.chars)

/-- The power of ten that an exponent stands for. -/
def power (exponent : Exponent) : Int :=
  signedValue exponent.sign.isMinus (ofDigits exponent.digits.chars)

end Exponent

/-- The parts of a number. -/
structure NumberLiteral where
  negative : Bool
  whole : Digits
  fraction : Option Digits
  exponent : Option Exponent

def fractionChars : Option Digits → List Char
  | none => []
  | some digits => '.' :: digits.chars

def exponentChars : Option Exponent → List Char
  | none => []
  | some exponent => exponent.chars

namespace NumberLiteral

variable (literal : NumberLiteral)

def chars : List Char :=
  signed literal.negative literal.whole.chars ++
    (fractionChars literal.fraction ++ exponentChars literal.exponent)

/-- The digits behind the point. -/
def places : List Char := literal.fraction.elim [] Digits.chars

/-- The exponent, which is zero where none is written. -/
def power : Int := literal.exponent.elim 0 Exponent.power

/-- The number that the digits make without the point. -/
def unscaled : Int :=
  signedValue literal.negative (ofDigits (literal.whole.chars ++ literal.places))

/-- The number that is written. -/
def value : ℚ := literal.unscaled * (10 : ℚ) ^ (literal.power - literal.places.length)

/-- Whether the literal is digits only, behind their sign. -/
def IsWhole : Prop := literal.fraction = none ∧ literal.exponent = none

end NumberLiteral

/-! ### The scanner takes literals -/

lemma exists_digits {text : List Char} (h : digitCount text ≠ 0) :
    ∃ digits : Digits, text.take (digitCount text) = digits.chars := by
  have htake : text.take (digitCount text) = text.takeWhile Char.isDigit :=
    (List.prefix_iff_eq_take.mp (List.takeWhile_prefix _)).symm
  have hne : text.takeWhile Char.isDigit ≠ [] := fun hnil => h (by rw [digitCount, hnil]; rfl)
  exact ⟨⟨_, hne, fun c hc => List.mem_takeWhile_imp hc⟩, htake⟩

lemma exists_fraction (text : List Char) :
    ∃ fraction, text.take (fractionLength text) = fractionChars fraction := by
  unfold fractionLength
  split
  · rename_i rest
    split
    · exact ⟨none, rfl⟩
    · rename_i hcount
      obtain ⟨digits, hdigits⟩ := exists_digits hcount
      exact ⟨some digits, by rw [List.take_succ_cons, hdigits, fractionChars]⟩
  · exact ⟨none, rfl⟩

lemma exists_sign (text : List Char) :
    ∃ sign : ExponentSign, text.take (signLength text) = sign.chars := by
  unfold signLength
  split
  · exact ⟨.plus, rfl⟩
  · exact ⟨.minus, rfl⟩
  · exact ⟨.none, rfl⟩

lemma exists_exponent (text : List Char) :
    ∃ exponent, text.take (exponentLength text) = exponentChars exponent := by
  cases text with
  | nil => exact ⟨none, rfl⟩
  | cons c rest =>
    rw [exponentLength]
    split
    · rename_i h
      obtain ⟨hmark, hcount⟩ := h
      obtain ⟨sign, hsign⟩ := exists_sign rest
      obtain ⟨digits, hdigits⟩ := exists_digits hcount
      have hbehind : rest.take (digitCount (rest.drop (signLength rest)) + signLength rest) =
          sign.chars ++ digits.chars := by
        rw [Nat.add_comm, List.take_add, hsign, hdigits]
      refine ⟨some ⟨c = 'E', sign, digits⟩, ?_⟩
      rw [List.take_succ_cons, hbehind]
      rcases hmark with rfl | rfl <;> rfl
    · exact ⟨none, rfl⟩

/-- What a number begins with: a digit, or a minus in front of one. -/
def BeginsNumber : List Char → Prop
  | [] => False
  | c :: rest => c.isDigit ∨ c = '-' ∧ rest.head?.any Char.isDigit

lemma digitCount_ne_zero {text : List Char} (h : text.head?.any Char.isDigit) :
    digitCount text ≠ 0 := by
  cases text with
  | nil => cases h
  | cons c rest =>
    have hc : c.isDigit := h
    simp [digitCount, hc]

lemma exists_whole {text : List Char} (h : BeginsNumber text) :
    ∃ (negative : Bool) (digits : Digits),
      text.take (wholeLength text) = signed negative digits.chars := by
  cases text with
  | nil => cases h
  | cons c rest =>
    rcases h with hdigit | ⟨rfl, hrest⟩
    · have hminus : c ≠ '-' := Number.ne_of_isDigit hdigit rfl
      have hhead : (c :: rest).head?.any Char.isDigit := hdigit
      obtain ⟨digits, hdigits⟩ := exists_digits (digitCount_ne_zero hhead)
      exact ⟨false, digits, by simpa [wholeLength, hminus, signed] using hdigits⟩
    · obtain ⟨digits, hdigits⟩ := exists_digits (digitCount_ne_zero hrest)
      exact ⟨true, digits, by simpa [wholeLength, Nat.add_comm 1, signed] using hdigits⟩

/-- The scanner takes a literal, which may be followed by anything. -/
lemma exists_literal {text : List Char} (h : BeginsNumber text) :
    ∃ literal : NumberLiteral, text.take (numberLength text) = literal.chars := by
  obtain ⟨negative, whole, hwhole⟩ := exists_whole h
  obtain ⟨fraction, hfraction⟩ := exists_fraction (text.drop (wholeLength text))
  obtain ⟨exponent, hexponent⟩ := exists_exponent (text.drop (mantissaLength text))
  refine ⟨⟨negative, whole, fraction, exponent⟩, ?_⟩
  rw [numberLength_eq, List.take_add, hexponent, mantissaLength, List.take_add, hwhole, hfraction,
    List.append_assoc]
  rfl

lemma BeginsNumber.numberLength_pos {text : List Char} (h : BeginsNumber text) :
    0 < numberLength text := by
  cases text with
  | nil => cases h
  | cons c rest =>
    rcases h with hdigit | ⟨rfl, hrest⟩
    · exact Language.numberLength_pos hdigit rest
    · exact Nat.zero_lt_of_lt (one_lt_numberLength_minus hrest)

lemma lexeme?_eq_number {c : Char} {rest : List Char} {extra : ℕ}
    (h : lexeme? c rest = some (.number, extra)) :
    BeginsNumber (c :: rest) ∧ extra + 1 = numberLength (c :: rest) := by
  have hpoint : goesOn .number '.' ≠ isWordChar '.' := by decide
  obtain ⟨-, hkind, -⟩ | ⟨hbegins, -, rfl⟩ | ⟨-, hkind, -⟩ := lexeme?_cases h rfl
  · cases hkind
  · have hnumber : BeginsNumber (c :: rest) := hbegins
    exact ⟨hnumber, Nat.sub_add_cancel hnumber.numberLength_pos⟩
  · exact absurd hkind (wordKind_ne hpoint _)

/-- The token of a number is a literal. -/
theorem exists_literal_of_mem_tokenize {text : List Char} {token : Token}
    (h : token ∈ (tokenize text).tokens) (hkind : token.kind = .number) :
    ∃ literal : NumberLiteral, literal.chars = token.image := by
  obtain ⟨kind, image, start⟩ := token
  obtain rfl : kind = .number := hkind
  obtain ⟨-, hread⟩ : IsLexeme (.number, image) := isLexeme_of_mem_tokenize h
  rename_i c tail
  obtain ⟨hbegins, hlength⟩ := lexeme?_eq_number (hread [] (ends_nil _))
  rw [List.append_nil] at hbegins hlength
  obtain ⟨literal, hliteral⟩ := exists_literal hbegins
  refine ⟨literal, ?_⟩
  rw [← hliteral, ← hlength]
  exact (List.take_length : (c :: tail).take (c :: tail).length = c :: tail)

/-! ### Literals are read -/

lemma natural?_eq_none {text : List Char} (h : ∃ c ∈ text, ¬ c.isDigit) :
    Number.natural? text = none := by
  obtain ⟨c, hmem, hdigit⟩ := h
  rw [Number.natural?, if_pos]
  simpa using .inr ⟨c, hmem, by simpa using hdigit⟩

/-- No sign stands inside an integer, and no other mark anywhere. -/
lemma integer?_append_eq_none {text : List Char} (hne : text ≠ []) {c : Char}
    (hdigit : ¬ c.isDigit) (rest : List Char) : Number.integer? (text ++ c :: rest) = none := by
  obtain ⟨first, others, rfl⟩ := List.exists_cons_of_ne_nil hne
  rw [List.cons_append]
  have hothers : Number.natural? (others ++ c :: rest) = none :=
    natural?_eq_none ⟨c, by simp, hdigit⟩
  have hall : Number.natural? (first :: (others ++ c :: rest)) = none :=
    natural?_eq_none ⟨c, by simp, hdigit⟩
  unfold Number.integer?
  split <;> simp_all

namespace Exponent

/-- The exponent is read without its mark. -/
lemma exponent?_chars (exponent : Exponent) :
    Decimal.exponent? (exponent.sign.chars ++ exponent.digits.chars) =
      (some exponent.power).filter fitsInt64 := by
  obtain ⟨capital, sign, ⟨digits, hne, hdigits⟩⟩ := exponent
  have hread (negative : Bool) : Number.int64? (signed negative digits) =
      (some (signedValue negative (ofDigits digits))).filter fitsInt64 := by
    rw [Number.int64?, integer?_signed negative hne hdigits]
  cases sign with
  | none =>
    obtain ⟨c, rest, rfl⟩ := List.exists_cons_of_ne_nil hne
    have hplus : c ≠ '+' := Number.ne_of_isDigit (hdigits c List.mem_cons_self) rfl
    have hself : Decimal.exponent? (c :: rest) = Number.int64? (c :: rest) :=
      Decimal.exponent?.eq_2 _ fun _ heq => hplus (List.cons.inj heq).1
    exact hself.trans (hread false)
  | plus => exact hread false
  | minus => exact hread true

end Exponent

namespace NumberLiteral

variable (literal : NumberLiteral)

/-- The decimal of a literal has its digits behind the point for the scale, and the exponent moves
the point. -/
def decimal : Decimal := ⟨literal.unscaled, literal.places.length - literal.power⟩

lemma toRat_decimal : literal.decimal.toRat = literal.value := by
  rw [decimal, Decimal.toRat, value, neg_sub]

lemma int64?_of_isWhole (h : literal.IsWhole) :
    Number.int64? literal.chars = (some literal.unscaled).filter fitsInt64 := by
  obtain ⟨negative, whole, fraction, exponent⟩ := literal
  obtain ⟨rfl, rfl⟩ := h
  have hread := integer?_signed negative whole.ne_nil whole.isDigit
  simp [Number.int64?, chars, fractionChars, exponentChars, hread, unscaled, places]

/-- A point or the mark of an exponent is not read in an integer. -/
lemma int64?_of_not_isWhole (h : ¬ literal.IsWhole) : Number.int64? literal.chars = none := by
  obtain ⟨negative, whole, fraction, exponent⟩ := literal
  have hne : signed negative whole.chars ≠ [] := by
    cases negative with
    | true => exact List.cons_ne_nil _ _
    | false => exact whole.ne_nil
  obtain ⟨c, rest, hdigit, hbehind⟩ : ∃ c rest, ¬ c.isDigit ∧
      fractionChars fraction ++ exponentChars exponent = c :: rest := by
    cases fraction with
    | some digits => exact ⟨'.', _, by decide, rfl⟩
    | none =>
      cases exponent with
      | none => exact absurd ⟨rfl, rfl⟩ h
      | some exponent =>
        refine ⟨if exponent.capital then 'E' else 'e', _, ?_, rfl⟩
        split <;> decide
  have hread := integer?_append_eq_none hne hdigit rest
  simp [Number.int64?, chars, hbehind, hread]

/-- What stands in front of the exponent. -/
def mantissa : List Char :=
  signed literal.negative literal.whole.chars ++ fractionChars literal.fraction

lemma chars_eq : literal.chars = literal.mantissa ++ exponentChars literal.exponent := by
  rw [chars, mantissa, List.append_assoc]

lemma not_isExponentMark_of_mem_mantissa :
    ∀ c ∈ literal.mantissa, !Decimal.isExponentMark c := by
  obtain ⟨negative, whole, fraction, exponent⟩ := literal
  cases fraction with
  | none =>
    rw [mantissa, fractionChars, List.append_nil]
    exact fun c hmem => (Decimal.inside_of_mem_signed whole.isDigit hmem).2
  | some digits => exact Decimal.not_isExponentMark_of_mem whole.isDigit digits.isDigit

lemma ofParts?_mantissa (exponent : Int) : Decimal.ofParts? literal.mantissa exponent =
    some ⟨literal.unscaled, literal.places.length - exponent⟩ := by
  obtain ⟨negative, whole, fraction, -⟩ := literal
  cases fraction with
  | none =>
    simp [mantissa, fractionChars, unscaled, places,
      Decimal.ofParts?_whole negative whole.ne_nil whole.isDigit]
  | some digits =>
    exact Decimal.ofParts?_pointed negative whole.ne_nil whole.isDigit digits.isDigit exponent

/-- Only an exponent that does not fit keeps a literal from being read as a decimal. -/
lemma ofChars?_chars : Decimal.ofChars? literal.chars =
    if fitsInt64 literal.power then some literal.decimal else none := by
  have hmarks := literal.not_isExponentMark_of_mem_mantissa
  have hparts := literal.ofParts?_mantissa
  rw [chars_eq, Decimal.ofChars?, List.takeWhile_append_of_pos hmarks,
    List.dropWhile_append_of_pos hmarks]
  cases hexponent : literal.exponent with
  | none => simp [exponentChars, hparts, power, hexponent, decimal, fitsInt64]
  | some exponent =>
    have hmark : Decimal.isExponentMark (if exponent.capital then 'E' else 'e') := by
      split <;> rfl
    have hpower : literal.power = exponent.power := by rw [power, hexponent, Option.elim_some]
    simp only [exponentChars, Exponent.chars, List.takeWhile_cons, List.dropWhile_cons, hmark,
      Bool.not_true, Bool.false_eq_true, if_false, List.append_nil, exponent.exponent?_chars,
      hpower, Option.filter_some]
    by_cases hfits : fitsInt64 exponent.power
    · simp [hfits, hparts, decimal, hpower]
    · simp [hfits]

/-- An integer of 64 bits is read first. -/
lemma ofNumber?_of_isWhole (h : literal.IsWhole) (hfits : fitsInt64 literal.unscaled) :
    Value.ofNumber? (String.ofList literal.chars) = .ok (.ofInt literal.unscaled) := by
  rw [Value.ofNumber?, String.toList_ofList, literal.int64?_of_isWhole h, Option.filter_some,
    if_pos hfits]

lemma ofNumber?_of_not_isWhole (h : ¬ (literal.IsWhole ∧ fitsInt64 literal.unscaled)) :
    Value.ofNumber? (String.ofList literal.chars) =
      if fitsInt64 literal.power then .ok (.float literal.decimal)
      else .error .numberLiteral := by
  have hinteger : Number.int64? literal.chars = none := by
    by_cases hwhole : literal.IsWhole
    · have hfits : ¬ fitsInt64 literal.unscaled := fun hfits => h ⟨hwhole, hfits⟩
      rw [literal.int64?_of_isWhole hwhole, Option.filter_some, if_neg hfits]
    · exact literal.int64?_of_not_isWhole hwhole
  rw [Value.ofNumber?, String.toList_ofList, hinteger, Decimal.ofText?, String.toList_ofList,
    ofChars?_chars]
  by_cases hpower : fitsInt64 literal.power <;> simp [hpower]

/-- Digits only, so no exponent that might not fit. -/
lemma IsWhole.fitsInt64_power {literal : NumberLiteral} (h : literal.IsWhole) :
    fitsInt64 literal.power := by
  rw [power, h.2]
  rfl

end NumberLiteral

lemma ofInt_eq_iff {value : Int} (h : fitsInt64 value) (n : Int64) :
    Int64.ofInt value = n ↔ value = n.toInt := by
  have hrange : -9223372036854775808 ≤ value ∧ value ≤ 9223372036854775807 := by
    simpa [fitsInt64] using h
  have hself : (Int64.ofInt value).toInt = value :=
    Int64.toInt_ofInt_of_le hrange.1 (by omega)
  rw [← Int64.toInt_inj, hself]

/-- Every number in a text is a literal, and it is read as the number that the literal writes: as an
integer exactly if it has neither a fraction nor an exponent and fits 64 bits, and else as a
decimal. Only an exponent that does not fit 64 bits is refused. -/
theorem numbers_are_exact {text : List Char} {token : Token}
    (h : token ∈ (tokenize text).tokens) (hkind : token.kind = .number) :
    (∃ literal : NumberLiteral, literal.chars = token.image) ∧
      ∀ literal : NumberLiteral, literal.chars = token.image →
        ((∃ value, Value.ofNumber? token.text = .ok value) ↔ fitsInt64 literal.power) ∧
        (∀ n : Int64, Value.ofNumber? token.text = .ok (.int n) ↔
          literal.IsWhole ∧ literal.unscaled = n.toInt) ∧
        (fitsInt64 literal.power → ¬ (literal.IsWhole ∧ fitsInt64 literal.unscaled) →
          ∃ d, Value.ofNumber? token.text = .ok (.float d) ∧
            (fitsInt64 (literal.places.length - literal.power) → d.toRat = literal.value)) := by
  refine ⟨exists_literal_of_mem_tokenize h hkind, fun literal himage => ?_⟩
  rw [Token.text, ← himage]
  by_cases hinteger : literal.IsWhole ∧ fitsInt64 literal.unscaled
  · obtain ⟨hwhole, hfits⟩ := hinteger
    rw [literal.ofNumber?_of_isWhole hwhole hfits]
    refine ⟨⟨fun _ => hwhole.fitsInt64_power, fun _ => ⟨_, rfl⟩⟩, fun n => ?_,
      fun _ hnot => absurd ⟨hwhole, hfits⟩ hnot⟩
    rw [Except.ok.injEq, Value.ofInt, Value.int.injEq, and_iff_right hwhole]
    exact ofInt_eq_iff hfits n
  · rw [literal.ofNumber?_of_not_isWhole hinteger]
    have hnot (n : Int64) : ¬ (literal.IsWhole ∧ literal.unscaled = n.toInt) := by
      rintro ⟨hwhole, hvalue⟩
      exact hinteger ⟨hwhole, hvalue ▸ Value.fitsInt64_toInt n⟩
    by_cases hpower : fitsInt64 literal.power
    · rw [if_pos hpower]
      exact ⟨⟨fun _ => hpower, fun _ => ⟨_, rfl⟩⟩, fun n => by simp [hnot n],
        fun _ _ => ⟨_, rfl, fun _ => literal.toRat_decimal⟩⟩
    · rw [if_neg hpower]
      exact ⟨by simp [hpower], fun n => by simp [hnot n], fun hfits => absurd hfits hpower⟩

/-- The sign belongs to the exponent, and the zero at the end counts for the scale only. -/
theorem numbers_are_exact_pointed :
    (tokenize "a >= -12.50e+3".toList).tokens[2]? = some ⟨.number, "-12.50e+3".toList, 5⟩ ∧
      ∃ d, Value.ofNumber? "-12.50e+3" = .ok (.float d) ∧ d.toRat = -12500 := by
  have htoken : (tokenize "a >= -12.50e+3".toList).tokens[2]? =
      some ⟨.number, "-12.50e+3".toList, 5⟩ := by
    with_unfolding_all rfl
  let literal : NumberLiteral :=
    { negative := true
      whole := ⟨['1', '2'], List.cons_ne_nil _ _, List.all_eq_true.mp rfl⟩
      fraction := some ⟨['5', '0'], List.cons_ne_nil _ _, List.all_eq_true.mp rfl⟩
      exponent := some ⟨false, .plus, ⟨['3'], List.cons_ne_nil _ _, List.all_eq_true.mp rfl⟩⟩ }
  have hvalue : literal.value = -12500 := by
    have hunscaled : literal.unscaled = -1250 := by decide
    have hpower : literal.power = 3 := by decide
    have hplaces : literal.places.length = 2 := by decide
    rw [NumberLiteral.value, hunscaled, hpower, hplaces]
    norm_num
  obtain ⟨-, hread⟩ := numbers_are_exact (List.mem_of_getElem? htoken) rfl
  obtain ⟨-, -, hfloat⟩ := hread literal (by decide)
  obtain ⟨d, hd, hrat⟩ := hfloat (by decide) fun hwhole => nomatch hwhole.1.1
  exact ⟨htoken, d, hd, (hrat (by decide)).trans hvalue⟩

end EntityGraph.Language
