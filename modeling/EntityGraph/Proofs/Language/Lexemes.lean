import EntityGraph.Language.Lexer
import Mathlib.Data.List.TakeWhile
import Mathlib.Tactic.Common
/-!
# Lexemes

A token is cut off where it ends, whatever it ends at: the text that became a token becomes the same
token again in front of any text that does not go on with it. So the tokens of a text can be spelled
anew with blanks between them, and the new text has the same tokens.
-/
namespace EntityGraph.Language

/-- A kind and a text of its own. -/
abbrev Lexeme : Type := TokenKind × List Char

def Token.lexeme (token : Token) : Lexeme := (token.kind, token.image)

/-- Whether a character right behind a token could still belong to it. -/
def goesOn (kind : TokenKind) (c : Char) : Bool :=
  match kind with
  | .dollar | .dot | .comma | .leftParenthesis | .rightParenthesis | .leftBracket | .rightBracket
  | .equals | .notEquals | .lowerEqual | .greaterEqual | .string => false
  | .lower | .greater => c == '='
  | .number => isWordChar c || c == '.'
  | .identifier | .entityIdentifier | .and | .or | .not | .null | .true | .false => isWordChar c

/-- A token of the kind ends in front of the text. -/
def Ends (kind : TokenKind) (text : List Char) : Prop := ∀ c ∈ text.head?, goesOn kind c = false

@[simp] lemma ends_nil (kind : TokenKind) : Ends kind [] := by simp [Ends]

@[simp] lemma ends_cons {kind : TokenKind} {c : Char} {rest : List Char} :
    Ends kind (c :: rest) ↔ goesOn kind c = false := by simp [Ends]

/-- In front of every text that does not go on with it, the image becomes one token of the kind. -/
inductive IsLexeme : Lexeme → Prop
  | intro {kind : TokenKind} {c : Char} {tail : List Char} (hblank : Text.isBlank c = false)
      (h : ∀ rest, Ends kind rest → lexeme? c (tail ++ rest) = some (kind, tail.length)) :
      IsLexeme (kind, c :: tail)

/-! ### Runs of characters -/

section

variable {p : Char → Bool} {text more : List Char} {k : ℕ}

/-- A run that ends within the first `k` characters, or behind them, is as long in front of any text
that does not go on with it. -/
lemma takeWhile_take_append (hk : (text.takeWhile p).length ≤ k) (hmore : ∀ c ∈ more.head?, ¬ p c) :
    (text.take k ++ more).takeWhile p = text.takeWhile p := by
  induction text generalizing k with
  | nil =>
    cases more with
    | nil => simp
    | cons c more => simpa using hmore c rfl
  | cons c rest ih =>
    by_cases hc : p c
    · cases k with
      | zero => simp [hc] at hk
      | succ k =>
        have hrest : (rest.takeWhile p).length ≤ k := by simpa [hc] using hk
        simp [hc, ih hrest]
    · cases k with
      | zero =>
        cases more with
        | nil => simp [hc]
        | cons d more =>
          have hd : ¬ p d := hmore d rfl
          simp [hc, hd]
      | succ k => simp [hc]

lemma digitCount_take_append (hk : digitCount text ≤ k) (hmore : ∀ c ∈ more.head?, ¬ c.isDigit) :
    digitCount (text.take k ++ more) = digitCount text :=
  congrArg List.length (takeWhile_take_append hk hmore)

lemma digitCount_eq_zero (h : ∀ c ∈ text.head?, ¬ c.isDigit) : digitCount text = 0 := by
  cases text with
  | nil => rfl
  | cons c rest =>
    have hc : ¬ c.isDigit := h c rfl
    simp [digitCount, hc]

/-- A run of digits goes on with those that stand behind it. -/
lemma digitCount_append (h : ∀ c ∈ text, c.isDigit) (more : List Char) :
    digitCount (text ++ more) = text.length + digitCount more := by
  rw [digitCount, List.takeWhile_append_of_pos h, List.length_append, digitCount]

lemma digitCount_le_length (text : List Char) : digitCount text ≤ text.length :=
  (List.takeWhile_prefix _).length_le

end

/-! ### Strings -/

lemma stringLength?_cons {c : Char} (hquote : c ≠ '\'') (hescape : c ≠ '\\') (rest : List Char) :
    stringLength? (c :: rest) = (stringLength? rest).map (· + 1) :=
  stringLength?.eq_5 c rest hquote (fun h _ => hescape h) fun _ _ h _ => hescape h

lemma stringLength?_take_append {text : List Char} {length : ℕ}
    (h : stringLength? text = some length) (more : List Char) :
    length ≤ text.length ∧ stringLength? (text.take length ++ more) = some length := by
  induction text using stringLength?.induct generalizing length with
  | case1 => cases h
  | case2 rest =>
    obtain rfl : 1 = length := by simpa [stringLength?] using h
    simp [stringLength?]
  | case3 => cases h
  | case4 c rest ih =>
    obtain ⟨inner, hinner, rfl⟩ : ∃ inner,
        stringLength? rest = some inner ∧ inner + 2 = length := by
      simpa [stringLength?] using h
    obtain ⟨hle, hread⟩ := ih hinner
    simp [stringLength?, hread, hle]
  | case5 c rest hquote hlone hescape ih =>
    have hc : c ≠ '\\' := by
      rintro rfl
      cases rest with
      | nil => exact hlone rfl rfl
      | cons d rest => exact hescape d rest rfl rfl
    rw [stringLength?_cons hquote hc] at h
    obtain ⟨inner, hinner, rfl⟩ := Option.map_eq_some_iff.mp h
    obtain ⟨hle, hread⟩ := ih hinner
    refine ⟨Nat.succ_le_succ hle, ?_⟩
    rw [List.take_succ_cons, List.cons_append, stringLength?_cons hquote hc, hread]
    rfl

/-! ### Numbers -/

section

variable {text more : List Char} {k : ℕ}

lemma not_isDigit_of_ends {kind : TokenKind} (hkind : kind = .number) (h : Ends kind more) :
    ∀ c ∈ more.head?, ¬ c.isDigit := by
  subst hkind
  intro c hc hdigit
  have hword := h c hc
  simp [goesOn, isWordChar, Char.isAlphanum, hdigit] at hword

lemma fractionLength_of_ends (h : Ends .number more) : fractionLength more = 0 := by
  cases more with
  | nil => rfl
  | cons c rest =>
    have hc : c ≠ '.' := by
      rintro rfl
      simp [goesOn] at h
    simp [fractionLength, hc]

lemma exponentLength_of_ends (h : Ends .number more) : exponentLength more = 0 := by
  cases more with
  | nil => rfl
  | cons c rest =>
    have hc : ¬ (c = 'e' ∨ c = 'E') := by
      rintro (rfl | rfl) <;> exact absurd (h _ rfl) (by decide)
    simp [exponentLength, hc]

lemma fractionLength_take_append (hk : fractionLength text ≤ k) (hmore : Ends .number more) :
    fractionLength (text.take k ++ more) = fractionLength text := by
  have hdigit := not_isDigit_of_ends rfl hmore
  cases k with
  | zero =>
    rw [Nat.le_zero.mp hk]
    simpa using fractionLength_of_ends hmore
  | succ k =>
    cases text with
    | nil =>
      rw [List.take_nil, List.nil_append]
      exact fractionLength_of_ends hmore
    | cons c rest =>
      by_cases hc : c = '.'
      · subst hc
        have hcount : digitCount rest ≤ k := by
          by_cases hzero : digitCount rest = 0
          · omega
          · simpa [fractionLength, hzero] using hk
        simp [fractionLength, digitCount_take_append hcount hdigit]
      · simp [fractionLength, hc]

lemma signLength_le_one (text : List Char) : signLength text ≤ 1 := by
  unfold signLength
  split <;> omega

lemma signLength_take_append (htext : text ≠ []) (hk : k ≠ 0) :
    signLength (text.take k ++ more) = signLength text := by
  obtain ⟨c, rest, rfl⟩ := List.exists_cons_of_ne_nil htext
  obtain ⟨k, rfl⟩ := Nat.exists_eq_succ_of_ne_zero hk
  simp only [Nat.succ_eq_add_one, List.take_succ_cons, List.cons_append, signLength]
  split <;> simp_all

/-- What is left behind the first `n` of `k` characters. -/
lemma drop_take_append {n : ℕ} (htext : n ≤ text.length) (hk : n ≤ k) :
    (text.take k ++ more).drop n = (text.drop n).take (k - n) ++ more := by
  rw [List.drop_append_of_le_length (by simp; omega), List.drop_take]

/-- Exactly the exponent is taken: where there is none, a sign behind the mark could make one. -/
lemma exponentLength_take_append (hmore : Ends .number more) :
    exponentLength (text.take (exponentLength text) ++ more) = exponentLength text := by
  cases text with
  | nil => simpa [exponentLength] using exponentLength_of_ends hmore
  | cons c rest =>
    let sign := signLength rest
    let digits := digitCount (rest.drop sign)
    by_cases hpresent : (c = 'e' ∨ c = 'E') ∧ digits ≠ 0
    · have hlength : exponentLength (c :: rest) = digits + sign + 1 := if_pos hpresent
      have hrest : rest ≠ [] := by
        rintro rfl
        exact hpresent.2 rfl
      have hsignLe : sign ≤ rest.length :=
        (signLength_le_one rest).trans (List.length_pos_iff.mpr hrest)
      have hsign : signLength (rest.take (digits + sign) ++ more) = sign :=
        signLength_take_append hrest (by omega)
      have hdrop : (rest.take (digits + sign) ++ more).drop sign =
          (rest.drop sign).take digits ++ more := by
        rw [drop_take_append hsignLe (by omega), Nat.add_sub_cancel]
      have hdigits : digitCount ((rest.drop sign).take digits ++ more) = digits :=
        digitCount_take_append le_rfl (not_isDigit_of_ends rfl hmore)
      rw [hlength, List.take_succ_cons, List.cons_append]
      simp only [exponentLength, hsign, hdrop, hdigits]
      exact if_pos hpresent
    · have hzero : exponentLength (c :: rest) = 0 := if_neg hpresent
      rw [hzero]
      simpa using exponentLength_of_ends hmore

lemma fractionLength_le_length (text : List Char) : fractionLength text ≤ text.length := by
  cases text with
  | nil => simp [fractionLength]
  | cons c rest =>
    have hle := digitCount_le_length rest
    by_cases hc : c = '.'
    · subst hc
      simp only [fractionLength, List.length_cons]
      split <;> omega
    · simp [fractionLength, hc]

lemma exponentLength_le_length (text : List Char) : exponentLength text ≤ text.length := by
  cases text with
  | nil => simp [exponentLength]
  | cons c rest =>
    have hdigits := digitCount_le_length (rest.drop (signLength rest))
    rw [List.length_drop] at hdigits
    simp only [exponentLength, List.length_cons]
    split <;> omega

/-- The whole digits of a number with its sign. -/
def wholeLength (text : List Char) : ℕ :=
  let minus := if text.head? = some '-' then 1 else 0
  minus + digitCount (text.drop minus)

def mantissaLength (text : List Char) : ℕ :=
  wholeLength text + fractionLength (text.drop (wholeLength text))

lemma numberLength_eq (text : List Char) :
    numberLength text = mantissaLength text + exponentLength (text.drop (mantissaLength text)) :=
  rfl

lemma wholeLength_le_length (text : List Char) : wholeLength text ≤ text.length := by
  cases text with
  | nil => simp [wholeLength, digitCount]
  | cons c rest =>
    have hle := digitCount_le_length rest
    have hcons := digitCount_le_length (c :: rest)
    simp only [wholeLength, List.head?_cons, Option.some.injEq]
    split
    · simp only [List.drop_succ_cons, List.drop_zero, List.length_cons]
      omega
    · simpa using hcons

lemma mantissaLength_le_length (text : List Char) : mantissaLength text ≤ text.length := by
  have hwhole := wholeLength_le_length text
  have hfraction := fractionLength_le_length (text.drop (wholeLength text))
  rw [List.length_drop] at hfraction
  unfold mantissaLength
  omega

lemma wholeLength_take_append (htext : text ≠ []) (hk : wholeLength text ≤ k) (hpos : k ≠ 0)
    (hmore : Ends .number more) : wholeLength (text.take k ++ more) = wholeLength text := by
  have hdigit := not_isDigit_of_ends rfl hmore
  obtain ⟨c, rest, rfl⟩ := List.exists_cons_of_ne_nil htext
  obtain ⟨k, rfl⟩ := Nat.exists_eq_succ_of_ne_zero hpos
  by_cases hc : c = '-'
  · subst hc
    have hsum : 1 + digitCount rest ≤ k + 1 := by simpa [wholeLength] using hk
    have hrest : digitCount rest ≤ k := by omega
    simp [wholeLength, digitCount_take_append hrest hdigit]
  · have hcons : digitCount (c :: rest) ≤ k + 1 := by simpa [wholeLength, hc] using hk
    have hdigits := digitCount_take_append hcons hdigit
    rw [List.take_succ_cons, List.cons_append] at hdigits
    simp [wholeLength, hc, hdigits]

/-- A number is as long in front of any text that does not go on with it. -/
lemma numberLength_take_append (hpos : numberLength text ≠ 0) (hmore : Ends .number more) :
    numberLength (text.take (numberLength text) ++ more) = numberLength text := by
  have htext : text ≠ [] := by
    rintro rfl
    exact hpos rfl
  have hwholeLe := wholeLength_le_length text
  have hmantissaLe := mantissaLength_le_length text
  have hlength := numberLength_eq text
  have hfraction : fractionLength (text.drop (wholeLength text)) ≤
      numberLength text - wholeLength text := by
    unfold mantissaLength at hlength
    omega
  have hwhole : wholeLength (text.take (numberLength text) ++ more) = wholeLength text := by
    refine wholeLength_take_append htext ?_ hpos hmore
    unfold mantissaLength at hlength
    omega
  have hmantissa : mantissaLength (text.take (numberLength text) ++ more) =
      mantissaLength text := by
    rw [mantissaLength, hwhole,
      drop_take_append hwholeLe (by unfold mantissaLength at hlength; omega),
      fractionLength_take_append hfraction hmore]
    rfl
  have hexponent : numberLength text - mantissaLength text =
      exponentLength (text.drop (mantissaLength text)) := by omega
  rw [numberLength_eq, hmantissa, drop_take_append hmantissaLe (by omega), hexponent,
    exponentLength_take_append hmore, ← hlength]

end

/-! ### Tokens -/

lemma numberLength_le_length (text : List Char) : numberLength text ≤ text.length := by
  have hmantissa := mantissaLength_le_length text
  have hexponent := exponentLength_le_length (text.drop (mantissaLength text))
  rw [List.length_drop] at hexponent
  rw [numberLength_eq]
  omega

lemma numberLength_pos {c : Char} (hc : c.isDigit) (rest : List Char) :
    0 < numberLength (c :: rest) := by
  have hne : c ≠ '-' := by
    rintro rfl
    exact absurd hc (by decide)
  have hwhole : 0 < wholeLength (c :: rest) := by simp [wholeLength, hne, digitCount, hc]
  rw [numberLength_eq, mantissaLength]
  omega

lemma one_lt_numberLength_minus {rest : List Char} (h : rest.head?.any Char.isDigit) :
    1 < numberLength ('-' :: rest) := by
  have hwhole : 1 < wholeLength ('-' :: rest) := by
    cases rest with
    | nil => cases h
    | cons d others =>
      have hd : d.isDigit := h
      simp [wholeLength, digitCount, hd]
  rw [numberLength_eq, mantissaLength]
  omega

/-- The characters behind the first one of a number. -/
lemma numberLength_tail {c : Char} {rest more : List Char} (hpos : 0 < numberLength (c :: rest))
    (hmore : Ends .number more) :
    numberLength (c :: (rest.take (numberLength (c :: rest) - 1) ++ more)) =
      numberLength (c :: rest) := by
  have hstable := numberLength_take_append hpos.ne' hmore
  obtain ⟨length, hlength⟩ : ∃ length, numberLength (c :: rest) = length + 1 :=
    Nat.exists_eq_add_one.mpr hpos
  rw [hlength, List.take_succ_cons] at hstable
  rwa [hlength]

lemma lexeme?_of_isDigit {c : Char} (hc : c.isDigit) (rest : List Char) :
    lexeme? c rest = some (.number, numberLength (c :: rest) - 1) := by
  dsimp only [lexeme?]
  split
  case h_14 => exact if_pos hc
  all_goals exact absurd hc (by decide)

lemma lexeme?_minus {rest : List Char} (h : rest.head?.any Char.isDigit) :
    lexeme? '-' rest = some (.number, numberLength ('-' :: rest) - 1) := if_pos h

lemma isDigit_iff {c : Char} : c.isDigit ↔ 48 ≤ c.toNat ∧ c.toNat ≤ 57 := by
  have hdigit : c.isDigit ↔ c.val ≥ '0'.val ∧ c.val ≤ '9'.val :=
    Bool.and_eq_true_iff.trans (and_congr decide_eq_true_iff decide_eq_true_iff)
  exact hdigit

lemma isAlpha_iff {c : Char} :
    c.isAlpha ↔ (65 ≤ c.toNat ∧ c.toNat ≤ 90) ∨ (97 ≤ c.toNat ∧ c.toNat ≤ 122) := by
  have hupper : c.isUpper ↔ c.val ≥ 'A'.val ∧ c.val ≤ 'Z'.val := decide_eq_true_iff
  have hlower : c.isLower ↔ c.val ≥ 'a'.val ∧ c.val ≤ 'z'.val :=
    Bool.and_eq_true_iff.trans (and_congr decide_eq_true_iff decide_eq_true_iff)
  exact Bool.or_eq_true_iff.trans (or_congr hupper hlower)

lemma not_isDigit_of_isWordStart {c : Char} (hc : isWordStart c) : c.isDigit = false := by
  obtain hletter | rfl : c.isAlpha ∨ c = '_' := by simpa [isWordStart] using hc
  · rw [isAlpha_iff] at hletter
    rw [Bool.eq_false_iff, ne_eq, isDigit_iff]
    omega
  · rfl

lemma lexeme?_of_isWordStart {c : Char} (hc : isWordStart c) (rest : List Char) :
    lexeme? c rest = some (wordKind (c :: rest.takeWhile isWordChar),
      (rest.takeWhile isWordChar).length) := by
  have hdigit := not_isDigit_of_isWordStart hc
  dsimp only [lexeme?]
  split
  case h_14 => simp [hdigit, hc]
  all_goals exact absurd hc (by decide)

/-- Words of every kind end at the same characters. -/
lemma goesOn_wordKind (word : List Char) (c : Char) : goesOn (wordKind word) c = isWordChar c := by
  unfold wordKind
  split
  · rename_i kind hlookup
    have hall : ∀ entry ∈ keywords, goesOn entry.2 c = isWordChar c := by simp [keywords, goesOn]
    obtain ⟨before, after, hkeywords, -⟩ := List.lookup_eq_some_iff.mp hlookup
    exact hall (word, kind) (by simp [hkeywords])
  · split <;> rfl

/-- No word is of a kind that ends elsewhere. -/
lemma wordKind_ne {kind : TokenKind} {c : Char} (h : goesOn kind c ≠ isWordChar c)
    (word : List Char) : wordKind word ≠ kind := by
  rintro rfl
  exact h (goesOn_wordKind word c)

/-- Kinds whose tokens are all spelled alike. -/
def isMark (kind : TokenKind) : Bool :=
  match kind with
  | .dollar | .dot | .comma | .leftParenthesis | .rightParenthesis | .leftBracket | .rightBracket
  | .equals | .notEquals | .lower | .lowerEqual | .greater | .greaterEqual => true
  | .string | .number | .identifier | .entityIdentifier | .and | .or | .not | .null | .true
  | .false => false

/-- What a token begins with, and how far it goes, if it is no mark. -/
lemma lexeme?_cases {c : Char} {rest : List Char} {kind : TokenKind} {extra : ℕ}
    (h : lexeme? c rest = some (kind, extra)) (hmark : isMark kind = false) :
    (c = '\'' ∧ kind = .string ∧ stringLength? rest = some extra) ∨
    ((c.isDigit ∨ c = '-' ∧ rest.head?.any Char.isDigit) ∧ kind = .number ∧
      numberLength (c :: rest) - 1 = extra) ∨
    (isWordStart c ∧ wordKind (c :: rest.takeWhile isWordChar) = kind ∧
      (rest.takeWhile isWordChar).length = extra) := by
  unfold lexeme? at h
  -- Most characters begin a mark, and some of them one mark of two.
  split at h
  case h_9 | h_10 | h_11 =>
    by_cases hequal : rest.head? = some '='
    all_goals
      simp only [hequal, if_true, if_false] at h
      cases h
    all_goals cases hmark
  case h_12 =>
    obtain ⟨length, hlength, rfl, rfl⟩ :
        ∃ length, stringLength? rest = some length ∧ .string = kind ∧ length = extra := by
      simpa using h
    exact .inl ⟨rfl, rfl, hlength⟩
  case h_13 =>
    obtain ⟨hdigit, rfl, rfl⟩ : rest.head?.any Char.isDigit ∧ .number = kind ∧
        numberLength ('-' :: rest) - 1 = extra := by
      simpa using h
    exact .inr (.inl ⟨.inr ⟨rfl, hdigit⟩, rfl, rfl⟩)
  case h_14 =>
    by_cases hdigit : c.isDigit
    · obtain ⟨rfl, rfl⟩ : .number = kind ∧ numberLength (c :: rest) - 1 = extra := by
        simpa [hdigit] using h
      exact .inr (.inl ⟨.inl hdigit, rfl, rfl⟩)
    · obtain ⟨hstart, rfl, rfl⟩ : isWordStart c ∧ wordKind (c :: rest.takeWhile isWordChar) = kind ∧
          (rest.takeWhile isWordChar).length = extra := by
        simpa [hdigit] using h
      exact .inr (.inr ⟨hstart, rfl, rfl⟩)
  all_goals
    cases h
    cases hmark

/-! ### One token in front of another text -/

lemma numberLength_pred_le (c : Char) (rest : List Char) :
    numberLength (c :: rest) - 1 ≤ rest.length := by
  have hle := numberLength_le_length (c :: rest)
  rw [List.length_cons] at hle
  omega

lemma lexeme?_take_append_of_isDigit {c : Char} {rest more : List Char} (hc : c.isDigit)
    (hmore : Ends .number more) :
    lexeme? c (rest.take (numberLength (c :: rest) - 1) ++ more) =
      some (.number, numberLength (c :: rest) - 1) := by
  rw [lexeme?_of_isDigit hc, numberLength_tail (numberLength_pos hc rest) hmore]

lemma lexeme?_take_append_minus {rest more : List Char} (h : rest.head?.any Char.isDigit)
    (hmore : Ends .number more) :
    lexeme? '-' (rest.take (numberLength ('-' :: rest) - 1) ++ more) =
      some (.number, numberLength ('-' :: rest) - 1) := by
  have hlong := one_lt_numberLength_minus h
  have hbegins : (rest.take (numberLength ('-' :: rest) - 1) ++ more).head?.any Char.isDigit := by
    obtain ⟨extra, hextra⟩ : ∃ extra, numberLength ('-' :: rest) - 1 = extra + 1 :=
      ⟨_, (Nat.sub_add_cancel (by omega)).symm⟩
    cases rest with
    | nil => cases h
    | cons d others =>
      rw [hextra]
      exact h
  rw [lexeme?_minus hbegins, numberLength_tail (by omega) hmore]

lemma lexeme?_take_append_of_isWordStart {c : Char} {rest more : List Char} (hc : isWordStart c)
    (hmore : Ends (wordKind (c :: rest.takeWhile isWordChar)) more) :
    lexeme? c (rest.take (rest.takeWhile isWordChar).length ++ more) =
      some (wordKind (c :: rest.takeWhile isWordChar), (rest.takeWhile isWordChar).length) := by
  have htail : (rest.take (rest.takeWhile isWordChar).length ++ more).takeWhile isWordChar =
      rest.takeWhile isWordChar := by
    refine takeWhile_take_append le_rfl fun d hd => ?_
    rw [← goesOn_wordKind, hmore d hd]
    simp
  rw [lexeme?_of_isWordStart hc, htail]

/-- A token is as long in front of any text that does not go on with it. -/
theorem lexeme?_take_append {c : Char} {rest more : List Char} {kind : TokenKind} {extra : ℕ}
    (h : lexeme? c rest = some (kind, extra)) (hmore : Ends kind more) :
    extra ≤ rest.length ∧ lexeme? c (rest.take extra ++ more) = some (kind, extra) := by
  have hequal (hkind : goesOn kind '=') : more.head? ≠ some '=' := by
    intro hhead
    simp [hmore _ hhead] at hkind
  unfold lexeme? at h
  -- The cases are those of the first character, in the order of the definition.
  split at h
  case h_9 =>
    obtain ⟨hhead, rfl, rfl⟩ : rest.head? = some '=' ∧ .notEquals = kind ∧ 1 = extra := by
      simpa using h
    obtain ⟨rest, rfl⟩ := List.head?_eq_some_iff.mp hhead
    simp [lexeme?]
  case h_10 =>
    by_cases hhead : rest.head? = some '='
    · obtain ⟨rest, rfl⟩ := List.head?_eq_some_iff.mp hhead
      obtain ⟨rfl, rfl⟩ : .lowerEqual = kind ∧ 1 = extra := by simpa using h
      simp [lexeme?]
    · obtain ⟨rfl, rfl⟩ : .lower = kind ∧ 0 = extra := by simpa [hhead] using h
      simp [lexeme?, hequal rfl]
  case h_11 =>
    by_cases hhead : rest.head? = some '='
    · obtain ⟨rest, rfl⟩ := List.head?_eq_some_iff.mp hhead
      obtain ⟨rfl, rfl⟩ : .greaterEqual = kind ∧ 1 = extra := by simpa using h
      simp [lexeme?]
    · obtain ⟨rfl, rfl⟩ : .greater = kind ∧ 0 = extra := by simpa [hhead] using h
      simp [lexeme?, hequal rfl]
  case h_12 =>
    obtain ⟨length, hlength, rfl, rfl⟩ :
        ∃ length, stringLength? rest = some length ∧ .string = kind ∧ length = extra := by
      simpa using h
    obtain ⟨hle, hread⟩ := stringLength?_take_append hlength more
    exact ⟨hle, by simp [lexeme?, hread]⟩
  case h_13 =>
    obtain ⟨hdigit, rfl, rfl⟩ : rest.head?.any Char.isDigit ∧ .number = kind ∧
        numberLength ('-' :: rest) - 1 = extra := by
      simpa using h
    exact ⟨numberLength_pred_le _ _, lexeme?_take_append_minus hdigit hmore⟩
  case h_14 =>
    by_cases hdigit : c.isDigit
    · obtain ⟨rfl, rfl⟩ : .number = kind ∧ numberLength (c :: rest) - 1 = extra := by
        simpa [hdigit] using h
      exact ⟨numberLength_pred_le _ _, lexeme?_take_append_of_isDigit hdigit hmore⟩
    · obtain ⟨hstart, rfl, rfl⟩ : isWordStart c ∧ wordKind (c :: rest.takeWhile isWordChar) = kind ∧
          (rest.takeWhile isWordChar).length = extra := by
        simpa [hdigit] using h
      exact ⟨(List.takeWhile_prefix _).length_le, lexeme?_take_append_of_isWordStart hstart hmore⟩
  all_goals
    cases h
    exact ⟨Nat.zero_le _, rfl⟩

/-! ### Texts -/

/-- What a piece adds to the tokens. -/
def Piece.lexeme? : Piece → Option Lexeme
  | token kind image => some (kind, image)
  | _ => none

def Piece.IsMatched : Piece → Prop
  | unmatched _ => False
  | _ => True

section

variable {ps : List Piece}

lemma filterMap_lexeme?_joinUnmatched (ps : List Piece) :
    (joinUnmatched ps).filterMap Piece.lexeme? = ps.filterMap Piece.lexeme? := by
  fun_induction joinUnmatched ps with
  | case1 => rfl
  | case2 text rest more others hjoined ih =>
    rw [hjoined, List.filterMap_cons_none rfl] at ih
    rw [List.filterMap_cons_none rfl, List.filterMap_cons_none rfl, ih]
  | case3 text rest hjoined ih =>
    rw [List.filterMap_cons_none rfl, List.filterMap_cons_none rfl, ih]
  | case4 piece rest hpiece ih => simp [List.filterMap_cons, ih]

lemma forall_isMatched_joinUnmatched_iff (ps : List Piece) :
    (∀ piece ∈ joinUnmatched ps, piece.IsMatched) ↔ ∀ piece ∈ ps, piece.IsMatched := by
  fun_induction joinUnmatched ps with
  | case1 => rfl
  | case2 text rest more others hjoined ih => simp [Piece.IsMatched]
  | case3 text rest hjoined ih => simp [Piece.IsMatched]
  | case4 piece rest hpiece ih => simp [ih]

lemma Lexed.map_lexeme_tokens (offset : ℕ) (ps : List Piece) :
    (ofPieces offset ps).tokens.map Token.lexeme = ps.filterMap Piece.lexeme? := by
  induction ps generalizing offset with
  | nil => rfl
  | cons piece rest ih =>
    cases piece <;> simp [ofPieces, Piece.lexeme?, Token.lexeme, List.filterMap_cons, ih]

lemma Lexed.errors_eq_nil_iff (offset : ℕ) (ps : List Piece) :
    (ofPieces offset ps).errors = [] ↔ ∀ piece ∈ ps, piece.IsMatched := by
  induction ps generalizing offset with
  | nil => simp [ofPieces]
  | cons piece rest ih => cases piece <;> simp [ofPieces, Piece.IsMatched, ih]

end

lemma map_lexeme_tokenize (text : List Char) :
    (tokenize text).tokens.map Token.lexeme = (pieces text).filterMap Piece.lexeme? := by
  rw [tokenize, Lexed.map_lexeme_tokens, filterMap_lexeme?_joinUnmatched]

lemma errors_tokenize_eq_nil_iff (text : List Char) :
    (tokenize text).errors = [] ↔ ∀ piece ∈ pieces text, piece.IsMatched := by
  rw [tokenize, Lexed.errors_eq_nil_iff, forall_isMatched_joinUnmatched_iff]

lemma isLexeme_of_mem_pieces {text : List Char} {piece : Piece} (h : piece ∈ pieces text)
    {lexeme : Lexeme} (hlexeme : piece.lexeme? = some lexeme) : IsLexeme lexeme := by
  fun_induction pieces text with
  | case1 => cases h
  | case2 c rest hblank ih =>
    obtain rfl | h := List.mem_cons.mp h
    · cases hlexeme
    · exact ih h
  | case3 c rest hblank kind extra hread ih =>
    obtain rfl | h := List.mem_cons.mp h
    · cases hlexeme
      refine .intro (by simpa using hblank) fun more hmore => ?_
      obtain ⟨hle, hstable⟩ := lexeme?_take_append hread hmore
      rw [hstable, List.length_take, Nat.min_eq_left hle]
    · exact ih h
  | case4 rest hblank hread =>
    obtain rfl := List.mem_singleton.mp h
    cases hlexeme
  | case5 c rest hblank hread hquote ih =>
    obtain rfl | h := List.mem_cons.mp h
    · cases hlexeme
    · exact ih h

/-- Every token of a text can be spelled in another text. -/
theorem isLexeme_of_mem_tokenize {text : List Char} {token : Token}
    (h : token ∈ (tokenize text).tokens) : IsLexeme token.lexeme := by
  have hmem : token.lexeme ∈ (pieces text).filterMap Piece.lexeme? := by
    rw [← map_lexeme_tokenize]
    exact List.mem_map_of_mem h
  obtain ⟨piece, hpiece, hlexeme⟩ := List.mem_filterMap.mp hmem
  exact isLexeme_of_mem_pieces hpiece hlexeme

/-- The text is made up of the lexemes, with nothing else between them than blanks. -/
def CutInto (text : List Char) (lexemes : List Lexeme) : Prop :=
  (tokenize text).errors = [] ∧ (tokenize text).tokens.map Token.lexeme = lexemes

section

variable {text rest : List Char} {lexemes : List Lexeme}

lemma cutInto_iff : CutInto text lexemes ↔ (∀ piece ∈ pieces text, piece.IsMatched) ∧
    (pieces text).filterMap Piece.lexeme? = lexemes := by
  rw [CutInto, errors_tokenize_eq_nil_iff, map_lexeme_tokenize]

lemma CutInto.nil : CutInto [] [] := by simp [cutInto_iff, pieces]

lemma CutInto.blank {c : Char} (hblank : Text.isBlank c) (h : CutInto rest lexemes) :
    CutInto (c :: rest) lexemes := by
  rw [cutInto_iff] at h ⊢
  simpa [pieces, hblank, Piece.IsMatched, Piece.lexeme?, List.filterMap_cons] using h

lemma CutInto.cons {lexeme : Lexeme} (hlexeme : IsLexeme lexeme) (hends : Ends lexeme.1 rest)
    (h : CutInto rest lexemes) : CutInto (lexeme.2 ++ rest) (lexeme :: lexemes) := by
  obtain ⟨hblank, hread⟩ := hlexeme
  rw [cutInto_iff] at h ⊢
  rw [List.cons_append, pieces, if_neg (by simp [hblank]), hread rest hends]
  simpa [Piece.IsMatched, Piece.lexeme?, List.filterMap_cons] using h

/-- A blank goes on with no token. -/
lemma ends_blank (kind : TokenKind) (rest : List Char) : Ends kind (' ' :: rest) := by
  cases kind <;> simp [goesOn, isWordChar]

/-- Lexemes with blanks between them are cut into what they are. -/
theorem cutInto_intercalate (h : ∀ lexeme ∈ lexemes, IsLexeme lexeme) :
    CutInto ([' '].intercalate (lexemes.map Prod.snd)) lexemes := by
  induction lexemes with
  | nil => exact .nil
  | cons lexeme others ih =>
    obtain ⟨hlexeme, hothers⟩ := List.forall_mem_cons.mp h
    cases others with
    | nil =>
      have halone := CutInto.cons hlexeme (ends_nil _) .nil
      simpa using halone
    | cons next others =>
      have hblank : CutInto (' ' :: [' '].intercalate ((next :: others).map Prod.snd))
          (next :: others) := (ih hothers).blank (by decide)
      have hall := CutInto.cons hlexeme (ends_blank _ _) hblank
      simpa [List.intercalate] using hall

end

/-! ### Parts of a text -/

/-- In front of every text that lets it end, the part is cut into the lexemes. -/
def Cuts (ends : List Char → Prop) (part : List Char) (lexemes : List Lexeme) : Prop :=
  ∀ rest more, ends rest → CutInto rest more → CutInto (part ++ rest) (lexemes ++ more)

namespace Cuts

variable {ends ends' : List Char → Prop} {part part' : List Char} {lexemes lexemes' : List Lexeme}

lemma lexeme {lexeme : Lexeme} (h : IsLexeme lexeme) : Cuts (Ends lexeme.1) lexeme.2 [lexeme] :=
  fun _ _ hends hrest => CutInto.cons h hends hrest

lemma blank {c : Char} (h : Text.isBlank c) : Cuts ends [c] [] := fun _ _ _ hrest => hrest.blank h

lemma mono (h : Cuts ends part lexemes) (hends : ∀ rest, ends' rest → ends rest) :
    Cuts ends' part lexemes := fun rest more hrest => h rest more (hends rest hrest)

lemma append (h : Cuts ends part lexemes) (h' : Cuts ends' part' lexemes')
    (hends : ∀ rest, ends' rest → ends (part' ++ rest)) :
    Cuts ends' (part ++ part') (lexemes ++ lexemes') := by
  intro rest more hrest hcut
  rw [List.append_assoc, List.append_assoc]
  exact h _ _ (hends rest hrest) (h' rest more hrest hcut)

/-- Items one after the other, a separator between every two. -/
lemma separated {α : Type} {chars : α → List Char} {spelled : α → List Lexeme}
    {separator : List Char} {mark : Lexeme} (hseparator : Cuts (fun _ => True) separator [mark])
    (hends : ∀ rest, ends (separator ++ rest)) {first : α} {others : List α}
    (h : ∀ item ∈ first :: others, Cuts ends (chars item) (spelled item)) :
    Cuts ends (separator.intercalate ((first :: others).map chars))
      (spelled first ++ others.flatMap fun item => mark :: spelled item) := by
  induction others generalizing first with
  | nil => simpa using h first (by simp)
  | cons next others ih =>
    obtain ⟨hfirst, hothers⟩ := List.forall_mem_cons.mp h
    have hmark : Cuts ends (separator ++ separator.intercalate ((next :: others).map chars))
        (mark :: (spelled next ++ others.flatMap fun item => mark :: spelled item)) :=
      hseparator.append (ih hothers) fun _ _ => trivial
    have hall := hfirst.append hmark fun rest _ => by
      rw [List.append_assoc]
      exact hends _
    simpa [List.append_assoc] using hall

end Cuts

end EntityGraph.Language
