import EntityGraph.Proofs.Language.Derivation
import EntityGraph.Proofs.Language.Lexemes
import EntityGraph.Proofs.Value.Tagging
/-!
# How values and names are spelled

A name is spelled as itself, a string with its quotes and escapes, an integer with its digits, and
a literal as the bare word that it is. Each spelling is one lexeme, and every environment reads that
lexeme as what was spelled.
-/
namespace EntityGraph.Language

/-! ### Words -/

lemma isBlank_eq_false {c : Char} (hlow : 32 < c.toNat) (hhigh : c.toNat < 133) :
    Text.isBlank c = false := by
  simp only [Text.isBlank, Text.blankRanges, List.any_cons, List.any_nil, Bool.or_eq_false_iff,
    Bool.and_eq_false_iff, decide_eq_false_iff_not, and_true]
  omega

lemma isBlank_of_isWordStart {c : Char} (h : isWordStart c) : Text.isBlank c = false := by
  obtain hletter | rfl : c.isAlpha ∨ c = '_' := by simpa [isWordStart] using h
  · rw [isAlpha_iff] at hletter
    exact isBlank_eq_false (by omega) (by omega)
  · decide

lemma isBlank_of_isDigit {c : Char} (h : c.isDigit) : Text.isBlank c = false := by
  rw [isDigit_iff] at h
  exact isBlank_eq_false (by omega) (by omega)

section

variable {word : List Char}

lemma isWordStart_of_isUpper {c : Char} (h : c.isUpper) : isWordStart c := by
  have hletter : c.isAlpha := Bool.or_eq_true_iff.mpr (.inl h)
  simp [isWordStart, hletter]

/-- A word is cut off as one token, whatever kind of word it is. -/
lemma isLexeme_word (hstart : word.head?.any isWordStart) (hword : word.all isWordChar) :
    IsLexeme (wordKind word, word) := by
  cases word with
  | nil => cases hstart
  | cons c tail =>
    have hc : isWordStart c := hstart
    have htail : ∀ d ∈ tail, isWordChar d := fun d hd =>
      List.all_eq_true.mp hword d (List.mem_cons_of_mem c hd)
    refine .intro (isBlank_of_isWordStart hc) fun rest hrest => ?_
    have hrun : (tail ++ rest).takeWhile isWordChar = tail := by
      have hends : ∀ d ∈ rest.head?, ¬ isWordChar d := fun d hd => by
        rw [← goesOn_wordKind (c :: tail), hrest d hd]
        simp
      have hself : tail.takeWhile isWordChar = tail := List.takeWhile_eq_self_iff.mpr htail
      have htake := takeWhile_take_append (k := tail.length) (by rw [hself]) hends
      rwa [List.take_length, hself] at htake
    rw [lexeme?_of_isWordStart hc, hrun]

/-- No keyword has a capital for its first letter. -/
lemma wordKind_eq_entityIdentifier_iff :
    wordKind word = .entityIdentifier ↔ word.head?.any Char.isUpper := by
  have hsmall : ∀ entry ∈ keywords,
      entry.2 ≠ .entityIdentifier ∧ ¬ entry.1.head?.any Char.isUpper := by decide
  rw [wordKind]
  cases hlookup : keywords.lookup word with
  | none => by_cases hcapital : word.head?.any Char.isUpper <;> simp [hcapital]
  | some kind =>
    obtain ⟨before, after, hkeywords, -⟩ := List.lookup_eq_some_iff.mp hlookup
    obtain ⟨hkind, hcapital⟩ := hsmall (word, kind) (by simp [hkeywords])
    exact iff_of_false hkind hcapital

lemma isWordStart_eq (c : Char) : isWordStart c = (c.isUpper || (c.isLower || c == '_')) :=
  Bool.or_assoc _ _ _

/-- The name of a field is a word that is neither a keyword nor begins with a capital. -/
lemma isIdentifier_iff : isIdentifier word ↔
    word.head?.any isWordStart ∧ word.all isWordChar ∧ wordKind word = .identifier := by
  cases word with
  | nil => simp [isIdentifier]
  | cons c tail =>
    have hcapital : wordKind (c :: tail) = .identifier → c.isUpper = false := by
      intro hkind
      have hentity : ¬ wordKind (c :: tail) = .entityIdentifier := by simp [hkind]
      rw [wordKind_eq_entityIdentifier_iff] at hentity
      simpa using hentity
    simp only [isIdentifier, List.head?_cons, Option.any_some, isWordStart_eq, Bool.and_eq_true,
      Bool.or_eq_true, beq_iff_eq, and_assoc]
    constructor
    · rintro ⟨hstart, hword, hkind⟩
      exact ⟨.inr hstart, hword, hkind⟩
    · rintro ⟨hstart, hword, hkind⟩
      exact ⟨hstart.resolve_left (by simp [hcapital hkind]), hword, hkind⟩

/-- The name of an entity is a word that begins with a capital. -/
lemma isEntityIdentifier_iff : isEntityIdentifier word ↔
    word.head?.any isWordStart ∧ word.all isWordChar ∧ wordKind word = .entityIdentifier := by
  rw [wordKind_eq_entityIdentifier_iff]
  cases word with
  | nil => simp [isEntityIdentifier]
  | cons c tail =>
    have hstart : c.isUpper → isWordStart c := isWordStart_of_isUpper
    simp only [isEntityIdentifier, List.head?_cons, Option.any_some, Bool.and_eq_true]
    tauto

lemma wordKind_of_isIdentifier (h : isIdentifier word) : wordKind word = .identifier :=
  (isIdentifier_iff.mp h).2.2

lemma isLexeme_of_isIdentifier (h : isIdentifier word) : IsLexeme (.identifier, word) := by
  obtain ⟨hstart, hword, hkind⟩ := isIdentifier_iff.mp h
  exact hkind ▸ isLexeme_word hstart hword

lemma wordKind_of_isEntityIdentifier (h : isEntityIdentifier word) :
    wordKind word = .entityIdentifier :=
  (isEntityIdentifier_iff.mp h).2.2

lemma isLexeme_of_isEntityIdentifier (h : isEntityIdentifier word) :
    IsLexeme (.entityIdentifier, word) := by
  obtain ⟨hstart, hword, hkind⟩ := isEntityIdentifier_iff.mp h
  exact hkind ▸ isLexeme_word hstart hword

end

/-! ### Strings -/

/-- The characters of a text between its quotes. -/
def escapes (text : List Char) : List Char :=
  text.flatMap fun c => if c = '\\' ∨ c = '\'' then ['\\', c] else [c]

lemma quote_eq (text : List Char) : quote text = '\'' :: (escapes text ++ ['\'']) := rfl

lemma escapes_cons (c : Char) (rest : List Char) :
    escapes (c :: rest) = (if c = '\\' ∨ c = '\'' then ['\\', c] else [c]) ++ escapes rest :=
  List.flatMap_cons

/-- A quote of the text does not close the string. -/
lemma stringLength?_escapes (text rest : List Char) :
    stringLength? (escapes text ++ '\'' :: rest) = some ((escapes text).length + 1) := by
  induction text with
  | nil => rfl
  | cons c text ih =>
    rw [escapes_cons]
    by_cases hc : c = '\\' ∨ c = '\''
    · rw [if_pos hc]
      simp [stringLength?, ih]
    · obtain ⟨hescape, hquote⟩ := not_or.mp hc
      rw [if_neg hc, List.append_assoc, List.singleton_append, stringLength?_cons hquote hescape,
        ih]
      simp

lemma isLexeme_quote (text : List Char) : IsLexeme (.string, quote text) := by
  rw [quote_eq]
  refine .intro (by decide) fun rest _ => ?_
  have hlength := stringLength?_escapes text rest
  simp [lexeme?, hlength]

lemma resolveEscapes_escapes (text : List Char) : resolveEscapes (escapes text) = text := by
  induction text with
  | nil => rfl
  | cons c text ih =>
    rw [escapes_cons]
    by_cases hc : c = '\\' ∨ c = '\''
    · have hself : escaped c = c := by
        rcases hc with rfl | rfl <;> rfl
      rw [if_pos hc]
      simp [resolveEscapes, hself, ih]
    · have hescape : c ≠ '\\' := fun h => hc (.inl h)
      rw [if_neg hc, List.singleton_append, resolveEscapes, ih]
      exact fun _ _ h _ => hescape h

@[simp] theorem unescape_quote (text : List Char) : unescape (quote text) = text := by
  have hbetween : betweenQuotes? (quote text) = some (escapes text) := by
    simp [quote_eq, betweenQuotes?]
  rw [unescape, hbetween, Option.getD_some, resolveEscapes_escapes]

/-! ### Integers -/

section

variable {digits : List Char}

/-- The digits behind an integer are taken for its own. -/
lemma wholeLength_signed (negative : Bool) (hne : digits ≠ []) (h : ∀ c ∈ digits, c.isDigit)
    (rest : List Char) : wholeLength (Number.signed negative digits ++ rest) =
      (Number.signed negative digits).length + digitCount rest := by
  have hcount := digitCount_append h rest
  cases negative with
  | true =>
    simp only [wholeLength, Number.signed, if_true, List.cons_append, List.head?_cons,
      List.drop_succ_cons, List.drop_zero, hcount, List.length_cons]
    omega
  | false =>
    obtain ⟨c, tail, rfl⟩ := List.exists_cons_of_ne_nil hne
    have hminus : c ≠ '-' := Number.ne_of_isDigit (h c List.mem_cons_self) rfl
    simpa [wholeLength, Number.signed, hminus] using hcount

lemma numberLength_signed (negative : Bool) (hne : digits ≠ []) (h : ∀ c ∈ digits, c.isDigit)
    {rest : List Char} (hrest : Ends .number rest) :
    numberLength (Number.signed negative digits ++ rest) =
      (Number.signed negative digits).length := by
  have hnone : digitCount rest = 0 := digitCount_eq_zero (not_isDigit_of_ends rfl hrest)
  have hwhole := wholeLength_signed negative hne h rest
  rw [hnone, Nat.add_zero] at hwhole
  have hmantissa : mantissaLength (Number.signed negative digits ++ rest) =
      (Number.signed negative digits).length := by
    rw [mantissaLength, hwhole, List.drop_left, fractionLength_of_ends hrest, Nat.add_zero]
  rw [numberLength_eq, hmantissa, List.drop_left, exponentLength_of_ends hrest, Nat.add_zero]

lemma isLexeme_signed (negative : Bool) (hne : digits ≠ []) (h : ∀ c ∈ digits, c.isDigit) :
    IsLexeme (.number, Number.signed negative digits) := by
  obtain ⟨c, tail, rfl⟩ := List.exists_cons_of_ne_nil hne
  have hc : c.isDigit := h c List.mem_cons_self
  cases negative with
  | true =>
    refine .intro (by decide) fun rest hrest => ?_
    have hlength := numberLength_signed true hne h hrest
    have hbegins : ((c :: tail) ++ rest).head?.any Char.isDigit := hc
    rw [lexeme?_minus hbegins]
    simp only [Number.signed, if_true, List.cons_append, List.length_cons] at hlength ⊢
    rw [hlength, Nat.add_sub_cancel]
  | false =>
    refine .intro (isBlank_of_isDigit hc) fun rest hrest => ?_
    have hlength := numberLength_signed false hne h hrest
    simp only [Number.signed, Bool.false_eq_true, if_false, List.cons_append,
      List.length_cons] at hlength
    rw [lexeme?_of_isDigit hc, hlength, Nat.add_sub_cancel]

lemma natural?_digits (hne : digits ≠ []) (h : ∀ c ∈ digits, c.isDigit) :
    Number.natural? digits = some (Number.ofDigits digits) := by
  have hall : digits.all Char.isDigit := List.all_eq_true.mpr h
  simp [Number.natural?, hne, hall]

lemma integer?_signed (negative : Bool) (hne : digits ≠ []) (h : ∀ c ∈ digits, c.isDigit) :
    Number.integer? (Number.signed negative digits) =
      some (Number.signedValue negative (Number.ofDigits digits)) := by
  cases negative with
  | true => simp [Number.signed, Number.integer?, natural?_digits hne h, Number.signedValue]
  | false =>
    obtain ⟨c, tail, rfl⟩ := List.exists_cons_of_ne_nil hne
    have hplus : c ≠ '+' := Number.ne_of_isDigit (h c List.mem_cons_self) rfl
    have hminus : c ≠ '-' := Number.ne_of_isDigit (h c List.mem_cons_self) rfl
    have hunsigned : Number.integer? (c :: tail) =
        (Number.natural? (c :: tail)).map Int.ofNat :=
      Number.integer?.eq_3 _ (fun _ heq => hplus (List.cons.inj heq).1)
        fun _ heq => hminus (List.cons.inj heq).1
    simp [Number.signed, Number.signedValue, hunsigned, natural?_digits hne h]

end

/-- The decimal digits of an integer, behind a minus where it is negative. -/
def integerImage (n : Int64) : List Char :=
  Number.signed (n.toInt < 0) (Nat.toDigits 10 n.toInt.natAbs)

lemma isLexeme_integerImage (n : Int64) : IsLexeme (.number, integerImage n) :=
  isLexeme_signed _ Nat.toDigits_ne_nil fun _ => Number.isDigit_of_mem_toDigits

/-- An integer is read back up to the ends of its range. -/
lemma ofNumber?_integerImage (n : Int64) :
    Value.ofNumber? (String.ofList (integerImage n)) = .ok (.int n) := by
  have hinteger : Number.integer? (integerImage n) = some n.toInt := by
    rw [integerImage, integer?_signed _ Nat.toDigits_ne_nil fun _ => Number.isDigit_of_mem_toDigits,
      Number.ofDigits_toDigits, Number.signedValue_natAbs]
  have hread : Number.int64? (integerImage n) = some n.toInt := by
    simp [Number.int64?, hinteger, Value.fitsInt64_toInt]
  simp [Value.ofNumber?, hread, Value.ofInt]

/-! ### Values -/

/-- The lexeme of a value that can be written where a value is compared. -/
def spelling? : Value → Option Lexeme
  | .string text => some (.string, quote text.toList)
  | .int n => some (.number, integerImage n)
  | .literal word =>
    if isIdentifier word.toList then some (.identifier, word.toList)
    else if isEntityIdentifier word.toList then some (.entityIdentifier, word.toList)
    else none
  | _ => none

section

variable {value : Value} {lexeme : Lexeme}

lemma isLexeme_of_spelling? (h : spelling? value = some lexeme) : IsLexeme lexeme := by
  cases value with
  | string text =>
    cases h
    exact isLexeme_quote _
  | int n =>
    cases h
    exact isLexeme_integerImage n
  | literal word =>
    simp only [spelling?] at h
    split at h
    · rename_i hname
      cases h
      exact isLexeme_of_isIdentifier hname
    · split at h
      · rename_i hname
        cases h
        exact isLexeme_of_isEntityIdentifier hname
      · cases h
  | _ => cases h

/-- A token that spells a value is read as the value, in every environment. -/
theorem primaryPhrase_of_spelling? (env : Environment) {token : Token}
    (h : spelling? value = some token.lexeme) (rest : List Token) :
    env.PrimaryPhrase (token :: rest) value rest := by
  cases value with
  | string text =>
    obtain ⟨hkind, himage⟩ : .string = token.kind ∧ quote text.toList = token.image := by
      simpa [spelling?, Token.lexeme] using h
    have hread :
        env.PrimaryPhrase (token :: rest) (.string (.ofList (unescape token.image))) rest :=
      .string rest hkind.symm
    rwa [← himage, unescape_quote, String.ofList_toList] at hread
  | int n =>
    obtain ⟨hkind, himage⟩ : .number = token.kind ∧ integerImage n = token.image := by
      simpa [spelling?, Token.lexeme] using h
    refine .number rest hkind.symm ?_
    rw [Token.text, ← himage, ofNumber?_integerImage]
  | literal word =>
    obtain ⟨hkind, himage⟩ : (token.kind = .identifier ∨ token.kind = .entityIdentifier) ∧
        word.toList = token.image := by
      simp only [spelling?, Token.lexeme] at h
      split at h
      · obtain ⟨hkind, himage⟩ := Prod.ext_iff.mp (Option.some.inj h)
        exact ⟨.inl hkind.symm, himage⟩
      · split at h
        · obtain ⟨hkind, himage⟩ := Prod.ext_iff.mp (Option.some.inj h)
          exact ⟨.inr hkind.symm, himage⟩
        · cases h
    obtain rfl : word = token.text := by simp [Token.text, ← himage]
    rcases hkind with hkind | hkind
    · exact .word (.intro rest hkind)
    · exact .entityWord (.intro rest hkind)
  | _ => cases h

end

/-! ### Phrases -/

lemma Phrase.Word.exists_token {kind : TokenKind} {text : String} {tokens rest : List Token}
    (h : Phrase.Word kind tokens text rest) :
    ∃ token : Token, tokens = token :: rest ∧ token.kind = kind := by
  obtain ⟨_, hkind⟩ := h
  exact ⟨_, rfl, hkind⟩

/-- Tokens of these lexemes are a stretch of the kind, whatever follows them. -/
def Takes (span : List Token → List Token → Prop) (lexemes : List Lexeme) : Prop :=
  ∀ front rest : List Token, front.map Token.lexeme = lexemes → span (front ++ rest) rest

namespace Takes

variable {first second span : List Token → List Token → Prop} {lexemes others : List Lexeme}

lemma mono (h : Takes first lexemes) (hspan : ∀ tokens rest, first tokens rest → span tokens rest) :
    Takes span lexemes :=
  fun front rest hfront => hspan _ _ (h front rest hfront)

lemma nil (h : ∀ tokens, span tokens tokens) : Takes span [] := by
  intro front rest hfront
  obtain rfl := List.map_eq_nil_iff.mp hfront
  exact h rest

lemma append (hfirst : Takes first lexemes) (hsecond : Takes second others)
    (h : ∀ tokens middle rest, first tokens middle → second middle rest → span tokens rest) :
    Takes span (lexemes ++ others) := by
  intro front rest hfront
  obtain ⟨left, right, rfl, hleft, hright⟩ := List.map_eq_append_iff.mp hfront
  rw [List.append_assoc]
  exact h _ _ _ (hfirst left _ hleft) (hsecond right _ hright)

lemma singleton {lexeme : Lexeme}
    (h : ∀ token : Token, token.lexeme = lexeme → ∀ rest, span (token :: rest) rest) :
    Takes span [lexeme] := by
  intro front rest hfront
  obtain ⟨token, rfl, htoken⟩ := List.map_eq_singleton_iff.mp hfront
  exact h token htoken rest

lemma word {kind : TokenKind} {image : List Char} :
    Takes (Phrase.Word kind · (String.ofList image) ·) [(kind, image)] := by
  refine .singleton fun token htoken rest => ?_
  obtain ⟨hkind, rfl⟩ := Prod.ext_iff.mp htoken
  exact .intro rest hkind

section

variable {α : Type} {item : Phrase α} {a : α} {kind : TokenKind} {image : List Char}

lemma after (h : Takes (item · a ·) lexemes) :
    Takes (Phrase.After kind item · a ·) ((kind, image) :: lexemes) :=
  word.append h fun _ _ _ hword h => by
    obtain ⟨token, rfl, hkind⟩ := hword.exists_token
    exact .intro hkind h

lemma enclosed {closing : TokenKind} {image' : List Char} (h : Takes (item · a ·) lexemes) :
    Takes (Phrase.Enclosed kind closing item · a ·)
      ((kind, image) :: (lexemes ++ [(closing, image')])) := by
  have hinner : Takes (fun tokens rest => ∃ last : Token, item tokens a (last :: rest) ∧
      last.kind = closing) (lexemes ++ [(closing, image')]) :=
    h.append word fun _ _ _ h hword => by
      obtain ⟨token, rfl, hkind⟩ := hword.exists_token
      exact ⟨token, h, hkind⟩
  exact word.append hinner fun _ _ _ hword h => by
    obtain ⟨token, rfl, hkind⟩ := hword.exists_token
    obtain ⟨last, h, hlast⟩ := h
    exact .intro hkind h hlast

/-- Items one after the other, a separator between every two. -/
lemma separated {spelled : α → List Lexeme} {first : α} {others : List α}
    (h : ∀ a ∈ first :: others, Takes (item · a ·) (spelled a)) :
    Takes (Phrase.Separated kind item · (first, others) ·)
      (spelled first ++ others.flatMap fun a => (kind, image) :: spelled a) := by
  obtain ⟨hfirst, hothers⟩ := List.forall_mem_cons.mp h
  have hmany : Takes (Phrase.Many (Phrase.After kind item) · others ·)
      (others.flatMap fun a => (kind, image) :: spelled a) := by
    clear h
    induction others with
    | nil => exact .nil .nil
    | cons next others ih =>
      obtain ⟨hnext, hothers⟩ := List.forall_mem_cons.mp hothers
      exact (after hnext).append (ih hothers) fun _ _ _ => .cons
  exact hfirst.append hmany fun _ _ _ => .intro

end

lemma primary (env : Environment) {value : Value} {lexeme : Lexeme}
    (h : spelling? value = some lexeme) : Takes (env.PrimaryPhrase · value ·) [lexeme] :=
  .singleton fun _ htoken rest => primaryPhrase_of_spelling? env (htoken ▸ h) rest

end Takes

end EntityGraph.Language
