import EntityGraph.Proofs.Language.Spelling
/-!
# String literals

One reader finds where a string ends, and another one what it says. Both go through the same
symbols: a character that means itself, or a backslash and the character behind it, whatever that
is. So a quote ends a string exactly if no backslash is spent on it, and no backslash is left over.
-/
namespace EntityGraph.Language

/-- What stands for one character of a string. -/
inductive Symbol where
  | plain (c : Char) (hquote : c ≠ '\'') (hescape : c ≠ '\\')
  | escape (c : Char)

namespace Symbol

def chars : Symbol → List Char
  | plain c _ _ => [c]
  | escape c => ['\\', c]

def value : Symbol → Char
  | plain c _ _ => c
  | escape c => escaped c

end Symbol

/-- Whether resolving the escapes of a text comes to a backslash with nothing behind it. -/
def meetsLoneBackslash : List Char → Bool
  | [] => false
  | ['\\'] => true
  | '\\' :: _ :: rest => meetsLoneBackslash rest
  | _ :: rest => meetsLoneBackslash rest

/-! ### Where a string ends -/

lemma stringLength?_symbols (symbols : List Symbol) (rest : List Char) :
    stringLength? (symbols.flatMap Symbol.chars ++ '\'' :: rest) =
      some ((symbols.flatMap Symbol.chars).length + 1) := by
  induction symbols with
  | nil => rfl
  | cons symbol symbols ih =>
    cases symbol with
    | plain c hquote hescape => simp [Symbol.chars, stringLength?_cons hquote hescape, ih]
    | escape c => simp [Symbol.chars, stringLength?, ih]

lemma exists_symbols_of_stringLength? {text : List Char} {length : ℕ}
    (h : stringLength? text = some length) : ∃ (symbols : List Symbol) (rest : List Char),
      text = symbols.flatMap Symbol.chars ++ '\'' :: rest ∧
        length = (symbols.flatMap Symbol.chars).length + 1 := by
  induction text using stringLength?.induct generalizing length with
  | case1 => cases h
  | case2 rest =>
    cases h
    exact ⟨[], rest, rfl, rfl⟩
  | case3 => cases h
  | case4 c rest ih =>
    rw [stringLength?] at h
    obtain ⟨inner, hinner, rfl⟩ := Option.map_eq_some_iff.mp h
    obtain ⟨symbols, behind, rfl, rfl⟩ := ih hinner
    exact ⟨.escape c :: symbols, behind, rfl, by simp [Symbol.chars]⟩
  | case5 c rest hquote hlone hescape ih =>
    have hc : c ≠ '\\' := by
      rintro rfl
      cases rest with
      | nil => exact hlone rfl rfl
      | cons d rest => exact hescape d rest rfl rfl
    rw [stringLength?_cons hquote hc] at h
    obtain ⟨inner, hinner, rfl⟩ := Option.map_eq_some_iff.mp h
    obtain ⟨symbols, behind, rfl, rfl⟩ := ih hinner
    exact ⟨.plain c hquote hc :: symbols, behind, rfl, by simp [Symbol.chars]⟩

/-- Behind its opening quote the text has no quote that closes the string. -/
def Unclosed (text : List Char) : Prop :=
  ∀ (symbols : List Symbol) (rest : List Char), text ≠ symbols.flatMap Symbol.chars ++ '\'' :: rest

lemma stringLength?_eq_none_iff {text : List Char} : stringLength? text = none ↔ Unclosed text := by
  constructor
  · rintro h symbols rest rfl
    simp [stringLength?_symbols] at h
  · intro h
    rw [Option.eq_none_iff_forall_ne_some]
    intro length hlength
    obtain ⟨symbols, rest, htext, -⟩ := exists_symbols_of_stringLength? hlength
    exact h symbols rest htext

/-! ### What a string says -/

lemma resolveEscapes_symbols (symbols : List Symbol) :
    resolveEscapes (symbols.flatMap Symbol.chars) = symbols.map Symbol.value := by
  induction symbols with
  | nil => rfl
  | cons symbol symbols ih =>
    cases symbol with
    | plain c _ hescape =>
      rw [List.flatMap_cons, Symbol.chars, List.singleton_append, resolveEscapes, ih]
      · rfl
      · exact fun _ _ h _ => hescape h
    | escape c =>
      rw [List.flatMap_cons, Symbol.chars, List.cons_append, List.singleton_append, resolveEscapes,
        ih]
      rfl

lemma meetsLoneBackslash_symbols (symbols : List Symbol) :
    meetsLoneBackslash (symbols.flatMap Symbol.chars) = false := by
  induction symbols with
  | nil => rfl
  | cons symbol symbols ih =>
    cases symbol with
    | plain c _ hescape =>
      rw [List.flatMap_cons, Symbol.chars, List.singleton_append, meetsLoneBackslash, ih]
      · exact fun h _ => hescape h
      · exact fun _ _ h _ => hescape h
    | escape c =>
      rw [List.flatMap_cons, Symbol.chars, List.cons_append, List.singleton_append,
        meetsLoneBackslash, ih]

@[simp] lemma betweenQuotes?_quoted (inner : List Char) :
    betweenQuotes? ('\'' :: (inner ++ ['\''])) = some inner := by
  simp [betweenQuotes?]

/-! ### Tokens -/

lemma lexeme?_eq_string {c : Char} {rest : List Char} {extra : ℕ}
    (h : lexeme? c rest = some (.string, extra)) :
    c = '\'' ∧ stringLength? rest = some extra := by
  have hletter : goesOn .string 'a' ≠ isWordChar 'a' := by decide
  obtain ⟨hquote, -, hlength⟩ | ⟨-, hkind, -⟩ | ⟨-, hkind, -⟩ := lexeme?_cases h rfl
  · exact ⟨hquote, hlength⟩
  · cases hkind
  · exact absurd hkind (wordKind_ne hletter _)

/-- The token of a string is made up of symbols and the quotes around them. -/
lemma exists_symbols_of_mem_tokenize {text : List Char} {token : Token}
    (h : token ∈ (tokenize text).tokens) (hkind : token.kind = .string) :
    ∃ symbols : List Symbol, token.image = '\'' :: (symbols.flatMap Symbol.chars ++ ['\'']) := by
  obtain ⟨kind, image, start⟩ := token
  obtain rfl : kind = .string := hkind
  obtain ⟨-, hread⟩ : IsLexeme (.string, image) := isLexeme_of_mem_tokenize h
  obtain ⟨rfl, hlength⟩ := lexeme?_eq_string (hread [] (ends_nil _))
  obtain ⟨symbols, rest, htail, hwhole⟩ := exists_symbols_of_stringLength? hlength
  rw [List.append_nil] at htail
  subst htail
  obtain rfl : rest = [] := by simpa using hwhole
  exact ⟨symbols, rfl⟩

lemma tokenize_of_isLexeme {kind : TokenKind} {image : List Char} (h : IsLexeme (kind, image)) :
    tokenize image = ⟨[⟨kind, image, 0⟩], []⟩ := by
  obtain ⟨hblank, hread⟩ := h
  have halone := hread [] (ends_nil _)
  rw [List.append_nil] at halone
  rw [tokenize, pieces, if_neg (by simp [hblank]), halone]
  simp [joinUnmatched, pieces, Lexed.ofPieces]

/-- Every text can be written as a string, which is read as one token and says the text. And of any
input, both quotes of every string are found, its backslashes each have a character to apply to, and
it says the characters that its symbols stand for. -/
theorem strings_read_alike :
    (∀ text : List Char, tokenize (quote text) = ⟨[⟨.string, quote text, 0⟩], []⟩ ∧
      unescape (quote text) = text) ∧
    ∀ (text : List Char), ∀ token ∈ (tokenize text).tokens, token.kind = .string →
      ∃ symbols : List Symbol,
        betweenQuotes? token.image = some (symbols.flatMap Symbol.chars) ∧
        meetsLoneBackslash (symbols.flatMap Symbol.chars) = false ∧
        unescape token.image = symbols.map Symbol.value := by
  refine ⟨fun text => ⟨tokenize_of_isLexeme (isLexeme_quote text), unescape_quote text⟩, ?_⟩
  intro text token htoken hkind
  obtain ⟨symbols, himage⟩ := exists_symbols_of_mem_tokenize htoken hkind
  have hbetween : betweenQuotes? token.image = some (symbols.flatMap Symbol.chars) := by
    rw [himage, betweenQuotes?_quoted]
  refine ⟨symbols, hbetween, meetsLoneBackslash_symbols symbols, ?_⟩
  rw [unescape, hbetween, Option.getD_some, resolveEscapes_symbols]

/-- The quote in the middle has a backslash spent on it, and the one behind two has none. -/
theorem strings_read_alike_escaped :
    (tokenize "a = 'it\\'s\\\\' and".toList).tokens[2]? = some ⟨.string, "'it\\'s\\\\'".toList, 4⟩ ∧
      ∃ symbols : List Symbol,
        betweenQuotes? "'it\\'s\\\\'".toList = some (symbols.flatMap Symbol.chars) ∧
        meetsLoneBackslash (symbols.flatMap Symbol.chars) = false ∧
        "it's\\".toList = symbols.map Symbol.value := by
  have htoken : (tokenize "a = 'it\\'s\\\\' and".toList).tokens[2]? =
      some ⟨.string, "'it\\'s\\\\'".toList, 4⟩ := by
    with_unfolding_all rfl
  exact ⟨htoken, strings_read_alike.2 _ _ (List.mem_of_getElem? htoken) rfl⟩

end EntityGraph.Language
