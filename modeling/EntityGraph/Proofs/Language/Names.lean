import EntityGraph.Proofs.Language.Literals
import EntityGraph.Proofs.Language.Parsing
/-!
# Names

What may stand for a name is told in two ways: by the characters of a text, and by the tokens that
the text is cut into. Both tell the same, so a variable holds a name exactly if the name could be
written where the variable stands.
-/
namespace EntityGraph.Language

/-- The text is one token, and of this kind. -/
def IsToken (kind : TokenKind) (text : List Char) : Prop := tokenize text = ⟨[⟨kind, text, 0⟩], []⟩

/-- The kinds of words that name something. -/
def IsNaming (kind : TokenKind) : Prop := kind = .identifier ∨ kind = .entityIdentifier

section

variable {kind : TokenKind} {text : List Char}

lemma lexeme?_eq_name {c : Char} {rest : List Char} {extra : ℕ} (hkind : IsNaming kind)
    (h : lexeme? c rest = some (kind, extra)) :
    isWordStart c ∧ wordKind (c :: rest.takeWhile isWordChar) = kind ∧
      (rest.takeWhile isWordChar).length = extra := by
  have hmark : isMark kind = false := by rcases hkind with rfl | rfl <;> rfl
  obtain ⟨-, hother, -⟩ | ⟨-, hother, -⟩ | hword := lexeme?_cases h hmark
  · rcases hkind with rfl | rfl <;> cases hother
  · rcases hkind with rfl | rfl <;> cases hother
  · exact hword

lemma isWordChar_of_isWordStart {c : Char} (h : isWordStart c) : isWordChar c := by
  have hparts : c.isAlpha ∨ c = '_' := by simpa [isWordStart] using h
  simp only [isWordChar, Char.isAlphanum, Bool.or_eq_true, beq_iff_eq]
  tauto

lemma word_of_isLexeme (hkind : IsNaming kind) (h : IsLexeme (kind, text)) :
    text.head?.any isWordStart ∧ text.all isWordChar ∧ wordKind text = kind := by
  obtain ⟨-, hread⟩ := h
  rename_i c tail
  obtain ⟨hstart, hword, hlength⟩ := lexeme?_eq_name hkind (hread [] (ends_nil kind))
  rw [List.append_nil] at hword hlength
  have hself : tail.takeWhile isWordChar = tail :=
    (List.takeWhile_prefix isWordChar).eq_of_length hlength
  rw [hself] at hword
  have htail : ∀ d ∈ tail, isWordChar d := List.takeWhile_eq_self_iff.mp hself
  refine ⟨hstart, List.all_eq_true.mpr ?_, hword⟩
  exact List.forall_mem_cons.mpr ⟨isWordChar_of_isWordStart hstart, htail⟩

lemma IsToken.isLexeme (h : IsToken kind text) : IsLexeme (kind, text) := by
  have htokens : tokenize text = ⟨[⟨kind, text, 0⟩], []⟩ := h
  have hmem : (⟨kind, text, 0⟩ : Token) ∈ (tokenize text).tokens := by simp [htokens]
  exact isLexeme_of_mem_tokenize hmem

/-- A text is a single name exactly if it is a word that is of the kind. -/
lemma isToken_iff (hkind : IsNaming kind) : IsToken kind text ↔
    text.head?.any isWordStart ∧ text.all isWordChar ∧ wordKind text = kind := by
  constructor
  · exact fun h => word_of_isLexeme hkind h.isLexeme
  · rintro ⟨hstart, hword, rfl⟩
    exact tokenize_of_isLexeme (isLexeme_word hstart hword)

lemma isIdentifier_iff_isToken : isIdentifier text ↔ IsToken .identifier text :=
  isIdentifier_iff.trans (isToken_iff (.inl rfl)).symm

lemma isEntityIdentifier_iff_isToken : isEntityIdentifier text ↔ IsToken .entityIdentifier text :=
  isEntityIdentifier_iff.trans (isToken_iff (.inr rfl)).symm

end

/-! ### Names that are read -/

/-- What may stand behind a dollar. -/
def NamesVariable (name : String) : Prop :=
  isIdentifier name.toList ∨ isEntityIdentifier name.toList

lemma isLexeme_dollar : IsLexeme (.dollar, ['$']) := .intro (by decide) fun _ _ => rfl

lemma NamesVariable.exists_isToken {name : String} (h : NamesVariable name) :
    ∃ kind, IsNaming kind ∧ IsToken kind name.toList := by
  rcases h with hfield | hentity
  · exact ⟨_, .inl rfl, isIdentifier_iff_isToken.mp hfield⟩
  · exact ⟨_, .inr rfl, isEntityIdentifier_iff_isToken.mp hentity⟩

lemma NamesVariable.tokenize_eq {name : String} (h : NamesVariable name) :
    (tokenize ("$" ++ name).toList).errors = [] ∧
      ∃ dollar word : Token, (tokenize ("$" ++ name).toList).tokens = [dollar, word] ∧
        dollar.kind = .dollar ∧ IsNaming word.kind ∧ word.text = name := by
  obtain ⟨kind, hkind, htoken⟩ := h.exists_isToken
  have hword : CutInto name.toList [(kind, name.toList)] := by
    have htokens : tokenize name.toList = ⟨[⟨kind, name.toList, 0⟩], []⟩ := htoken
    simp [CutInto, htokens, Token.lexeme]
  have hcut : CutInto ("$" ++ name).toList [(.dollar, ['$']), (kind, name.toList)] := by
    rw [String.toList_append]
    exact hword.cons isLexeme_dollar fun _ _ => rfl
  obtain ⟨hmatched, hlexemes⟩ := hcut
  obtain ⟨dollar, others, htokens, hdollar, hothers⟩ := List.map_eq_cons_iff.mp hlexemes
  obtain ⟨word, rfl, hlexeme⟩ := List.map_eq_singleton_iff.mp hothers
  obtain ⟨rfl, himage⟩ := Prod.mk.inj hlexeme
  refine ⟨hmatched, dollar, word, htokens, congrArg Prod.fst hdollar, hkind, ?_⟩
  rw [Token.text, himage, String.ofList_toList]

lemma variablePhrase_pair_iff {dollar word : Token} {name : String} {rest : List Token}
    (hdollar : dollar.kind = .dollar) (hword : IsNaming word.kind) :
    VariablePhrase [dollar, word] name rest ↔ name = word.text ∧ rest = [] := by
  constructor
  · rintro (⟨-, ⟨⟩⟩ | ⟨-, ⟨⟩⟩) <;> exact ⟨rfl, rfl⟩
  · rintro ⟨rfl, rfl⟩
    rcases hword with hkind | hkind
    · exact .field (.intro hdollar (.intro [] hkind))
    · exact .entity (.intro hdollar (.intro [] hkind))

section

variable {env : Environment} {kind : TokenKind} {isName : List Char → Bool} {rule : Parser String}
  (hreads : Reads rule (env.NamePhrase kind isName) [])
include hreads

/-- A text is read as the name that it is. -/
lemma run_self_iff (hname : ∀ word, isName word ↔ IsToken kind word) (text : String) :
    rule.run text = .ok text ↔ isName text.toList := by
  rw [hreads.run_eq_ok_iff]
  constructor
  · rintro ⟨-, h⟩
    generalize htokens : (tokenize text.toList).tokens = tokens at h
    cases h with
    | resolved _ _ h => exact h
    | written h =>
      obtain ⟨_, rfl⟩ := h
      rename_i token
      have hlexeme : IsLexeme token.lexeme :=
        isLexeme_of_mem_tokenize (htokens ▸ List.mem_cons_self)
      rw [hname, Token.text, String.toList_ofList]
      exact tokenize_of_isLexeme hlexeme
  · intro h
    have htokens : tokenize text.toList = ⟨[⟨kind, text.toList, 0⟩], []⟩ := (hname _).mp h
    have hword : Phrase.Word kind [⟨kind, text.toList, 0⟩] (Token.text ⟨kind, text.toList, 0⟩) [] :=
      .intro [] rfl
    rw [Token.text, String.ofList_toList] at hword
    rw [htokens]
    exact ⟨rfl, .written hword⟩

/-- A variable is read as the name that it holds. -/
lemma run_variable_iff {name : String} (h : NamesVariable name) (text : String) :
    rule.run ("$" ++ name) = .ok text ↔
      env.resolve name = .ok (.string text) ∧ isName text.toList := by
  obtain ⟨hmatched, dollar, word, htokens, hdollar, hword, rfl⟩ := h.tokenize_eq
  rw [hreads.run_eq_ok_iff, htokens, and_iff_right hmatched]
  constructor
  · intro hphrase
    cases hphrase with
    | written hwritten => cases hwritten
    | resolved hvariable hvalue hname =>
      obtain ⟨rfl, -⟩ := (variablePhrase_pair_iff hdollar hword).mp hvariable
      exact ⟨hvalue, hname⟩
  · rintro ⟨hvalue, hname⟩
    exact .resolved ((variablePhrase_pair_iff hdollar hword).mpr ⟨rfl, rfl⟩) hvalue hname

end

/-- A text has the shape of a name exactly if it is cut into a single token that names something of
this sort, and a variable is read as a name exactly if it holds a text that is itself read so. -/
theorem names_are_tokens (text : String) :
    (isIdentifier text.toList ↔ IsToken .identifier text.toList) ∧
      (isEntityIdentifier text.toList ↔ IsToken .entityIdentifier text.toList) ∧
      ∀ (env : Environment) (name : String), NamesVariable name →
        (env.fieldName.run ("$" ++ name) = .ok text ↔
          env.resolve name = .ok (.string text) ∧ env.fieldName.run text = .ok text) ∧
        (env.entityName.run ("$" ++ name) = .ok text ↔
          env.resolve name = .ok (.string text) ∧ env.entityName.run text = .ok text) := by
  refine ⟨isIdentifier_iff_isToken, isEntityIdentifier_iff_isToken, fun env name hname => ⟨?_, ?_⟩⟩
  · rw [run_variable_iff env.reads_fieldName hname,
      run_self_iff env.reads_fieldName fun _ => isIdentifier_iff_isToken]
  · rw [run_variable_iff env.reads_entityName hname,
      run_self_iff env.reads_entityName fun _ => isEntityIdentifier_iff_isToken]

/-- A word that begins like a keyword is a name. -/
theorem names_are_tokens_order :
    let env : Environment := { names := [("Which", .string "order")], dimensions := [] }
    NamesVariable "Which" ∧ IsToken .identifier "order".toList ∧
      env.fieldName.run "$Which" = .ok "order" := by
  intro env
  have hvariable : NamesVariable "Which" := .inr rfl
  have hshape : isIdentifier "order".toList := rfl
  obtain ⟨hfield, -, hread⟩ := names_are_tokens "order"
  have hwritten : env.fieldName.run "order" = .ok "order" := by
    with_unfolding_all rfl
  exact ⟨hvariable, hfield.mp hshape, (hread env "Which" hvariable).1.mpr ⟨rfl, hwritten⟩⟩

end EntityGraph.Language
