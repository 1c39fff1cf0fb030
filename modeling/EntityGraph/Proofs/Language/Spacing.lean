import EntityGraph.Proofs.Language.Lexemes
import EntityGraph.Proofs.Language.Parsing
/-!
# Blanks between tokens

What a text is read as depends on the kinds and the images of its tokens alone. Where they stand is
told in messages only, so that a text with a single blank between every two of its tokens is read as
the same tree, or is not read either.
-/
namespace EntityGraph.Language

/-! ### Tokens that stand elsewhere -/

/-- The tokens with other places: `starts` gives that of a token by how many tokens follow it. -/
def moved (starts : ℕ → ℕ) : List Token → List Token
  | [] => []
  | token :: rest => { token with start := starts rest.length } :: moved starts rest

section

variable {starts : ℕ → ℕ} {tokens others : List Token}

/-- The tokens that are left keep their places when one more token stands before them. -/
lemma moved_congr {starts' : ℕ → ℕ} (h : ∀ n < tokens.length, starts n = starts' n) :
    moved starts tokens = moved starts' tokens := by
  induction tokens with
  | nil => rfl
  | cons token rest ih =>
    have hrest : moved starts rest = moved starts' rest :=
      ih fun n hn => h n (Nat.lt_succ_of_lt hn)
    rw [moved, moved, hrest, h rest.length (Nat.lt_succ_self _)]

/-- Tokens of the same kinds and images differ in their places alone. -/
lemma exists_eq_moved (h : others.map Token.lexeme = tokens.map Token.lexeme) :
    ∃ starts, others = moved starts tokens := by
  induction tokens generalizing others with
  | nil => exact ⟨id, List.map_eq_nil_iff.mp h⟩
  | cons token rest ih =>
    obtain ⟨⟨kind, image, start⟩, others, rfl, hfirst, hrest⟩ := List.map_eq_cons_iff.mp h
    obtain ⟨rfl, rfl⟩ : kind = token.kind ∧ image = token.image := Prod.ext_iff.mp hfirst
    obtain ⟨starts, rfl⟩ := ih hrest
    refine ⟨fun n => if n = rest.length then start else starts n, ?_⟩
    have hplaces : moved starts rest =
        moved (fun n => if n = rest.length then start else starts n) rest :=
      moved_congr fun n hn => (if_neg hn.ne).symm
    simp [moved, ← hplaces]

end

namespace Phrase

variable {α : Type} {item : Phrase α}

/-- The phrase reads the same where its tokens have other places. -/
def Movable (item : Phrase α) : Prop :=
  ∀ ⦃tokens : List Token⦄ ⦃a : α⦄ ⦃rest : List Token⦄, item tokens a rest →
    ∀ starts, item (moved starts tokens) a (moved starts rest)

lemma movable_word (kind : TokenKind) : (Word kind).Movable := by
  rintro _ _ rest ⟨_, hkind⟩ starts
  exact .intro (moved starts rest) hkind

namespace Movable

lemma after (h : item.Movable) (kind : TokenKind) : (After kind item).Movable := by
  rintro _ _ _ ⟨hkind, hitem⟩ starts
  exact .intro hkind (h hitem starts)

lemma enclosed (h : item.Movable) (opening closing : TokenKind) :
    (Enclosed opening closing item).Movable := by
  rintro _ _ _ ⟨hopening, hitem, hclosing⟩ starts
  have hmoved := h hitem starts
  exact .intro hopening hmoved hclosing

lemma optional (h : item.Movable) : (Optional item).Movable := by
  rintro _ _ _ (_ | hitem) starts
  · exact .absent _
  · exact .present (h hitem starts)

lemma many (h : item.Movable) : (Many item).Movable := by
  intro tokens items rest hmany starts
  induction hmany with
  | nil => exact .nil _
  | cons hitem _ ih => exact .cons (h hitem starts) ih

lemma separated (h : item.Movable) (separator : TokenKind) : (Separated separator item).Movable := by
  rintro _ _ _ ⟨hitem, hothers⟩ starts
  exact .intro (h hitem starts) ((h.after separator).many hothers starts)

end Movable

end Phrase

/-! ### Rules -/

lemma movable_variable : VariablePhrase.Movable := by
  rintro _ _ _ (h | h) starts
  · exact .field ((Phrase.movable_word _).after _ h starts)
  · exact .entity ((Phrase.movable_word _).after _ h starts)

namespace Environment

variable (env : Environment)

lemma movable_name (kind : TokenKind) (isName : List Char → Bool) :
    (env.NamePhrase kind isName).Movable := by
  rintro _ _ _ (h | ⟨h, hvalue, hname⟩) starts
  · exact .written (Phrase.movable_word kind h starts)
  · exact .resolved (movable_variable h starts) hvalue hname

lemma movable_field : env.FieldPhrase.Movable := env.movable_name _ _

lemma movable_entity : env.EntityPhrase.Movable := env.movable_name _ _

lemma movable_fieldPath : env.FieldPathPhrase.Movable := by
  rintro _ _ _ ⟨h⟩ starts
  exact .intro (env.movable_field.separated _ h starts)

lemma movable_primary : env.PrimaryPhrase.Movable := by
  intro tokens value rest h starts
  cases h with
  | string rest hkind => exact .string (moved starts rest) hkind
  | number rest hkind hvalue => exact .number (moved starts rest) hkind hvalue
  | word h => exact .word (Phrase.movable_word _ h starts)
  | entityWord h => exact .entityWord (Phrase.movable_word _ h starts)
  | resolved h hvalue hprimary => exact .resolved (movable_variable h starts) hvalue hprimary

lemma movable_operand : env.OperandPhrase.Movable := by
  rintro _ _ _ (h | h | h) starts
  · exact .true (Phrase.movable_word _ h starts)
  · exact .false (Phrase.movable_word _ h starts)
  · exact .primary (env.movable_primary h starts)

lemma movable_condition : env.ConditionPhrase.Movable := by
  intro tokens condition rest h starts
  cases h with
  | compare hcomparison hoperand =>
    exact .compare hcomparison (env.movable_operand hoperand starts)
  | isNull hequals hnull => exact .isNull hequals (Phrase.movable_word _ hnull starts)
  | isNotNull hdiffers hnull => exact .isNotNull hdiffers (Phrase.movable_word _ hnull starts)

lemma movable_fieldWhere : env.FieldWherePhrase.Movable := by
  rintro _ _ _ ⟨hpath, hcondition⟩ starts
  exact .intro (env.movable_fieldPath hpath starts) (env.movable_condition hcondition starts)

lemma movable_negation : env.NegationPhrase.Movable := by
  rintro _ _ _ (h | h) starts
  · exact .plain (env.movable_fieldWhere h starts)
  · exact .negated (env.movable_fieldWhere.after _ h starts)

lemma movable_conjunction : env.ConjunctionPhrase.Movable := by
  rintro _ _ _ ⟨h⟩ starts
  exact .intro (env.movable_negation.separated _ h starts)

lemma movable_disjunction : env.DisjunctionPhrase.Movable := by
  rintro _ _ _ ⟨h⟩ starts
  exact .intro (env.movable_conjunction.separated _ h starts)

lemma movable_clause : env.ClausePhrase.Movable := env.movable_disjunction.enclosed _ _

lemma movable_filter : env.FilterPhrase.Movable := by
  rintro _ _ _ ⟨hclause, hothers⟩ starts
  exact .intro (env.movable_clause hclause starts) (env.movable_clause.many hothers starts)

lemma movable_leaf : env.LeafPhrase.Movable := by
  rintro _ _ _ ⟨hpath, hequals, hvalue⟩ starts
  have hmoved := env.movable_fieldPath hpath starts
  exact .intro hmoved hequals (env.movable_primary hvalue starts)

lemma movable_uniqueWhere : env.UniqueWherePhrase.Movable := by
  rintro _ _ _ ⟨h, hpaths⟩ starts
  exact .intro ((env.movable_leaf.separated _).enclosed _ _ h starts) hpaths

lemma movable_step : env.StepPhrase.Movable := by
  rintro _ _ _ ⟨hfield, hreducedBy, hfilter⟩ starts
  exact .intro (env.movable_field hfield starts)
    (env.movable_uniqueWhere.optional hreducedBy starts) (env.movable_filter.optional hfilter starts)

lemma movable_steps : env.StepsPhrase.Movable := by
  rintro _ _ _ ⟨h⟩ starts
  exact .intro (env.movable_step.separated _ h starts)

lemma movable_tail : env.TailPhrase.Movable := (env.movable_step.after _).many

lemma movable_relativeField : env.RelativeFieldPhrase.Movable := by
  rintro _ _ _ ⟨h⟩ starts
  exact .intro (env.movable_steps h starts)

lemma movable_relativeList : env.RelativeListPhrase.Movable := by
  rintro _ _ _ ⟨h⟩ starts
  exact .intro (env.movable_steps h starts)

lemma movable_entityList : env.EntityListPhrase.Movable := by
  rintro _ _ _ ⟨hentity, hfilter, hpath⟩ starts
  exact .intro (env.movable_entity hentity starts) (env.movable_filter.optional hfilter starts)
    (env.movable_tail hpath starts)

lemma movable_fieldList : env.FieldListPhrase.Movable := by
  rintro _ _ _ ⟨hentity, hfilter, hrelative⟩ starts
  exact .intro (env.movable_entity hentity starts) (env.movable_filter.optional hfilter starts)
    (env.movable_relativeField.after _ hrelative starts)

lemma movable_singleEntity : env.SingleEntityPhrase.Movable := by
  rintro _ _ _ ⟨hentity, hwhich, hfilter, hpath⟩ starts
  exact .intro (env.movable_entity hentity starts) (env.movable_uniqueWhere hwhich starts)
    (env.movable_filter.optional hfilter starts) (env.movable_tail hpath starts)

lemma movable_unfilteredList : env.UnfilteredListPhrase.Movable := by
  rintro _ _ _ ⟨hentity, hpath⟩ starts
  exact .intro (env.movable_entity hentity starts) (env.movable_tail hpath starts)

lemma movable_orderTerm : env.OrderTermPhrase.Movable := by
  rintro _ _ _ (hpath | ⟨hpath, hdirection⟩ | ⟨hpath, hdirection⟩) starts
  · exact .implicit (env.movable_fieldPath hpath starts)
  · exact .ascending (env.movable_fieldPath hpath starts) (Phrase.movable_word _ hdirection starts)
  · exact .descending (env.movable_fieldPath hpath starts) (Phrase.movable_word _ hdirection starts)

lemma movable_orderBy : env.OrderByPhrase.Movable := by
  rintro _ _ _ ⟨h⟩ starts
  exact .intro (env.movable_orderTerm.separated _ h starts)

end Environment

namespace EntryPoint

lemma movable_derives (env : Environment) (entry : EntryPoint) : (entry.Derives env).Movable := by
  cases entry with
  | qualifiedEntityList => exact env.movable_entityList
  | qualifiedFieldList => exact env.movable_fieldList
  | qualifiedSingleEntity => exact env.movable_singleEntity
  | unconstrainedQualifiedEntityList => exact env.movable_unfilteredList
  | relativeSingleField => exact env.movable_relativeField
  | relativeSingleEntity => exact env.movable_steps
  | relativeEntityList => exact env.movable_relativeList
  | uniqueWhere => exact env.movable_uniqueWhere
  | filter => exact env.movable_filter
  | orderBy => exact env.movable_orderBy

/-- The tree that is derived depends on the kinds and the images of the tokens alone. -/
lemma Derives.of_map_lexeme_eq {env : Environment} {entry : EntryPoint} {tokens others : List Token}
    {tree : entry.Tree} (h : entry.Derives env tokens tree [])
    (hothers : others.map Token.lexeme = tokens.map Token.lexeme) :
    entry.Derives env others tree [] := by
  obtain ⟨starts, rfl⟩ := exists_eq_moved hothers
  exact entry.movable_derives env h starts

end EntryPoint

/-! ### Whole texts -/

/-- The images of the tokens of a text with a single blank between every two of them. -/
def spaced (text : String) : String :=
  String.ofList ([' '].intercalate ((tokenize text.toList).tokens.map Token.image))

lemma cutInto_spaced (text : String) :
    CutInto (spaced text).toList ((tokenize text.toList).tokens.map Token.lexeme) := by
  have himages : ((tokenize text.toList).tokens.map Token.lexeme).map Prod.snd =
      (tokenize text.toList).tokens.map Token.image := by
    rw [List.map_map]
    rfl
  rw [spaced, String.toList_ofList, ← himages]
  refine cutInto_intercalate fun lexeme hlexeme => ?_
  obtain ⟨token, htoken, rfl⟩ := List.mem_map.mp hlexeme
  exact isLexeme_of_mem_tokenize htoken

/-- A text whose tokens make it up is cut into the same tokens when only single blanks are left
between them, and every rule reads the two as the same tree, or neither of them. -/
theorem parse_spaced {text : String} (h : (tokenize text.toList).errors = []) :
    (tokenize (spaced text).toList).errors = [] ∧
      (tokenize (spaced text).toList).tokens.map Token.lexeme =
        (tokenize text.toList).tokens.map Token.lexeme ∧
      ∀ (env : Environment) (entry : EntryPoint),
        (parse env entry (spaced text)).toOption = (parse env entry text).toOption := by
  obtain ⟨hmatched, hlexemes⟩ := cutInto_spaced text
  refine ⟨hmatched, hlexemes, fun env entry => ?_⟩
  obtain ⟨blocked, hreads⟩ := entry.reads_rule env
  have hparse (tree : entry.Tree) :
      parse env entry (spaced text) = .ok tree ↔ parse env entry text = .ok tree := by
    rw [parse, parse, hreads.run_eq_ok_iff, hreads.run_eq_ok_iff]
    constructor
    · exact fun ⟨_, hderives⟩ => ⟨h, hderives.of_map_lexeme_eq hlexemes.symm⟩
    · exact fun ⟨_, hderives⟩ => ⟨hmatched, hderives.of_map_lexeme_eq hlexemes⟩
  cases hspaced : parse env entry (spaced text) with
  | ok tree => rw [(hparse tree).mp hspaced]
  | error fault =>
    cases hread : parse env entry text with
    | error _ => rfl
    | ok tree =>
      rw [(hparse tree).mpr hread] at hspaced
      cases hspaced

/-- A number ends at the word behind it, and a string keeps the blank and the quote inside it. -/
theorem parse_spaced_filter :
    (tokenize "[a>=-3.5e2and\tb='x\\' y']".toList).errors = [] ∧
      (parse .empty .filter "[ a >= -3.5e2 and b = 'x\\' y' ]").toOption =
        (parse .empty .filter "[a>=-3.5e2and\tb='x\\' y']").toOption := by
  have h : (tokenize "[a>=-3.5e2and\tb='x\\' y']".toList).errors = [] := by
    with_unfolding_all rfl
  have hspaced : spaced "[a>=-3.5e2and\tb='x\\' y']" = "[ a >= -3.5e2 and b = 'x\\' y' ]" := by
    with_unfolding_all rfl
  obtain ⟨-, -, hparse⟩ := parse_spaced h
  rw [hspaced] at hparse
  exact ⟨h, hparse .empty .filter⟩

end EntityGraph.Language
