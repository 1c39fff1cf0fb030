import EntityGraph.Proofs.Language.Derivation
import EntityGraph.Proofs.Language.Reading
/-!
# Parsing is derivation

Every rule of the grammar is read by its parser, and a text is an expression exactly if its tokens
can be derived from the entry point, as the same tree.
-/
namespace EntityGraph.Language

open EntityGraph.Language.Parser

/-- A list that is not empty, split before its last element. -/
lemma append_singleton_eq_cons_iff {α : Type} {path others : List α} {first last : α} :
    path ++ [last] = first :: others ↔
      path = (first :: others).dropLast ∧ last = others.getLastD first := by
  have hlast : (first :: others).getLast? = some (others.getLastD first) := by
    rw [List.getLast?_cons, List.getLastD_eq_getLast?]
  constructor
  · intro h
    rw [← h, List.getLast?_concat] at hlast
    exact ⟨by rw [← h, List.dropLast_concat], Option.some.inj hlast⟩
  · rintro ⟨rfl, rfl⟩
    exact List.dropLast_append_getLast? _ hlast

/-! ### Names -/

lemma begins_variable : VariablePhrase.Begins [.dollar] := by
  rintro tokens name rest (h | h)
  · exact Phrase.begins_after _ _ _ _ _ h
  · exact Phrase.begins_after _ _ _ _ _ h

lemma reads_variableName : Reads variableName VariablePhrase [] := by
  have hword := (Reads.expect .entityIdentifier).ite_comes (Reads.expect .identifier)
    (Phrase.begins_word .entityIdentifier) fun tokens name rest h _ =>
      (Phrase.begins_word .identifier).free h (by decide)
  have hname := (Reads.expect .dollar).bind_unblocked fun _ => hword
  refine hname.congr fun tokens name rest => ⟨?_, ?_⟩
  · rintro ⟨_, _, ⟨_, hkind⟩, h | h⟩
    · exact .entity ⟨hkind, h⟩
    · exact .field ⟨hkind, h⟩
  · rintro (⟨hkind, h⟩ | ⟨hkind, h⟩)
    · exact ⟨_, _, ⟨_, hkind⟩, .inr h⟩
    · exact ⟨_, _, ⟨_, hkind⟩, .inl h⟩

namespace Environment

variable (env : Environment)

lemma gives_resolved_iff {name : String} {tokens rest : List Token} {value : Value} :
    (env.resolved name).Gives tokens value rest ↔
      env.resolve name = .ok value ∧ rest = tokens := by
  rw [resolved, gives_ofExcept_iff]
  cases env.resolve name <;> simp [Except.mapError]

/-- A variable whose value has to be a name. -/
lemma reads_resolved {isName : List Char → Bool} {fault : Fault} {next : Value → Parser String}
    (hstring : ∀ text, next (.string text) = if isName text.toList then pure text else fail fault)
    (hother : ∀ value, (∀ text, value ≠ .string text) → next value = fail fault) (name : String) :
    Reads (env.resolved name >>= next)
      (fun tokens value rest => env.resolve name = .ok (.string value) ∧
        isName value.toList = true ∧ rest = tokens) [] where
  sound hgives := by
    obtain ⟨value, middle, hvalue, hrest⟩ := gives_bind_iff.mp hgives
    obtain ⟨hresolve, rfl⟩ := env.gives_resolved_iff.mp hvalue
    by_cases hshape : ∃ text, value = .string text
    · obtain ⟨text, rfl⟩ := hshape
      rw [hstring] at hrest
      split at hrest
      · rename_i hname
        obtain ⟨rfl, rfl⟩ := gives_pure_iff.mp hrest
        exact ⟨hresolve, hname, rfl⟩
      · exact absurd hrest not_gives_fail
    · rw [hother value fun text htext => hshape ⟨text, htext⟩] at hrest
      exact absurd hrest not_gives_fail
  complete := by
    rintro tokens text _ ⟨hresolve, hname, rfl⟩ -
    refine gives_bind_iff.mpr ⟨_, _, env.gives_resolved_iff.mpr ⟨hresolve, rfl⟩, ?_⟩
    rw [hstring, if_pos hname]
    exact gives_pure_iff.mpr ⟨rfl, rfl⟩

/-- A name, written or held by a variable. -/
lemma reads_name {kind : TokenKind} {isName : List Char → Bool} {next : String → Parser String}
    (hkind : kind ≠ .dollar)
    (hnext : ∀ name, Reads (next name) (fun tokens value rest =>
      env.resolve name = .ok (.string value) ∧ isName value.toList = true ∧ rest = tokens) []) :
    Reads (do if ← comes .dollar then variableName >>= next else expect kind)
      (env.NamePhrase kind isName) [] := by
  have hvariable := reads_variableName.bind_unblocked hnext
  refine (hvariable.ite_comes (Reads.expect kind) ?_ fun _ _ _ h _ => ?_).congr ?_
  · rintro tokens value rest ⟨name, middle, h, -⟩
    exact begins_variable _ _ _ h
  · exact (Phrase.begins_word kind).free h (by simpa using hkind)
  · intro tokens name rest
    constructor
    · rintro (⟨own, middle, h, hvalue, hname, rfl⟩ | h)
      · exact .resolved h hvalue hname
      · exact .written h
    · rintro (h | ⟨h, hvalue, hname⟩)
      · exact .inr h
      · exact .inl ⟨_, _, h, hvalue, hname, rfl⟩

lemma reads_fieldName : Reads env.fieldName env.FieldPhrase [] := by
  refine env.reads_name (by decide) fun name =>
    env.reads_resolved (fun _ => rfl) (fun value hvalue => ?_) name
  cases value <;> first | rfl | exact absurd rfl (hvalue _)

lemma reads_entityName : Reads env.entityName env.EntityPhrase [] := by
  refine env.reads_name (by decide) fun name =>
    env.reads_resolved (fun _ => rfl) (fun value hvalue => ?_) name
  cases value <;> first | rfl | exact absurd rfl (hvalue _)

lemma reads_fieldPath : Reads env.fieldPath env.FieldPathPhrase [.dot] := by
  refine ((env.reads_fieldName.separated (by decide)).map fun path => path.1 :: path.2).congr ?_
  intro tokens path rest
  constructor
  · rintro ⟨⟨field, others⟩, h, rfl⟩
    exact .intro h
  · rintro ⟨h⟩
    exact ⟨_, h, rfl⟩

/-! ### Conditions -/

lemma begins_primary : env.PrimaryPhrase.Begins
    [.string, .number, .identifier, .entityIdentifier, .dollar] := by
  rintro tokens value rest h
  cases h with
  | string rest hkind => exact ⟨_, rfl, by simp [hkind]⟩
  | number rest hkind _ => exact ⟨_, rfl, by simp [hkind]⟩
  | word h => exact (Phrase.begins_word _).mono (by simp) _ _ _ h
  | entityWord h => exact (Phrase.begins_word _).mono (by simp) _ _ _ h
  | resolved h _ _ => exact begins_variable.mono (by simp) _ _ _ h

/-- A value that may take the place of a literal. -/
lemma reads_primaryVariable : Reads (do
      let value ← env.resolved (← variableName)
      if isPrimary value then return value
      else fail (.unbound (.variableKind value.kindName)))
    (fun tokens value rest => ∃ name, VariablePhrase tokens name rest ∧
      env.resolve name = .ok value ∧ isPrimary value) [] where
  sound hgives := by
    obtain ⟨name, middle, hname, hvalue⟩ := gives_bind_iff.mp hgives
    obtain ⟨found, _, hfound, hchecked⟩ := gives_bind_iff.mp hvalue
    obtain ⟨hresolve, rfl⟩ := env.gives_resolved_iff.mp hfound
    split at hchecked
    · rename_i hprimary
      obtain ⟨rfl, rfl⟩ := gives_pure_iff.mp hchecked
      exact ⟨name, reads_variableName.sound hname, hresolve, hprimary⟩
    · exact absurd hchecked not_gives_fail
  complete := by
    rintro tokens value rest ⟨name, hname, hresolve, hprimary⟩ hfree
    refine gives_bind_iff.mpr ⟨name, rest, reads_variableName.complete hname hfree, ?_⟩
    refine gives_bind_iff.mpr ⟨value, rest, env.gives_resolved_iff.mpr ⟨hresolve, rfl⟩, ?_⟩
    rw [if_pos hprimary]
    exact gives_pure_iff.mpr ⟨rfl, rfl⟩

lemma reads_primaryValue : Reads env.primaryValue env.PrimaryPhrase [] where
  sound {tokens value rest} hgives := by
    obtain ⟨found, middle, hpeek, hgives⟩ := gives_bind_iff.mp hgives
    obtain ⟨rfl, rfl⟩ := gives_peek_iff.mp hpeek
    cases middle with
    | nil => exact absurd hgives not_gives_expected
    | cons token tail =>
      dsimp only [List.head?_cons] at hgives
      split at hgives
      · obtain ⟨rfl, rfl⟩ := gives_skip_pure_iff.mp hgives
        exact .string _ ‹_›
      · split at hgives
        · obtain ⟨rfl, rfl⟩ := gives_skip_pure_iff.mp hgives
          exact .number _ ‹_› ‹_›
        · exact absurd hgives not_gives_fail
      · obtain ⟨rfl, rfl⟩ := gives_skip_pure_iff.mp hgives
        exact .word (.intro _ ‹_›)
      · obtain ⟨rfl, rfl⟩ := gives_skip_pure_iff.mp hgives
        exact .entityWord (.intro _ ‹_›)
      · obtain ⟨name, hname, hresolve, hprimary⟩ := env.reads_primaryVariable.sound hgives
        exact .resolved hname hresolve hprimary
      · exact absurd hgives not_gives_expected
  complete := by
    rintro tokens value rest h hfree
    refine gives_bind_iff.mpr ⟨_, tokens, gives_peek_iff.mpr ⟨rfl, rfl⟩, ?_⟩
    cases h with
    | string rest hkind =>
      simp only [List.head?_cons, hkind]
      exact gives_skip_pure_iff.mpr ⟨rfl, rfl⟩
    | number rest hkind hvalue =>
      simp only [List.head?_cons, hkind, hvalue]
      exact gives_skip_pure_iff.mpr ⟨rfl, rfl⟩
    | word h =>
      obtain ⟨_, hkind⟩ := h
      simp only [List.head?_cons, hkind]
      exact gives_skip_pure_iff.mpr ⟨rfl, rfl⟩
    | entityWord h =>
      obtain ⟨_, hkind⟩ := h
      simp only [List.head?_cons, hkind]
      exact gives_skip_pure_iff.mpr ⟨rfl, rfl⟩
    | resolved h hvalue hprimary =>
      obtain ⟨token, htoken, hkind⟩ := begins_variable _ _ _ h
      obtain ⟨tail, rfl⟩ := List.head?_eq_some_iff.mp htoken
      simp only [List.head?_cons, List.mem_singleton.mp hkind]
      exact env.reads_primaryVariable.complete ⟨_, h, hvalue, hprimary⟩ hfree

/-- Without an operand there is null. -/
lemma reads_operand : Reads env.operand
    (fun tokens found rest => (found = none ∧ ∃ text, Phrase.Word .null tokens text rest) ∨
      ∃ value, found = some value ∧ env.OperandPhrase tokens value rest) [] := by
  obtain ⟨hfalse, hfalseBegins⟩ := Reads.keyword .false (some (Value.boolean false))
    (env.reads_primaryValue.map some) (env.begins_primary.map some) (by decide)
  obtain ⟨htrue, htrueBegins⟩ := Reads.keyword .true (some (Value.boolean true)) hfalse
    hfalseBegins (by decide)
  obtain ⟨hnull, -⟩ := Reads.keyword .null none htrue htrueBegins (by decide)
  refine hnull.congr fun tokens found rest => or_congr_right ⟨?_, ?_⟩
  · rintro (⟨rfl, text, h⟩ | ⟨rfl, text, h⟩ | ⟨value, h, rfl⟩)
    · exact ⟨_, rfl, .true h⟩
    · exact ⟨_, rfl, .false h⟩
    · exact ⟨value, rfl, .primary h⟩
  · rintro ⟨value, rfl, h | h | h⟩
    · exact .inl ⟨rfl, _, h⟩
    · exact .inr (.inl ⟨rfl, _, h⟩)
    · exact .inr (.inr ⟨value, h, rfl⟩)

/-- Only equality and its opposite can be tested for null. -/
lemma nullTest?_eq_some_iff {kind : TokenKind} {comparison : Comparison} {condition : Condition}
    (h : comparison? kind = some comparison) :
    nullTest? comparison = some condition ↔
      kind = .equals ∧ condition = .null true ∨ kind = .notEquals ∧ condition = .null false := by
  cases kind <;> cases h <;> simp [nullTest?, eq_comm]

lemma begins_condition : env.ConditionPhrase.Begins
    [.equals, .notEquals, .lower, .lowerEqual, .greater, .greaterEqual] := by
  rintro tokens condition rest h
  cases h with
  | @compare token _ _ _ _ hcomparison _ =>
    refine ⟨token, rfl, ?_⟩
    cases hkind : token.kind <;> simp [comparison?, hkind] at hcomparison <;> decide
  | isNull hequals _ => exact ⟨_, rfl, by simp [hequals]⟩
  | isNotNull hdiffers _ => exact ⟨_, rfl, by simp [hdiffers]⟩

lemma reads_condition : Reads env.condition env.ConditionPhrase [] where
  sound {tokens condition rest} hgives := by
    obtain ⟨found, middle, hpeek, hmatched⟩ := gives_bind_iff.mp hgives
    obtain ⟨rfl, rfl⟩ := gives_peek_iff.mp hpeek
    split at hmatched
    · exact absurd hmatched not_gives_expected
    · rename_i comparison hfirst
      obtain ⟨token, htoken, hcomparison⟩ := Option.bind_eq_some_iff.mp hfirst
      obtain ⟨tail, rfl⟩ := List.head?_eq_some_iff.mp htoken
      obtain ⟨_, _, hskip, hcompared⟩ := gives_bind_iff.mp hmatched
      obtain rfl := gives_skip_iff.mp hskip
      obtain ⟨operand, last, hoperand, hchecked⟩ := gives_bind_iff.mp hcompared
      obtain ⟨rfl, text, hnull⟩ | ⟨value, rfl, hvalue⟩ := env.reads_operand.sound hoperand
      · dsimp only at hchecked
        split at hchecked
        · rename_i test htest
          obtain ⟨rfl, rfl⟩ := gives_pure_iff.mp hchecked
          obtain ⟨hkind, rfl⟩ | ⟨hkind, rfl⟩ := (nullTest?_eq_some_iff hcomparison).mp htest
          · exact .isNull hkind hnull
          · exact .isNotNull hkind hnull
        · exact absurd hchecked not_gives_fail
      · obtain ⟨rfl, rfl⟩ := gives_pure_iff.mp hchecked
        exact .compare hcomparison hvalue
  complete := by
    rintro _ _ _ h hfree
    refine gives_bind_iff.mpr ⟨_, _, gives_peek_iff.mpr ⟨rfl, rfl⟩, ?_⟩
    cases h with
    | compare hcomparison hoperand =>
      simp only [List.head?_cons, Option.bind_some, hcomparison]
      refine gives_bind_iff.mpr ⟨(), _, gives_skip_iff.mpr rfl, ?_⟩
      have hsome := env.reads_operand.complete (.inr ⟨_, rfl, hoperand⟩) hfree
      exact gives_bind_iff.mpr ⟨_, _, hsome, gives_pure_iff.mpr ⟨rfl, rfl⟩⟩
    | isNull hequals hnull =>
      simp only [List.head?_cons, Option.bind_some, hequals, comparison?]
      refine gives_bind_iff.mpr ⟨(), _, gives_skip_iff.mpr rfl, ?_⟩
      have hnone := env.reads_operand.complete (.inl ⟨rfl, _, hnull⟩) hfree
      exact gives_bind_iff.mpr ⟨_, _, hnone, gives_pure_iff.mpr ⟨rfl, rfl⟩⟩
    | isNotNull hdiffers hnull =>
      simp only [List.head?_cons, Option.bind_some, hdiffers, comparison?]
      refine gives_bind_iff.mpr ⟨(), _, gives_skip_iff.mpr rfl, ?_⟩
      have hnone := env.reads_operand.complete (.inl ⟨rfl, _, hnull⟩) hfree
      exact gives_bind_iff.mpr ⟨_, _, hnone, gives_pure_iff.mpr ⟨rfl, rfl⟩⟩

/-! ### Filters -/

lemma reads_fieldWhere : Reads env.fieldWhere env.FieldWherePhrase [] := by
  have hpath := env.reads_fieldPath.bind
    (fun path => env.reads_condition.map fun condition => Filter.atPath condition path)
    fun path _ _ _ h _ => (env.begins_condition.map _).free h (by decide)
  refine hpath.congr fun tokens filter rest => ⟨?_, ?_⟩
  · rintro ⟨path, middle, hpath, condition, hcondition, rfl⟩
    exact .intro hpath hcondition
  · rintro ⟨hpath, hcondition⟩
    exact ⟨_, _, hpath, _, hcondition, rfl⟩

lemma begins_fieldPath : env.FieldPathPhrase.Begins [.identifier, .dollar] := by
  rintro tokens path rest ⟨⟨hfield, -⟩⟩
  cases hfield with
  | written h => exact (Phrase.begins_word _).mono (by simp) _ _ _ h
  | resolved h _ _ => exact begins_variable.mono (by simp) _ _ _ h

lemma reads_negation : Reads env.negation env.NegationPhrase [] := by
  have hnot : Reads (do
      if ← accept .not then Filter.negation <$> env.fieldWhere else env.fieldWhere) _ [] :=
    (env.reads_fieldWhere.map Filter.negation).ite_accept env.reads_fieldWhere
      fun _ _ _ h _ => by
        obtain ⟨hpath, -⟩ := h
        exact env.begins_fieldPath.free hpath (by decide)
  refine hnot.congr fun tokens filter rest => ⟨?_, ?_⟩
  · rintro (⟨hkind, own, h, rfl⟩ | h)
    · exact .negated ⟨hkind, h⟩
    · exact .plain h
  · rintro (h | ⟨hkind, h⟩)
    · exact .inr h
    · exact .inl ⟨hkind, _, h, rfl⟩

lemma reads_conjunction : Reads env.conjunction env.ConjunctionPhrase [.and] := by
  refine ((env.reads_negation.separated (by decide)).map (combine .all)).congr ?_
  intro tokens filter rest
  constructor
  · rintro ⟨operands, h, rfl⟩
    exact .intro h
  · rintro ⟨h⟩
    exact ⟨_, h, rfl⟩

lemma reads_disjunction : Reads env.disjunction env.DisjunctionPhrase [.or, .and] := by
  refine ((env.reads_conjunction.separated (by decide)).map (combine .any)).congr ?_
  intro tokens filter rest
  constructor
  · rintro ⟨operands, h, rfl⟩
    exact .intro h
  · rintro ⟨h⟩
    exact ⟨_, h, rfl⟩

lemma reads_clause : Reads env.clause (fun tokens filter rest => ∃ last : Token,
    env.DisjunctionPhrase tokens filter (last :: rest) ∧ last.kind = .rightBracket) [] := by
  have hclosed := env.reads_disjunction.bind
    (fun filter => (Reads.expect .rightBracket).map fun _ => filter)
    fun filter _ _ _ h _ => ((Phrase.begins_word .rightBracket).map _).free h (by decide)
  refine hclosed.congr fun tokens filter rest => ⟨?_, ?_⟩
  · rintro ⟨own, _, h, _, ⟨_, hkind⟩, rfl⟩
    exact ⟨_, h, hkind⟩
  · rintro ⟨last, h, hkind⟩
    exact ⟨filter, _, h, _, .intro rest hkind, rfl⟩

lemma after_leftBracket_iff {tokens rest : List Token} {filter : Filter} :
    Phrase.After .leftBracket (fun tokens filter rest => ∃ last : Token,
        env.DisjunctionPhrase tokens filter (last :: rest) ∧ last.kind = .rightBracket)
        tokens filter rest ↔ env.ClausePhrase tokens filter rest := by
  constructor
  · rintro ⟨hopening, last, h, hclosing⟩
    exact ⟨hopening, h, hclosing⟩
  · rintro ⟨hopening, h, hclosing⟩
    exact ⟨hopening, _, h, hclosing⟩

lemma reads_filter : Reads env.filter env.FilterPhrase [.leftBracket] := by
  have hseparated : Reads (Parser.separated .leftBracket env.clause) _ [.leftBracket] :=
    env.reads_clause.separated List.not_mem_nil
  have hclauses := (Reads.expect .leftBracket).bind_unblocked fun _ =>
    hseparated.map (combine .all)
  refine hclauses.congr fun tokens filter rest => ⟨?_, ?_⟩
  · rintro ⟨_, _, ⟨_, hkind⟩, ⟨clause, others⟩, ⟨hclause, hothers⟩, rfl⟩
    exact .intro (env.after_leftBracket_iff.mp ⟨hkind, hclause⟩)
      (hothers.mono fun _ _ _ => env.after_leftBracket_iff.mp)
  · rintro ⟨hclause, hothers⟩
    obtain ⟨hkind, hclosed⟩ := env.after_leftBracket_iff.mpr hclause
    have hmany := hothers.mono fun _ _ _ => env.after_leftBracket_iff.mpr
    exact ⟨_, _, .intro _ hkind, _, .intro hclosed hmany, rfl⟩

lemma begins_filter : env.FilterPhrase.Begins [.leftBracket] := by
  rintro tokens filter rest ⟨h, -⟩
  exact Phrase.begins_enclosed _ _ _ _ _ _ h

lemma reads_optionalFilter :
    Reads env.optionalFilter (Phrase.Optional env.FilterPhrase) [.leftBracket] :=
  (env.reads_filter.optional env.begins_filter).mono (by simp)

/-! ### Unique wheres -/

lemma path_ne_nil {tokens rest : List Token} {leaf : List String × Value}
    (h : env.LeafPhrase tokens leaf rest) : leaf.1 ≠ [] := by
  obtain ⟨⟨-⟩, -, -⟩ := h
  exact List.cons_ne_nil _ _

lemma reads_leaf (which : UniqueWhere) : Reads (env.leaf which)
    (fun tokens after rest => ∃ leaf, env.LeafPhrase tokens leaf rest ∧
      which.assign leaf.1 leaf.2 = (.ok (), after)) [] where
  sound {tokens after rest} hgives := by
    obtain ⟨path, middle, hpath, hclosed⟩ := gives_bind_iff.mp hgives
    obtain ⟨_, last, hequals, hvalued⟩ := gives_bind_iff.mp hclosed
    obtain ⟨value, final, hvalue, hassigned⟩ := gives_bind_iff.mp hvalued
    obtain ⟨_, hkind⟩ := gives_expect_iff.mp hequals
    have hleaf : env.LeafPhrase tokens (path, value) final :=
      .intro (env.reads_fieldPath.sound hpath) hkind (env.reads_primaryValue.sound hvalue)
    split at hassigned
    · rename_i next hassign
      obtain ⟨rfl, rfl⟩ := gives_pure_iff.mp hassigned
      exact ⟨(path, value), hleaf, hassign⟩
    · exact absurd hassigned not_gives_fail
  complete := by
    rintro tokens after rest ⟨⟨path, value⟩, ⟨hpath, hkind, hvalue⟩, hassign⟩ hfree
    have hfirst := env.reads_fieldPath.complete hpath (free_cons.mpr (by rw [hkind]; decide))
    refine gives_bind_iff.mpr ⟨path, _, hfirst, ?_⟩
    refine gives_bind_iff.mpr ⟨_, _, gives_expect_iff.mpr (.intro _ hkind), ?_⟩
    refine gives_bind_iff.mpr ⟨value, rest, env.reads_primaryValue.complete hvalue hfree, ?_⟩
    rw [hassign]
    exact gives_pure_iff.mpr ⟨rfl, rfl⟩

lemma paths_ne_nil {tokens rest : List Token} {leaves : List (List String × Value)}
    (h : Phrase.Many (Phrase.After .comma env.LeafPhrase) tokens leaves rest) :
    ∀ leaf ∈ leaves, leaf.1 ≠ [] :=
  h.forall_mem fun _ _ _ hleaf => by
    obtain ⟨-, hleaf⟩ := hleaf
    exact env.path_ne_nil hleaf

/-- Leaves are assigned as they are read. -/
lemma repeated_leaf_iff {tokens rest : List Token} {start which : UniqueWhere} :
    Phrase.Repeated .comma (fun which tokens after rest => ∃ leaf,
        env.LeafPhrase tokens leaf rest ∧ which.assign leaf.1 leaf.2 = (.ok (), after))
        start tokens which rest ↔
      ∃ leaves, Phrase.Many (Phrase.After .comma env.LeafPhrase) tokens leaves rest ∧
        start.Assigned leaves which := by
  constructor
  · intro h
    induction h with
    | done => exact ⟨[], .nil _, UniqueWhere.assigned_nil.mpr rfl⟩
    | more hstep _ ih =>
      obtain ⟨hkind, leaf, hleaf, hassign⟩ := hstep
      obtain ⟨leaves, hleaves, hassigned⟩ := ih
      refine ⟨leaf :: leaves, .cons ⟨hkind, hleaf⟩ hleaves, ?_⟩
      exact (UniqueWhere.assigned_cons (env.path_ne_nil hleaf) (env.paths_ne_nil hleaves)).mpr
        ⟨_, hassign, hassigned⟩
  · rintro ⟨leaves, hleaves, hassigned⟩
    induction hleaves generalizing start with
    | nil =>
      obtain rfl := UniqueWhere.assigned_nil.mp hassigned
      exact .done _ _
    | cons hleaf hothers ih =>
      obtain ⟨hkind, hleaf⟩ := hleaf
      obtain ⟨next, hassign, hassigned⟩ :=
        (UniqueWhere.assigned_cons (env.path_ne_nil hleaf) (env.paths_ne_nil hothers)).mp hassigned
      exact .more ⟨hkind, _, hleaf, hassign⟩ (ih hassigned)

lemma reads_uniqueWhere : Reads env.uniqueWhere env.UniqueWherePhrase [] := by
  have hclosing (which : UniqueWhere) := (Reads.expect .rightParenthesis).map fun _ => which
  have hothers (start : UniqueWhere) : Reads (do
      let which ← iterate .comma env.leaf start
      let _ ← expect .rightParenthesis
      return which) _ [] :=
    (Reads.iterate env.reads_leaf List.not_mem_nil start).bind hclosing fun which _ _ _ h _ =>
      ((Phrase.begins_word .rightParenthesis).map _).free h (by decide)
  have hleaves := (env.reads_leaf .empty).bind_unblocked hothers
  have hopening := (Reads.expect .leftParenthesis).bind_unblocked fun _ => hleaves
  refine hopening.congr fun tokens which rest => ⟨?_, ?_⟩
  · rintro ⟨_, _, ⟨_, hopens⟩, start, _, ⟨leaf, hleaf, hassign⟩, _, _, hrepeated, _, ⟨_, hcloses⟩,
      rfl⟩
    obtain ⟨others, hmany, hassigned⟩ := env.repeated_leaf_iff.mp hrepeated
    have hall := (UniqueWhere.assigned_cons (env.path_ne_nil hleaf) (env.paths_ne_nil hmany)).mpr
      ⟨start, hassign, hassigned⟩
    obtain ⟨hincomparable, rfl⟩ := UniqueWhere.assigned_empty_iff.mp hall
    exact .intro ⟨hopens, ⟨hleaf, hmany⟩, hcloses⟩ hincomparable
  · rintro ⟨⟨hopens, ⟨hleaf, hmany⟩, hcloses⟩, hincomparable⟩
    have hall := UniqueWhere.assigned_empty_iff.mpr ⟨hincomparable, rfl⟩
    obtain ⟨start, hassign, hassigned⟩ :=
      (UniqueWhere.assigned_cons (env.path_ne_nil hleaf) (env.paths_ne_nil hmany)).mp hall
    have hrepeated := env.repeated_leaf_iff.mpr ⟨_, hmany, hassigned⟩
    exact ⟨_, _, .intro _ hopens, start, _, ⟨_, hleaf, hassign⟩, _, _, hrepeated, _,
      .intro _ hcloses, rfl⟩

lemma begins_uniqueWhere : env.UniqueWherePhrase.Begins [.leftParenthesis] := by
  rintro tokens which rest ⟨h, -⟩
  exact Phrase.begins_enclosed _ _ _ _ _ _ h

/-! ### Paths -/

lemma reads_step : Reads env.step env.StepPhrase [.leftParenthesis, .leftBracket] := by
  have hfilter (field : String) (reducedBy : Option UniqueWhere) :=
    (env.reads_optionalFilter.map fun filter =>
      (⟨field, filter, reducedBy⟩ : Step Filter UniqueWhere)).mono
        (List.subset_cons_self .leftParenthesis _)
  have hreduced (field : String) :=
    (env.reads_uniqueWhere.optional env.begins_uniqueWhere).bind (hfilter field)
      fun reducedBy _ _ _ h hfree => by
        obtain ⟨filter, h, -⟩ := h
        exact h.free env.begins_filter (by decide) (hfree.mono (by simp))
  have hstep := env.reads_fieldName.bind_unblocked fun field => (hreduced field).ite_comes_bind
  refine hstep.congr fun tokens step rest => ⟨?_, ?_⟩
  · rintro ⟨field, _, hfield, reducedBy, _, hreducedBy, filter, hfilter, rfl⟩
    exact .intro hfield hreducedBy hfilter
  · rintro ⟨hfield, hreducedBy, hfilter⟩
    exact ⟨_, _, hfield, _, _, hreducedBy, _, hfilter, rfl⟩

lemma reads_steps :
    Reads env.steps (Phrase.Separated .dot env.StepPhrase) [.dot, .leftParenthesis, .leftBracket] :=
  env.reads_step.separated (by decide)

lemma reads_relativeSingleEntity : Reads env.relativeSingleEntity env.StepsPhrase
    [.dot, .leftParenthesis, .leftBracket] := by
  refine (env.reads_steps.map fun steps => steps.1 :: steps.2).congr ?_
  intro tokens steps rest
  constructor
  · rintro ⟨⟨step, others⟩, h, rfl⟩
    exact .intro h
  · rintro ⟨h⟩
    exact ⟨_, h, rfl⟩

lemma reads_path : Reads env.path
    (fun tokens path rest => env.StepsPhrase tokens (path.1 ++ [path.2]) rest)
    [.dot, .leftParenthesis, .leftBracket] := by
  refine (env.reads_steps.map fun steps =>
    ((steps.1 :: steps.2).dropLast, steps.2.getLastD steps.1)).congr ?_
  intro tokens path rest
  constructor
  · rintro ⟨⟨step, others⟩, h, rfl⟩
    rw [append_singleton_eq_cons_iff.mpr ⟨rfl, rfl⟩]
    exact .intro h
  · intro h
    generalize hall : path.1 ++ [path.2] = all at h
    obtain ⟨h⟩ := h
    obtain ⟨hpath, hlast⟩ := append_singleton_eq_cons_iff.mp hall
    exact ⟨_, h, Prod.ext hpath hlast⟩

lemma reads_relativeSingleField : Reads env.relativeSingleField env.RelativeFieldPhrase
    [.dot, .leftParenthesis, .leftBracket] := by
  have hchecked := env.reads_path.bind
    (fun path => Reads.guarded (path.2.reducedBy.isSome || path.2.filter.isSome)
      (.unbound (.restrictedField path.2.field))
      (⟨path.1, path.2.field⟩ : RelativeField Filter UniqueWhere))
    fun path _ _ _ h hfree => by
      obtain ⟨-, -, rfl⟩ := h
      exact hfree
  refine hchecked.congr fun tokens relative rest => ⟨?_, ?_⟩
  · rintro ⟨⟨path, ⟨field, filter, reducedBy⟩⟩, _, h, hplain, rfl, rfl⟩
    obtain ⟨rfl, rfl⟩ : reducedBy = none ∧ filter = none := by simpa using hplain
    exact .intro h
  · rintro ⟨h⟩
    exact ⟨(_, ⟨_, none, none⟩), _, h, by simp, rfl, rfl⟩

lemma reads_relativeEntityList : Reads env.relativeEntityList env.RelativeListPhrase
    [.dot, .leftParenthesis, .leftBracket] := by
  have hchecked := env.reads_path.bind
    (fun path => Reads.guarded path.2.reducedBy.isSome (.unbound (.reducedList path.2.field))
      (⟨path.1, path.2.field, path.2.filter⟩ : RelativeList Filter UniqueWhere))
    fun path _ _ _ h hfree => by
      obtain ⟨-, -, rfl⟩ := h
      exact hfree
  refine hchecked.congr fun tokens relative rest => ⟨?_, ?_⟩
  · rintro ⟨⟨path, ⟨field, filter, reducedBy⟩⟩, _, h, hplain, rfl, rfl⟩
    obtain rfl : reducedBy = none := by simpa using hplain
    exact .intro h
  · rintro ⟨h⟩
    exact ⟨(_, ⟨_, _, none⟩), _, h, by simp, rfl, rfl⟩

/-! ### Entities -/

lemma free_of_tail {tokens rest : List Token} {path : List (Step Filter UniqueWhere)}
    (h : env.TailPhrase tokens path rest)
    (hrest : Free [.dot, .leftParenthesis, .leftBracket] rest) : Free [.leftBracket] tokens := by
  have hfree : Free [.leftParenthesis, .leftBracket] tokens :=
    Reads.free_of_many (by decide) h hrest
  exact hfree.mono (by simp)

lemma reads_qualifiedEntityList : Reads env.qualifiedEntityList env.EntityListPhrase
    [.dot, .leftParenthesis, .leftBracket] := by
  have hpath (entity : String) (filter : Option Filter) :=
    (env.reads_step.following (show TokenKind.dot ∉ _ by decide)).map fun path =>
      (⟨entity, filter, path⟩ : EntityList Filter UniqueWhere)
  have hfilter (entity : String) := env.reads_optionalFilter.bind (hpath entity)
    fun _ _ _ _ h hfree => by
      obtain ⟨path, h, -⟩ := h
      exact env.free_of_tail h hfree
  have hentity := env.reads_entityName.bind_unblocked hfilter
  refine hentity.congr fun tokens list rest => ⟨?_, ?_⟩
  · rintro ⟨entity, _, hentity, filter, _, hfilter, path, hpath, rfl⟩
    exact .intro hentity hfilter hpath
  · rintro ⟨hentity, hfilter, hpath⟩
    exact ⟨_, _, hentity, _, _, hfilter, _, hpath, rfl⟩

lemma reads_qualifiedFieldList : Reads env.qualifiedFieldList env.FieldListPhrase
    [.dot, .leftParenthesis, .leftBracket] := by
  have hrelative (entity : String) (filter : Option Filter) :=
    (Reads.expect .dot).bind_unblocked fun _ => env.reads_relativeSingleField.map fun relative =>
      (⟨entity, filter, relative.path, relative.field⟩ : FieldList Filter UniqueWhere)
  have hfilter (entity : String) := env.reads_optionalFilter.bind (hrelative entity)
    fun _ _ _ _ h _ => by
      obtain ⟨text, _, hdot, -⟩ := h
      exact (Phrase.begins_word .dot).free hdot (by decide)
  have hentity := env.reads_entityName.bind_unblocked hfilter
  refine hentity.congr fun tokens list rest => ⟨?_, ?_⟩
  · rintro ⟨entity, _, hentity, filter, _, hfilter, _, _, ⟨_, hdot⟩, relative, hrelative, rfl⟩
    exact .intro hentity hfilter ⟨hdot, hrelative⟩
  · rintro ⟨hentity, hfilter, ⟨hdot, hrelative⟩⟩
    exact ⟨_, _, hentity, _, _, hfilter, _, _, .intro _ hdot, _, hrelative, rfl⟩

lemma reads_optionalPath : Reads env.optionalPath env.TailPhrase
    [.dot, .leftParenthesis, .leftBracket] := by
  have haccept : Reads (do if ← accept .dot then env.relativeSingleEntity else return []) _ _ :=
    env.reads_relativeSingleEntity.ite_accept ((Reads.pure []).mono (List.nil_subset _))
      fun tokens path rest h hfree => by
        obtain ⟨-, rfl⟩ := h
        exact hfree.mono (by simp)
  refine haccept.congr fun tokens path rest => ⟨?_, ?_⟩
  · rintro (⟨hdot, ⟨⟨hstep, hothers⟩⟩⟩ | ⟨rfl, rfl⟩)
    · exact .cons ⟨hdot, hstep⟩ hothers
    · exact .nil _
  · rintro (_ | ⟨⟨hdot, hstep⟩, hothers⟩)
    · exact .inr ⟨rfl, rfl⟩
    · exact .inl ⟨hdot, ⟨⟨hstep, hothers⟩⟩⟩

lemma reads_qualifiedSingleEntity : Reads env.qualifiedSingleEntity env.SingleEntityPhrase
    [.dot, .leftParenthesis, .leftBracket] := by
  have hpath (entity : String) (which : UniqueWhere) (filter : Option Filter) :=
    env.reads_optionalPath.map fun path =>
      (⟨entity, which, filter, path⟩ : SingleEntity Filter UniqueWhere)
  have hfilter (entity : String) (which : UniqueWhere) :=
    env.reads_optionalFilter.bind (hpath entity which) fun _ _ _ _ h hfree => by
      obtain ⟨path, h, -⟩ := h
      exact env.free_of_tail h hfree
  have hwhich (entity : String) :=
    env.reads_uniqueWhere.bind_unblocked (hfilter entity)
  have hentity := env.reads_entityName.bind_unblocked hwhich
  refine hentity.congr fun tokens single rest => ⟨?_, ?_⟩
  · rintro ⟨entity, _, hentity, which, _, hwhich, filter, _, hfilter, path, hpath, rfl⟩
    exact .intro hentity hwhich hfilter hpath
  · rintro ⟨hentity, hwhich, hfilter, hpath⟩
    exact ⟨_, _, hentity, _, _, hwhich, _, _, hfilter, _, hpath, rfl⟩

lemma reads_unfilteredList : Reads env.unfilteredList env.UnfilteredListPhrase
    [.dot, .leftParenthesis, .leftBracket] := by
  have hpath (entity : String) := env.reads_optionalPath.map fun path =>
    (⟨entity, path⟩ : UnfilteredList Filter UniqueWhere)
  refine (env.reads_entityName.bind_unblocked hpath).congr ?_
  intro tokens list rest
  constructor
  · rintro ⟨entity, _, hentity, path, hpath, rfl⟩
    exact .intro hentity hpath
  · rintro ⟨hentity, hpath⟩
    exact ⟨_, _, hentity, _, hpath, rfl⟩

/-! ### Orders -/

/-- A word that names a direction. -/
lemma reads_direction (path : List String) : Reads (do
      match SortOrder.ofText? (← expect .identifier) with
      | some order => return ⟨path, order⟩
      | none => fail (.unbound .direction) : Parser OrderTerm)
    (fun tokens term rest => ∃ order : SortOrder,
      Phrase.Word .identifier tokens order.text rest ∧ term = ⟨path, order⟩) [] where
  sound hgives := by
    obtain ⟨text, middle, hword, hmatched⟩ := gives_bind_iff.mp hgives
    split at hmatched
    · rename_i order horder
      obtain rfl := SortOrder.ofText?_eq_some_iff.mp horder
      obtain ⟨rfl, rfl⟩ := gives_pure_iff.mp hmatched
      exact ⟨order, gives_expect_iff.mp hword, rfl⟩
    · exact absurd hmatched not_gives_fail
  complete := by
    rintro tokens _ rest ⟨order, hword, rfl⟩ -
    refine gives_bind_iff.mpr ⟨_, rest, gives_expect_iff.mpr hword, ?_⟩
    rw [SortOrder.ofText?_text]
    exact gives_pure_iff.mpr ⟨rfl, rfl⟩

lemma reads_orderTerm : Reads env.orderTerm env.OrderTermPhrase [.dot, .identifier] := by
  have hdirection (path : List String) :=
    ((reads_direction path).mono (List.nil_subset [.dot, .identifier])).ite_comes
      ((Reads.pure (⟨path, .ascending⟩ : OrderTerm)).mono (List.nil_subset _))
      (fun _ _ _ h => by
        obtain ⟨order, hword, -⟩ := h
        exact Phrase.begins_word .identifier _ _ _ hword)
      fun _ _ _ h hfree => by
        obtain ⟨-, rfl⟩ := h
        exact hfree.mono (by simp)
  have hterm := env.reads_fieldPath.bind hdirection fun _ _ _ _ h hfree => by
    obtain ⟨order, hword, -⟩ | ⟨-, rfl⟩ := h
    · exact (Phrase.begins_word .identifier).free hword (by decide)
    · exact hfree.mono (by simp)
  refine hterm.congr fun tokens term rest => ⟨?_, ?_⟩
  · rintro ⟨path, _, hpath, ⟨order, hword, rfl⟩ | ⟨rfl, rfl⟩⟩
    · cases order with
      | ascending => exact .ascending hpath hword
      | descending => exact .descending hpath hword
    · exact .implicit hpath
  · rintro (hpath | ⟨hpath, hword⟩ | ⟨hpath, hword⟩)
    · exact ⟨_, _, hpath, .inr ⟨rfl, rfl⟩⟩
    · exact ⟨_, _, hpath, .inl ⟨.ascending, hword, rfl⟩⟩
    · exact ⟨_, _, hpath, .inl ⟨.descending, hword, rfl⟩⟩

lemma reads_orderBy : Reads env.orderBy env.OrderByPhrase [.comma, .dot, .identifier] := by
  refine ((env.reads_orderTerm.separated (by decide)).map fun terms => terms.1 :: terms.2).congr ?_
  intro tokens order rest
  constructor
  · rintro ⟨⟨term, others⟩, h, rfl⟩
    exact .intro h
  · rintro ⟨h⟩
    exact ⟨_, h, rfl⟩

end Environment

/-! ### Whole texts -/

lemma EntryPoint.reads_rule (env : Environment) (entry : EntryPoint) :
    ∃ blocked, Reads (entry.rule env) (entry.Derives env) blocked := by
  cases entry with
  | qualifiedEntityList => exact ⟨_, env.reads_qualifiedEntityList⟩
  | qualifiedFieldList => exact ⟨_, env.reads_qualifiedFieldList⟩
  | qualifiedSingleEntity => exact ⟨_, env.reads_qualifiedSingleEntity⟩
  | unconstrainedQualifiedEntityList => exact ⟨_, env.reads_unfilteredList⟩
  | relativeSingleField => exact ⟨_, env.reads_relativeSingleField⟩
  | relativeSingleEntity => exact ⟨_, env.reads_relativeSingleEntity⟩
  | relativeEntityList => exact ⟨_, env.reads_relativeEntityList⟩
  | uniqueWhere => exact ⟨_, env.reads_uniqueWhere⟩
  | filter => exact ⟨_, env.reads_filter⟩
  | orderBy => exact ⟨_, env.reads_orderBy⟩

/-- Tokens derive at most one tree. -/
theorem EntryPoint.Derives.unique {env : Environment} {entry : EntryPoint} {tokens : List Token}
    {tree other : entry.Tree} (h : entry.Derives env tokens tree [])
    (hother : entry.Derives env tokens other []) : tree = other := by
  obtain ⟨blocked, hreads⟩ := entry.reads_rule env
  obtain ⟨_, hgives⟩ := hreads.complete h (free_nil _)
  obtain ⟨_, hgives'⟩ := hreads.complete hother (free_nil _)
  rw [hgives] at hgives'
  cases hgives'
  rfl

lemma Parser.run_eq_ok_iff {α : Type} {rule : Parser α} {text : String} {a : α} :
    rule.run text = .ok a ↔
      (tokenize text.toList).errors = [] ∧ rule.Gives (tokenize text.toList).tokens a [] := by
  rw [Parser.run]
  obtain ⟨tokens, errors⟩ := tokenize text.toList
  cases errors with
  | cons error errors => simp
  | nil =>
    dsimp only
    constructor
    · intro h
      split at h
      · cases h
      · rename_i hrule
        cases h
        exact ⟨rfl, _, hrule⟩
      · cases h
    · rintro ⟨-, hle, hrule⟩
      rw [hrule]

lemma Reads.run_eq_ok_iff {α : Type} {rule : Parser α} {phrase : Phrase α}
    {blocked : List TokenKind} (h : Reads rule phrase blocked) {text : String} {a : α} :
    rule.run text = .ok a ↔
      (tokenize text.toList).errors = [] ∧ phrase (tokenize text.toList).tokens a [] :=
  Parser.run_eq_ok_iff.trans
    (and_congr_right fun _ => ⟨h.sound, fun hphrase => h.complete hphrase (free_nil _)⟩)

/-- A text is read as a tree exactly if all of it is tokens, and the tokens derive the tree. -/
theorem parse_eq_ok_iff (env : Environment) (entry : EntryPoint) (text : String)
    (tree : entry.Tree) :
    parse env entry text = .ok tree ↔ (tokenize text.toList).errors = [] ∧
      entry.Derives env (tokenize text.toList).tokens tree [] := by
  obtain ⟨blocked, hreads⟩ := entry.reads_rule env
  refine Parser.run_eq_ok_iff.trans (and_congr_right fun _ => ⟨hreads.sound, fun h => ?_⟩)
  exact hreads.complete h (free_nil _)

end EntityGraph.Language
