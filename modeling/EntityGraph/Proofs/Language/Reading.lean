import EntityGraph.Language.Parser
import EntityGraph.Proofs.Language.Phrase
/-!
# Parsers that read phrases

A parser that sees one token ahead reads a phrase if it comes to exactly what the phrase says, where
no token follows that it would go on with. Phrases are put together as their parsers are; where one
begins, the parser of the one before it has to stop.
-/
namespace EntityGraph.Language

variable {α β : Type} {tokens rest : List Token}

/-! ### What parsers come to -/

namespace Parser

/-- The parser comes to the value and leaves the rest. -/
def Gives (parser : Parser α) (tokens : List Token) (a : α) (rest : List Token) : Prop :=
  ∃ h, parser tokens = .ok ⟨a, rest, h⟩

variable {parser : Parser α} {next : α → Parser β} {a : α} {b : β} {kind : TokenKind}

@[simp] lemma gives_pure_iff {c : α} :
    (pure a : Parser α).Gives tokens c rest ↔ c = a ∧ rest = tokens := by
  constructor
  · rintro ⟨h, heq⟩
    cases heq
    exact ⟨rfl, rfl⟩
  · rintro ⟨rfl, rfl⟩
    exact ⟨Nat.le_refl _, rfl⟩

@[simp] lemma gives_bind_iff :
    (parser >>= next).Gives tokens b rest ↔
      ∃ a middle, parser.Gives tokens a middle ∧ (next a).Gives middle b rest := by
  have hrun : (parser >>= next) tokens = parser.andThen next tokens := rfl
  rw [Gives, hrun, andThen]
  constructor
  · rintro ⟨h, heq⟩
    rcases hparser : parser tokens with _ | ⟨a, middle, hm⟩
    · rw [hparser] at heq
      cases heq
    · rw [hparser] at heq
      dsimp only at heq
      rcases hnext : next a middle with _ | ⟨c, last, hl⟩
      · rw [hnext] at heq
        cases heq
      · rw [hnext] at heq
        cases heq
        exact ⟨a, middle, ⟨hm, hparser⟩, hl, hnext⟩
  · rintro ⟨a, middle, ⟨hm, hparser⟩, hl, hnext⟩
    exact ⟨Nat.le_trans hl hm, by rw [hparser]; dsimp only; rw [hnext]⟩

@[simp] lemma gives_map_iff {f : α → β} :
    (f <$> parser).Gives tokens b rest ↔ ∃ a, parser.Gives tokens a rest ∧ b = f a := by
  have hmap : f <$> parser = parser >>= fun a => pure (f a) := rfl
  rw [hmap, gives_bind_iff]
  constructor
  · rintro ⟨a, middle, hparser, hpure⟩
    obtain ⟨rfl, rfl⟩ := gives_pure_iff.mp hpure
    exact ⟨a, hparser, rfl⟩
  · rintro ⟨a, hparser, rfl⟩
    exact ⟨a, rest, hparser, gives_pure_iff.mpr ⟨rfl, rfl⟩⟩

@[simp] lemma not_gives_fail {fault : Fault} : ¬ (fail fault : Parser α).Gives tokens a rest := by
  rintro ⟨h, heq⟩
  cases heq

@[simp] lemma not_gives_expected {what : Expectation} :
    ¬ (expected what : Parser α).Gives tokens a rest := by
  rintro ⟨h, heq⟩
  cases heq

@[simp] lemma gives_ofExcept_iff {outcome : Except Fault α} :
    (ofExcept outcome).Gives tokens a rest ↔ outcome = .ok a ∧ rest = tokens := by
  cases outcome with
  | ok b => exact gives_pure_iff.trans (by rw [Except.ok.injEq, eq_comm])
  | error fault => simp [ofExcept]

@[simp] lemma gives_peek_iff {found : Option Token} :
    peek.Gives tokens found rest ↔ found = tokens.head? ∧ rest = tokens := by
  constructor
  · rintro ⟨h, heq⟩
    cases heq
    exact ⟨rfl, rfl⟩
  · rintro ⟨rfl, rfl⟩
    exact ⟨Nat.le_refl _, rfl⟩

@[simp] lemma gives_skip_iff {done : Unit} :
    skip.Gives tokens done rest ↔ rest = tokens.drop 1 := by
  constructor
  · rintro ⟨h, heq⟩
    cases heq
    rfl
  · rintro rfl
    exact ⟨by simp, rfl⟩

lemma gives_skip_pure_iff {c : α} {token : Token} :
    (do skip; return a : Parser α).Gives (token :: tokens) c rest ↔ c = a ∧ rest = tokens := by
  simp

lemma gives_expect_iff {text : String} :
    (expect kind).Gives tokens text rest ↔ Phrase.Word kind tokens text rest := by
  constructor
  · rintro ⟨h, heq⟩
    unfold expect at heq
    split at heq
    · cases heq
    · split at heq
      · rename_i hkind
        cases heq
        exact .intro _ hkind
      · cases heq
  · rintro ⟨rest, hkind⟩
    exact ⟨by simp, by rw [expect, if_pos hkind]⟩

/-- A parser that looks at the next token goes on according to its kind. -/
lemma gives_comes_bind_iff {next : Bool → Parser β} :
    (comes kind >>= next).Gives tokens b rest ↔
      (next (tokens.head?.any (·.kind == kind))).Gives tokens b rest := by
  simp only [comes, gives_bind_iff, gives_peek_iff, gives_pure_iff]
  constructor
  · rintro ⟨_, _, ⟨_, _, ⟨rfl, rfl⟩, rfl, rfl⟩, h⟩
    exact h
  · intro h
    exact ⟨_, _, ⟨_, _, ⟨rfl, rfl⟩, rfl, rfl⟩, h⟩

/-- What follows a branch may stand in both of its cases. -/
lemma gives_ite_comes_bind_iff {first second : Parser α} :
    (do if ← comes kind then first >>= next else second >>= next : Parser β).Gives tokens b rest ↔
      ((do if ← comes kind then first else second) >>= next).Gives tokens b rest := by
  rw [gives_comes_bind_iff, gives_bind_iff]
  simp only [gives_comes_bind_iff]
  cases tokens.head?.any (·.kind == kind) <;> exact gives_bind_iff

lemma gives_accept_bind_iff {next : Bool → Parser β} :
    (accept kind >>= next).Gives tokens b rest ↔
      (next (tokens.head?.any (·.kind == kind))).Gives
        (if tokens.head?.any (·.kind == kind) then tokens.drop 1 else tokens) b rest := by
  rw [gives_bind_iff]
  simp only [accept, gives_comes_bind_iff]
  cases tokens.head?.any (·.kind == kind) with
  | false =>
    simp only [Bool.false_eq_true, if_false, gives_pure_iff]
    constructor
    · rintro ⟨_, _, ⟨rfl, rfl⟩, h⟩
      exact h
    · intro h
      exact ⟨_, _, ⟨rfl, rfl⟩, h⟩
  | true =>
    simp only [if_true, gives_bind_iff, gives_skip_iff, gives_pure_iff]
    constructor
    · rintro ⟨_, _, ⟨_, _, rfl, rfl, rfl⟩, h⟩
      exact h
    · intro h
      exact ⟨_, _, ⟨(), _, rfl, rfl, rfl⟩, h⟩

/-- One round of a repetition. -/
lemma gives_iterate_iff {separator : TokenKind} {step : β → Parser β} {b last : β} :
    (iterate separator step b).Gives tokens last rest ↔
      (Free [separator] tokens ∧ last = b ∧ rest = tokens) ∨
        ∃ next middle, Phrase.After separator (step b).Gives tokens next middle ∧
          (iterate separator step next).Gives middle last rest := by
  rw [Gives]
  cases tokens with
  | nil =>
    rw [iterate]
    constructor
    · rintro ⟨h, heq⟩
      cases heq
      exact .inl ⟨free_nil _, rfl, rfl⟩
    · rintro (⟨-, rfl, rfl⟩ | ⟨_, _, ⟨⟩, -⟩)
      exact ⟨Nat.le_refl _, rfl⟩
  | cons token tail =>
    rw [iterate]
    by_cases hkind : token.kind = separator
    · rw [if_pos hkind]
      constructor
      · rintro ⟨h, heq⟩
        rcases hstep : step b tail with _ | ⟨next, middle, hm⟩
        · rw [hstep] at heq
          cases heq
        · rw [hstep] at heq
          dsimp only at heq
          rcases hrest : iterate separator step next middle with _ | ⟨final, left, hl⟩
          · rw [hrest] at heq
            cases heq
          · rw [hrest] at heq
            cases heq
            exact .inr ⟨next, middle, ⟨hkind, hm, hstep⟩, hl, hrest⟩
      · rintro (⟨hfree, -⟩ | ⟨next, middle, ⟨-, hm, hstep⟩, hl, hrest⟩)
        · exact absurd hkind (by simpa [free_cons] using hfree)
        · refine ⟨Nat.le_trans hl (Nat.le_succ_of_le hm), ?_⟩
          rw [hstep]
          dsimp only
          rw [hrest]
    · rw [if_neg hkind]
      constructor
      · rintro ⟨h, heq⟩
        cases heq
        exact .inl ⟨by simpa [free_cons] using hkind, rfl, rfl⟩
      · rintro (⟨-, rfl, rfl⟩ | ⟨_, _, ⟨hsame, -⟩, -⟩)
        · exact ⟨Nat.le_refl _, rfl⟩
        · exact absurd hsame hkind

end Parser

/-! ### Parsers that read phrases -/

open EntityGraph.Language.Parser

/-- The parser comes to what the phrase says, unless a token of a blocked kind follows. -/
structure Reads (parser : Parser α) (phrase : Phrase α) (blocked : List TokenKind) : Prop where
  sound {tokens : List Token} {a : α} {rest : List Token} (h : parser.Gives tokens a rest) :
    phrase tokens a rest
  complete {tokens : List Token} {a : α} {rest : List Token} (h : phrase tokens a rest)
    (hfree : Free blocked rest) : parser.Gives tokens a rest

namespace Reads

variable {parser other : Parser α} {phrase phrase' : Phrase α} {next : α → Parser β}
  {nextPhrase : α → Phrase β} {blocked blocked' : List TokenKind} {kind separator : TokenKind}

lemma congr (h : Reads parser phrase blocked)
    (hiff : ∀ tokens a rest, phrase tokens a rest ↔ phrase' tokens a rest) :
    Reads parser phrase' blocked where
  sound hgives := (hiff _ _ _).mp (h.sound hgives)
  complete hphrase := h.complete ((hiff _ _ _).mpr hphrase)

lemma mono (h : Reads parser phrase blocked) (hsubset : blocked ⊆ blocked') :
    Reads parser phrase blocked' where
  sound := h.sound
  complete hphrase hfree := h.complete hphrase (hfree.mono hsubset)

lemma pure (a : α) : Reads (Pure.pure a) (fun tokens b rest => b = a ∧ rest = tokens) [] where
  sound := gives_pure_iff.mp
  complete hphrase _ := gives_pure_iff.mpr hphrase

lemma expect (kind : TokenKind) : Reads (Parser.expect kind) (Phrase.Word kind) [] where
  sound := gives_expect_iff.mp
  complete hword _ := gives_expect_iff.mpr hword

lemma map (h : Reads parser phrase blocked) (f : α → β) :
    Reads (f <$> parser) (fun tokens b rest => ∃ a, phrase tokens a rest ∧ b = f a) blocked where
  sound hgives := by
    obtain ⟨a, hparser, rfl⟩ := gives_map_iff.mp hgives
    exact ⟨a, h.sound hparser, rfl⟩
  complete := by
    rintro _ _ _ ⟨a, hphrase, rfl⟩ hfree
    exact gives_map_iff.mpr ⟨a, h.complete hphrase hfree, rfl⟩

/-- Where the second phrase begins, the first parser has to stop. -/
lemma bind (h : Reads parser phrase blocked) (hnext : ∀ a, Reads (next a) (nextPhrase a) blocked')
    (hstop : ∀ a middle b rest, nextPhrase a middle b rest → Free blocked' rest →
      Free blocked middle) :
    Reads (parser >>= next)
      (fun tokens b rest => ∃ a middle, phrase tokens a middle ∧ nextPhrase a middle b rest)
      blocked' where
  sound hgives := by
    obtain ⟨a, middle, hfirst, hsecond⟩ := gives_bind_iff.mp hgives
    exact ⟨a, middle, h.sound hfirst, (hnext a).sound hsecond⟩
  complete := by
    rintro _ _ _ ⟨a, middle, hfirst, hsecond⟩ hfree
    exact gives_bind_iff.mpr ⟨a, middle, h.complete hfirst (hstop _ _ _ _ hsecond hfree),
      (hnext a).complete hsecond hfree⟩

/-- Anything may follow where nothing is blocked. -/
lemma bind_unblocked (h : Reads parser phrase [])
    (hnext : ∀ a, Reads (next a) (nextPhrase a) blocked') :
    Reads (parser >>= next)
      (fun tokens b rest => ∃ a middle, phrase tokens a middle ∧ nextPhrase a middle b rest)
      blocked' :=
  h.bind hnext fun _ _ _ _ _ _ => free_none _

lemma ite_comes_bind {first second : Parser α} {whole : Phrase β}
    (h : Reads ((do if ← comes kind then first else second) >>= next) whole blocked) :
    Reads (do if ← comes kind then first >>= next else second >>= next) whole blocked where
  sound hgives := h.sound (gives_ite_comes_bind_iff.mp hgives)
  complete hphrase hfree := gives_ite_comes_bind_iff.mpr (h.complete hphrase hfree)

/-- A value that is checked after it has been read. -/
lemma guarded (refused : Bool) (fault : Fault) (a : α) :
    Reads (if refused then fail fault else Pure.pure a)
      (fun tokens b rest => refused = false ∧ b = a ∧ rest = tokens) blocked where
  sound hgives := by
    cases refused with
    | true => exact absurd hgives not_gives_fail
    | false => exact ⟨rfl, gives_pure_iff.mp hgives⟩
  complete := by
    rintro _ _ _ ⟨rfl, hvalue⟩ -
    exact gives_pure_iff.mpr hvalue

/-- A phrase that begins with a token of its own. -/
lemma ite_comes (h : Reads parser phrase blocked) (hother : Reads other phrase' blocked)
    (hbegins : phrase.Begins [kind]) (hstop : ∀ tokens a rest, phrase' tokens a rest →
      Free blocked rest → Free [kind] tokens) :
    Reads (do if ← comes kind then parser else other)
      (fun tokens a rest => phrase tokens a rest ∨ phrase' tokens a rest) blocked where
  sound hgives := by
    have hbranch := gives_comes_bind_iff.mp hgives
    split at hbranch
    · exact .inl (h.sound hbranch)
    · exact .inr (hother.sound hbranch)
  complete := by
    rintro tokens a rest (hphrase | hphrase) hfree
    · refine gives_comes_bind_iff.mpr ?_
      obtain ⟨token, htoken, hkind⟩ := hbegins _ _ _ hphrase
      have hcomes : tokens.head?.any (·.kind == kind) = true := by
        rw [Option.mem_def.mp htoken]
        simpa using hkind
      rw [if_pos hcomes]
      exact h.complete hphrase hfree
    · refine gives_comes_bind_iff.mpr ?_
      have hcomes : tokens.head?.any (·.kind == kind) = false := by
        rw [Option.any_eq_false]
        intro token htoken
        simpa using hstop _ _ _ hphrase hfree token htoken
      rw [hcomes, if_neg Bool.false_ne_true]
      exact hother.complete hphrase hfree

/-- A phrase that begins behind a token of its own. -/
lemma ite_accept (h : Reads parser phrase blocked) (hother : Reads other phrase' blocked)
    (hstop : ∀ tokens a rest, phrase' tokens a rest → Free blocked rest → Free [kind] tokens) :
    Reads (do if ← accept kind then parser else other)
      (fun tokens a rest => Phrase.After kind phrase tokens a rest ∨ phrase' tokens a rest)
      blocked where
  sound {tokens a rest} hgives := by
    have hbranch := gives_accept_bind_iff.mp hgives
    cases hcomes : tokens.head?.any (·.kind == kind) with
    | true =>
      rw [hcomes] at hbranch
      obtain ⟨token, htoken, hkind⟩ := (Option.any_eq_true ..).mp hcomes
      obtain ⟨tail, rfl⟩ := List.head?_eq_some_iff.mp htoken
      exact .inl ⟨by simpa using hkind, h.sound hbranch⟩
    | false =>
      rw [hcomes] at hbranch
      exact .inr (hother.sound hbranch)
  complete := by
    rintro tokens a rest (⟨hkind, hphrase⟩ | hphrase) hfree
    · refine gives_accept_bind_iff.mpr ?_
      have hcomes {token : Token} {tail : List Token} (htoken : token.kind = kind) :
          (token :: tail).head?.any (·.kind == kind) = true := by simpa using htoken
      rw [hcomes hkind]
      exact h.complete hphrase hfree
    · refine gives_accept_bind_iff.mpr ?_
      have hcomes : tokens.head?.any (·.kind == kind) = false := by
        rw [Option.any_eq_false]
        intro token htoken
        simpa using hstop _ _ _ hphrase hfree token htoken
      rw [hcomes]
      exact hother.complete hphrase hfree

/-- A keyword stands for a value of its own. -/
lemma keyword (kind : TokenKind) {kinds : List TokenKind} (a : α)
    (hother : Reads other phrase []) (hbegins : phrase.Begins kinds) (hkind : kind ∉ kinds) :
    Reads (do if ← accept kind then Pure.pure a else other)
        (fun tokens b rest => (b = a ∧ ∃ text, Phrase.Word kind tokens text rest) ∨
          phrase tokens b rest) [] ∧
      Phrase.Begins (fun tokens b rest => (b = a ∧ ∃ text, Phrase.Word kind tokens text rest) ∨
        phrase tokens b rest) (kind :: kinds) := by
  have hstop : ∀ first ∈ kinds, first ∉ [kind] := by
    rintro first hfirst hmem
    obtain rfl := List.mem_singleton.mp hmem
    exact hkind hfirst
  have haccept : Reads (do if ← accept kind then Pure.pure a else other) _ [] :=
    (Reads.pure a).ite_accept hother fun _ _ _ h _ => hbegins.free h hstop
  refine ⟨haccept.congr fun tokens b rest => or_congr_left ⟨?_, ?_⟩, ?_⟩
  · rintro ⟨hfirst, rfl, rfl⟩
    exact ⟨rfl, _, .intro _ hfirst⟩
  · rintro ⟨rfl, text, ⟨_, hfirst⟩⟩
    exact ⟨hfirst, rfl, rfl⟩
  · rintro tokens b rest (⟨-, text, hword⟩ | h)
    · exact (Phrase.begins_word kind).mono (by simp) _ _ _ hword
    · exact hbegins.mono (List.subset_cons_self _ _) _ _ _ h

end Reads

/-! ### Repetition -/

/-- Steps from one state to the next one, a separator before each. -/
inductive Phrase.Repeated (separator : TokenKind) (step : β → Phrase β) : β → Phrase β
  | done (b : β) (tokens : List Token) : Repeated separator step b tokens b tokens
  | more {b c d : β} {tokens middle rest : List Token}
      (hstep : Phrase.After separator (step b) tokens c middle)
      (hmore : Repeated separator step c middle d rest) : Repeated separator step b tokens d rest

namespace Reads

variable {parser : Parser α} {phrase : Phrase α} {step : β → Parser β} {stepPhrase : β → Phrase β}
  {blocked : List TokenKind} {separator kind : TokenKind}

lemma free_of_repeated (hseparator : separator ∉ blocked) {b d : β}
    (h : Phrase.Repeated separator stepPhrase b tokens d rest)
    (hrest : Free (separator :: blocked) rest) : Free blocked tokens := by
  cases h with
  | done => exact hrest.mono (List.subset_cons_self _ _)
  | more hstep =>
    obtain ⟨hkind, -⟩ := hstep
    rwa [free_cons, hkind]

/-- A repetition takes whatever stands behind a separator, and stops at the first other token. -/
lemma iterate (hstep : ∀ b, Reads (step b) (stepPhrase b) blocked)
    (hseparator : separator ∉ blocked) (b : β) :
    Reads (Parser.iterate separator step b) (Phrase.Repeated separator stepPhrase b)
      (separator :: blocked) where
  sound {tokens a rest} hgives := by
    induction hlength : tokens.length using Nat.strongRecOn generalizing tokens b with
    | ind n ih =>
      obtain ⟨-, rfl, rfl⟩ | ⟨next, middle, ⟨hkind, hnext⟩, hmore⟩ := gives_iterate_iff.mp hgives
      · exact .done _ _
      · have hshorter : middle.length < n := by
          obtain ⟨hle, -⟩ := hnext
          rw [← hlength]
          exact Nat.lt_succ_of_le hle
        exact .more ⟨hkind, (hstep b).sound hnext⟩ (ih _ hshorter next hmore rfl)
  complete := by
    intro tokens a rest h hfree
    induction h with
    | done b tokens =>
      exact gives_iterate_iff.mpr (.inl ⟨hfree.mono (by simp), rfl, rfl⟩)
    | @more b c d tokens middle rest hstepPhrase hmore ih =>
      obtain ⟨hkind, hphrase⟩ := hstepPhrase
      refine gives_iterate_iff.mpr (.inr ⟨c, middle, ⟨hkind, ?_⟩, ih hfree⟩)
      exact (hstep b).complete hphrase (free_of_repeated hseparator hmore hfree)

lemma repeated_iff_many {items all : List α} :
    Phrase.Repeated separator
        (fun items tokens more rest => ∃ a, phrase tokens a rest ∧ more = items ++ [a])
        items tokens all rest ↔
      ∃ more, Phrase.Many (Phrase.After separator phrase) tokens more rest ∧
        all = items ++ more := by
  constructor
  · intro h
    induction h with
    | done => exact ⟨[], .nil _, (List.append_nil _).symm⟩
    | more hstep _ ih =>
      obtain ⟨hkind, a, hphrase, rfl⟩ := hstep
      obtain ⟨more, hmore, rfl⟩ := ih
      exact ⟨a :: more, .cons ⟨hkind, hphrase⟩ hmore, by simp⟩
  · rintro ⟨more, hmore, rfl⟩
    induction hmore generalizing items with
    | nil =>
      rw [List.append_nil]
      exact .done _ _
    | @cons tokens middle rest a others hitem _ ih =>
      obtain ⟨hkind, hphrase⟩ := hitem
      have hrest := @ih (items ++ [a])
      rw [List.append_assoc] at hrest
      exact .more ⟨hkind, a, hphrase, rfl⟩ hrest

lemma following (h : Reads parser phrase blocked) (hseparator : separator ∉ blocked) :
    Reads (Parser.following separator parser) (Phrase.Many (Phrase.After separator phrase))
      (separator :: blocked) := by
  have hitems (items : List α) : Reads (do return items ++ [← parser])
      (fun tokens more rest => ∃ a, phrase tokens a rest ∧ more = items ++ [a]) blocked :=
    h.map fun a => items ++ [a]
  refine (iterate hitems hseparator []).congr fun tokens all rest => ?_
  rw [repeated_iff_many]
  simp

lemma free_of_many (hseparator : separator ∉ blocked) {items : List α}
    (h : Phrase.Many (Phrase.After separator phrase) tokens items rest)
    (hrest : Free (separator :: blocked) rest) : Free blocked tokens := by
  cases h with
  | nil => exact hrest.mono (List.subset_cons_self _ _)
  | cons hitem =>
    obtain ⟨hkind, -⟩ := hitem
    rwa [free_cons, hkind]

lemma separated (h : Reads parser phrase blocked) (hseparator : separator ∉ blocked) :
    Reads (Parser.separated separator parser) (Phrase.Separated separator phrase)
      (separator :: blocked) := by
  have hpair := h.bind (fun a => (h.following hseparator).map fun others => (a, others))
    fun a middle pair rest hothers hfree => by
      obtain ⟨others, hothers, -⟩ := hothers
      exact free_of_many hseparator hothers hfree
  refine Reads.congr hpair fun tokens pair rest => ⟨?_, ?_⟩
  · rintro ⟨a, middle, hitem, others, hothers, rfl⟩
    exact ⟨hitem, hothers⟩
  · rintro ⟨hitem, hothers⟩
    exact ⟨_, _, hitem, _, hothers, rfl⟩

/-- What begins with a token of its own may be left out. -/
lemma optional (h : Reads parser phrase blocked) (hbegins : phrase.Begins [kind]) :
    Reads (do if ← comes kind then some <$> parser else Pure.pure none) (Phrase.Optional phrase)
      (kind :: blocked) := by
  have habsent := (Reads.pure (none : Option α)).mono (List.nil_subset (kind :: blocked))
  have hpresent := (h.map some).mono (List.subset_cons_self kind blocked)
  refine (hpresent.ite_comes habsent ?_ ?_).congr fun tokens a rest => ⟨?_, ?_⟩
  · rintro tokens _ rest ⟨a, hphrase, -⟩
    exact hbegins tokens a rest hphrase
  · rintro tokens a rest ⟨-, rfl⟩ hfree
    exact hfree.mono (by simp)
  · rintro (⟨a, hphrase, rfl⟩ | ⟨rfl, rfl⟩)
    · exact .present hphrase
    · exact .absent _
  · rintro (_ | hphrase)
    · exact .inr ⟨rfl, rfl⟩
    · exact .inl ⟨_, hphrase, rfl⟩

end Reads

end EntityGraph.Language
