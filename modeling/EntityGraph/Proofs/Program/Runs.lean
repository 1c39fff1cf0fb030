import EntityGraph.Effect
import Mathlib.Tactic.Common
/-!
# Runs of programs

A run is the list of the questions that a program asked, each with the answer that it was given. The
surroundings may answer anything, at any time; what every question of a program satisfies is read
off its tree, one answer after another.
-/
namespace EntityGraph

variable {I J : Interface} {α β ε : Type}

namespace Program

/-- A question and the answer to it. -/
structure Exchange (I : Interface) where
  request : I.Request
  reply : I.Reply request

/-- With the answers of the trace the program has come to the last argument. -/
inductive Reaches : Program I α → List (Exchange I) → Program I α → Prop
  | here (program : Program I α) : Reaches program [] program
  | note {event : Event} {rest last : Program I α} {trace : List (Exchange I)}
      (tail : Reaches rest trace last) : Reaches (.note event rest) trace last
  | ask {request : I.Request} {next : I.Reply request → Program I α} {reply : I.Reply request}
      {last : Program I α} {trace : List (Exchange I)} (tail : Reaches (next reply) trace last) :
      Reaches (.ask request next) (⟨request, reply⟩ :: trace) last

variable {program rest : Program I α} {next : α → Program I β} {trace : List (Exchange I)}

@[simp] lemma done_reaches_iff {a : α} :
    (Program.done a).Reaches trace rest ↔ trace = [] ∧ rest = .done a := by
  constructor
  · intro h
    cases h
    exact ⟨rfl, rfl⟩
  · rintro ⟨rfl, rfl⟩
    exact .here _

@[simp] lemma note_reaches_done_iff {event : Event} {a : α} :
    (Program.note event rest).Reaches trace (.done a) ↔ rest.Reaches trace (.done a) := by
  constructor
  · intro h
    cases h with
    | note tail => exact tail
  · exact .note

@[simp] lemma ask_reaches_done_iff {request : I.Request} {answered : I.Reply request → Program I α}
    {a : α} : (Program.ask request answered).Reaches trace (.done a) ↔
      ∃ reply tail, (answered reply).Reaches tail (.done a) ∧
        trace = ⟨request, reply⟩ :: tail := by
  constructor
  · intro h
    cases h with
    | ask tail => exact ⟨_, _, tail, rfl⟩
  · rintro ⟨reply, tail, htail, rfl⟩
    exact .ask htail

/-- A run to the end goes on with what follows. -/
lemma Reaches.bind {first second : List (Exchange I)} {a : α} {last : Program I β}
    (hfirst : program.Reaches first (.done a)) (hsecond : (next a).Reaches second last) :
    (program >>= next).Reaches (first ++ second) last := by
  generalize hdone : Program.done a = final at hfirst
  induction hfirst with
  | here => subst hdone; exact hsecond
  | note _ ih => exact .note (ih hdone)
  | ask _ ih => exact .ask (ih hdone)

/-- A run of two programs is still in the first one, or has left it. -/
lemma Reaches.of_bind {last : Program I β} (h : (program >>= next).Reaches trace last) :
    (∃ rest, program.Reaches trace rest ∧ last = rest >>= next) ∨
      ∃ first a second, program.Reaches first (.done a) ∧ (next a).Reaches second last ∧
        trace = first ++ second := by
  induction program generalizing trace with
  | done a => exact .inr ⟨[], a, trace, .here _, h, rfl⟩
  | note event rest ih =>
    cases h with
    | here => exact .inl ⟨_, .here _, rfl⟩
    | note tail =>
      obtain ⟨rest, hrest, heq⟩ | ⟨first, a, second, hfirst, hsecond, heq⟩ := ih tail
      · exact .inl ⟨rest, .note hrest, heq⟩
      · exact .inr ⟨first, a, second, .note hfirst, hsecond, heq⟩
  | ask request answered ih =>
    cases h with
    | here => exact .inl ⟨_, .here _, rfl⟩
    | ask tail =>
      obtain ⟨rest, hrest, heq⟩ | ⟨first, a, second, hfirst, hsecond, rfl⟩ := ih _ tail
      · exact .inl ⟨rest, .ask hrest, heq⟩
      · exact .inr ⟨_ :: first, a, second, .ask hfirst, hsecond, rfl⟩

lemma bind_eq_done {b : β} (h : (program >>= next) = .done b) :
    ∃ a, program = .done a ∧ next a = .done b := by
  cases program with
  | done a => exact ⟨a, rfl, h⟩
  | note => cases h
  | ask => cases h

/-- A complete run of two programs is a complete run of the first, then one of the second. -/
theorem bind_reaches_done_iff {b : β} :
    (program >>= next).Reaches trace (.done b) ↔
      ∃ first a second, program.Reaches first (.done a) ∧ (next a).Reaches second (.done b) ∧
        trace = first ++ second := by
  constructor
  · intro h
    obtain ⟨rest, hrest, heq⟩ | hleft := h.of_bind
    · obtain ⟨a, rfl, hb⟩ := bind_eq_done heq.symm
      exact ⟨trace, a, [], hrest, hb ▸ .here _, (List.append_nil trace).symm⟩
    · exact hleft
  · rintro ⟨first, a, second, hfirst, hsecond, rfl⟩
    exact hfirst.bind hsecond

/-- Complete runs are told apart by their answers: of two of them that agree as far as both go,
neither goes on where the other has ended. -/
theorem Reaches.prefix_free {first second more others : List (Exchange I)} {a b : α}
    (hfirst : program.Reaches first (.done a)) (hsecond : program.Reaches second (.done b))
    (heq : first ++ more = second ++ others) : first = second ∧ a = b := by
  induction program generalizing first second with
  | done c =>
    obtain ⟨rfl, ha⟩ := done_reaches_iff.mp hfirst
    obtain ⟨rfl, hb⟩ := done_reaches_iff.mp hsecond
    exact ⟨rfl, done.inj (ha.trans hb.symm)⟩
  | note event rest ih =>
    exact ih (note_reaches_done_iff.mp hfirst) (note_reaches_done_iff.mp hsecond) heq
  | ask request answered ih =>
    obtain ⟨reply, first, hone, rfl⟩ := ask_reaches_done_iff.mp hfirst
    obtain ⟨other, second, htwo, rfl⟩ := ask_reaches_done_iff.mp hsecond
    obtain ⟨hreply, htail⟩ := List.cons.inj heq
    cases hreply
    obtain ⟨rfl, hab⟩ := ih reply hone htwo htail
    exact ⟨rfl, hab⟩

/-- Every question of the program satisfies a property, whatever the answers before it were. -/
def Asks (P : I.Request → Prop) : Program I α → Prop
  | .done _ => True
  | .note _ rest => rest.Asks P
  | .ask request next => P request ∧ ∀ reply, (next reply).Asks P

variable {P : I.Request → Prop}

lemma asks_bind (hprogram : program.Asks P) (hnext : ∀ a, (next a).Asks P) :
    (program >>= next).Asks P := by
  induction program with
  | done a => exact hnext a
  | note event rest ih => exact ih hprogram
  | ask request answered ih => exact ⟨hprogram.1, fun reply => ih reply (hprogram.2 reply)⟩

/-- After interpretation only the answers ask questions. -/
lemma asks_interpret {Q : J.Request → Prop}
    {answer : (request : I.Request) → Program J (I.Reply request)}
    (hanswer : ∀ request, (answer request).Asks Q) (program : Program I α) :
    (program.interpret answer).Asks Q := by
  induction program with
  | done a => trivial
  | note event rest ih => exact ih
  | ask request next ih => exact asks_bind (hanswer request) ih

/-- What is asked on a run is among what the program may ask. -/
theorem Asks.of_reaches (h : program.Asks P) (hrun : program.Reaches trace rest) :
    ∀ exchange ∈ trace, P exchange.request := by
  induction hrun with
  | here => simp
  | note _ ih => exact ih h
  | ask _ ih =>
    intro exchange hmem
    obtain rfl | hmem := List.mem_cons.mp hmem
    · exact h.1
    · exact ih (h.2 _) exchange hmem

/-- Surroundings with a state of their own only ever lead a program along one of its runs. -/
theorem reaches_of_run {σ : Type}
    {answer : (request : I.Request) → StateT σ Option (I.Reply request)}
    {take : Event → StateT σ Option Unit} {a : α} {state final : σ}
    (h : program.run answer take state = some (a, final)) :
    ∃ trace, program.Reaches trace (.done a) := by
  induction program generalizing state with
  | done b =>
    cases h
    exact ⟨[], .here _⟩
  | note event rest ih =>
    obtain ⟨⟨_, next⟩, _, hrest⟩ := Option.bind_eq_some_iff.mp h
    obtain ⟨trace, htrace⟩ := ih hrest
    exact ⟨trace, .note htrace⟩
  | ask request next ih =>
    obtain ⟨⟨reply, middle⟩, _, hrest⟩ := Option.bind_eq_some_iff.mp h
    obtain ⟨trace, htrace⟩ := ih reply hrest
    exact ⟨⟨request, reply⟩ :: trace, .ask htrace⟩

/-- What surroundings with a state make a program come to, it comes to on one of its runs. -/
theorem exists_reaches_of_run {σ : Type}
    {answer : (request : I.Request) → StateT σ Option (I.Reply request)}
    {take : Event → StateT σ Option Unit} {state : σ} {test : α → Bool}
    (h : (program.run answer take state).any (fun outcome => test outcome.1) = true) :
    ∃ trace a, program.Reaches trace (.done a) ∧ test a = true := by
  cases hrun : program.run answer take state with
  | none =>
    rw [hrun] at h
    cases h
  | some outcome =>
    rw [hrun] at h
    obtain ⟨trace, htrace⟩ := reaches_of_run hrun
    exact ⟨trace, outcome.1, htrace, h⟩

/-- The questions that a program asks of surroundings with a state, each with its answer, and what
it comes to. -/
def trace? {σ : Type} (answer : (request : I.Request) → σ → Option (I.Reply request × σ)) :
    Program I α → σ → Option (List (Exchange I) × α)
  | .done a, _ => some ([], a)
  | .note _ rest, state => rest.trace? answer state
  | .ask request next, state => do
    let (reply, state) ← answer request state
    let (trace, a) ← (next reply).trace? answer state
    some (⟨request, reply⟩ :: trace, a)

theorem reaches_of_trace? {σ : Type}
    {answer : (request : I.Request) → σ → Option (I.Reply request × σ)} {state : σ} {a : α}
    (h : program.trace? answer state = some (trace, a)) : program.Reaches trace (.done a) := by
  induction program generalizing state trace with
  | done b =>
    cases h
    exact .here _
  | note event rest ih => exact .note (ih h)
  | ask request next ih =>
    obtain ⟨⟨reply, middle⟩, _, h⟩ := Option.bind_eq_some_iff.mp h
    obtain ⟨⟨rest, b⟩, hrest, h⟩ := Option.bind_eq_some_iff.mp h
    cases h
    exact .ask (ih reply hrest)

theorem exists_reaches_of_trace? {σ : Type}
    {answer : (request : I.Request) → σ → Option (I.Reply request × σ)} {state : σ}
    {test : List (Exchange I) → α → Bool}
    (h : (program.trace? answer state).any (fun outcome => test outcome.1 outcome.2) = true) :
    ∃ trace a, program.Reaches trace (.done a) ∧ test trace a = true := by
  cases hrun : program.trace? answer state with
  | none =>
    rw [hrun] at h
    cases h
  | some outcome =>
    rw [hrun] at h
    exact ⟨outcome.1, outcome.2, reaches_of_trace? hrun, h⟩

/-! ### Programs that may fail -/

section Failing

variable {action : ExceptT ε (Program I) α} {next : α → ExceptT ε (Program I) β}
  {trace : List (Exchange I)} {P : I.Request → Prop}

lemma asks_run_bind (haction : action.run.Asks P) (hnext : ∀ a, (next a).run.Asks P) :
    (action >>= next).run.Asks P := by
  rw [ExceptT.run_bind]
  refine asks_bind haction fun result => ?_
  cases result with
  | ok a => exact hnext a
  | error e => trivial

/-- A complete run fails in the first part, or goes on with what the first part came to. -/
theorem run_bind_reaches_done_iff {result : Except ε β} :
    (action >>= next).run.Reaches trace (.done result) ↔
      (∃ e, action.run.Reaches trace (.done (.error e)) ∧ result = .error e) ∨
        ∃ first a second, action.run.Reaches first (.done (.ok a)) ∧
          (next a).run.Reaches second (.done result) ∧ trace = first ++ second := by
  rw [ExceptT.run_bind, bind_reaches_done_iff]
  constructor
  · rintro ⟨first, a | a, second, hfirst, hsecond, rfl⟩
    · obtain ⟨rfl, hresult⟩ := done_reaches_iff.mp hsecond
      cases hresult
      exact .inl ⟨a, by simpa using hfirst, rfl⟩
    · exact .inr ⟨first, a, second, hfirst, hsecond, rfl⟩
  · rintro (⟨e, hfirst, rfl⟩ | ⟨first, a, second, hfirst, hsecond, rfl⟩)
    · exact ⟨trace, .error e, [], hfirst, .here _, (List.append_nil trace).symm⟩
    · exact ⟨first, .ok a, second, hfirst, hsecond, rfl⟩

/-- A run that succeeds goes through the first part, and on with what that came to. -/
lemma Reaches.of_run_bind_ok {b : β} (h : (action >>= next).run.Reaches trace (.done (.ok b))) :
    ∃ first a second, action.run.Reaches first (.done (.ok a)) ∧
      (next a).run.Reaches second (.done (.ok b)) ∧ trace = first ++ second := by
  obtain ⟨e, -, hcontra⟩ | hparts := run_bind_reaches_done_iff.mp h
  · cases hcontra
  · exact hparts

lemma Reaches.run_bind {first second : List (Exchange I)} {a : α} {result : Except ε β}
    (haction : action.run.Reaches first (.done (.ok a)))
    (hnext : (next a).run.Reaches second (.done result)) :
    (action >>= next).run.Reaches (first ++ second) (.done result) :=
  run_bind_reaches_done_iff.mpr (.inr ⟨first, a, second, haction, hnext, rfl⟩)

/-- The second part need not ask for anything. -/
lemma Reaches.run_bind_done {a : α} {result : Except ε β}
    (haction : action.run.Reaches trace (.done (.ok a)))
    (hnext : (next a).run = .done result) : (action >>= next).run.Reaches trace (.done result) := by
  rw [← List.append_nil trace]
  refine haction.run_bind ?_
  rw [hnext]
  exact .here _

lemma Reaches.run_bind_error {e : ε} (h : action.run.Reaches trace (.done (.error e))) :
    (action >>= next).run.Reaches trace (.done (.error e)) :=
  run_bind_reaches_done_iff.mpr (.inl ⟨e, h, rfl⟩)

end Failing

end Program

end EntityGraph
