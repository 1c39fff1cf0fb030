import EntityGraph.Proofs.Program.Runs
import Mathlib.Data.List.Forall2
/-!
# Contracts, and calls with the stretches that answer them

A contract says which questions a program may ask, and how the surroundings answer them. An answer
comes with a log of what happened on the way to it. A program that meets a contract asks only what
is permitted, and what it comes to fits what was logged. Interpreting its questions by programs that
keep their side of the contract preserves both.

When the questions of a program are answered by programs, each of its calls takes up a stretch of
the trace. Programs that run one after another take up stretches in their order, also on a trace
that breaks off in the middle of one.
-/
namespace EntityGraph

/-! ### Contracts -/

structure Contract (I : Interface) (τ : Type) where
  Permits : I.Request → Prop
  /-- What may be logged on the way to an answer. -/
  Answers : (request : I.Request) → List τ → I.Reply request → Prop

namespace Program

variable {I J : Interface} {τ α β ε : Type} {C : Contract I τ} {program : Program I α}
  {next : α → Program I β}

/-- The program asks only what is permitted, and its log and its result satisfy `post`. -/
def Meets (C : Contract I τ) : Program I α → (List τ → α → Prop) → Prop
  | .done a, post => post [] a
  | .note _ rest, post => rest.Meets C post
  | .ask request next, post =>
    C.Permits request ∧ ∀ log reply, C.Answers request log reply →
      (next reply).Meets C fun more a => post (log ++ more) a

lemma Meets.mono {post other : List τ → α → Prop} (h : program.Meets C post)
    (hpost : ∀ log a, post log a → other log a) : program.Meets C other := by
  induction program generalizing post other with
  | done a => exact hpost _ _ h
  | note event rest ih => exact ih h hpost
  | ask request next ih =>
    exact ⟨h.1, fun log reply hreply => ih reply (h.2 log reply hreply) fun _ _ => hpost _ _⟩

/-- The second program goes on with the log of the first one. -/
lemma meets_bind {post : List τ → β → Prop}
    (h : program.Meets C fun log a => (next a).Meets C fun more b => post (log ++ more) b) :
    (program >>= next).Meets C post := by
  induction program generalizing post with
  | done a => exact h
  | note event rest ih => exact ih h
  | ask request answered ih =>
    refine ⟨h.1, fun log reply hreply => ih reply ?_⟩
    simpa only [List.append_assoc] using h.2 log reply hreply

/-- Programs that answer what a contract permits, as the contract says, may take the place of the
surroundings. -/
theorem Meets.interpret {D : Contract J τ} {program : Program J α}
    {answer : (request : J.Request) → Program I (J.Reply request)}
    (hanswer : ∀ request, D.Permits request → (answer request).Meets C (D.Answers request))
    {post : List τ → α → Prop} (h : program.Meets D post) :
    (program.interpret answer).Meets C post := by
  induction program generalizing post with
  | done a => exact h
  | note event rest ih => exact ih h
  | ask request next ih =>
    refine meets_bind ((hanswer request h.1).mono fun log reply hreply => ?_)
    exact ih reply (h.2 log reply hreply)

/-- What the surroundings log along a trace, if they keep to the contract. -/
inductive Logs (C : Contract I τ) : List (Exchange I) → List τ → Prop
  | nil : Logs C [] []
  | cons {exchange : Exchange I} {trace : List (Exchange I)} {log more : List τ}
      (head : C.Answers exchange.request log exchange.reply) (tail : Logs C trace more) :
      Logs C (exchange :: trace) (log ++ more)

/-- On a run on which the surroundings keep to the contract, the program does as well. -/
theorem Meets.of_reaches {post : List τ → α → Prop} (h : program.Meets C post)
    {trace : List (Exchange I)} {log : List τ} (hlog : Logs C trace log) {rest : Program I α}
    (hrun : program.Reaches trace rest) :
    (∀ exchange ∈ trace, C.Permits exchange.request) ∧ ∀ a, rest = .done a → post log a := by
  induction hrun generalizing post log with
  | here program =>
    cases hlog
    refine ⟨by simp, ?_⟩
    rintro a rfl
    exact h
  | note _ ih => exact ih h hlog
  | ask _ ih =>
    cases hlog with
    | cons head tail =>
      obtain ⟨hpermits, hpost⟩ := ih (h.2 _ _ head) tail
      refine ⟨fun exchange hmem => ?_, hpost⟩
      obtain rfl | hmem := List.mem_cons.mp hmem
      · exact h.1
      · exact hpermits exchange hmem

/-- A program that may fail goes on unless it failed. -/
lemma meets_run_bind {action : ExceptT ε (Program I) α} {next : α → ExceptT ε (Program I) β}
    {post : List τ → Except ε β → Prop}
    (h : action.run.Meets C fun log result =>
      match result with
      | .ok a => (next a).run.Meets C fun more b => post (log ++ more) b
      | .error e => post log (.error e)) :
    (action >>= next).run.Meets C post := by
  rw [ExceptT.run_bind]
  refine meets_bind (h.mono fun log result hresult => ?_)
  cases result with
  | ok a => exact hresult
  | error e => simpa [Meets] using hresult

end Program

/-! ### Traces that break off -/

variable {I J : Interface} {α β γ ε : Type}

namespace Program

/-- The trace is the beginning of a run. -/
def Begins (program : Program I α) (trace : List (Exchange I)) : Prop :=
  ∃ rest, program.Reaches trace rest

variable {program : Program I α} {next : α → Program I β} {trace : List (Exchange I)}

lemma Reaches.begins {rest : Program I α} (h : program.Reaches trace rest) :
    program.Begins trace := ⟨rest, h⟩

lemma begins_nil (program : Program I α) : program.Begins [] := ⟨program, .here program⟩

@[simp] lemma done_begins_iff {a : α} : (Program.done a).Begins trace ↔ trace = [] := by
  simp [Begins]

/-- The trace breaks off in the first program, or the first one is complete. -/
lemma Begins.of_bind (h : (program >>= next).Begins trace) :
    program.Begins trace ∨ ∃ first a second, program.Reaches first (.done a) ∧
      (next a).Begins second ∧ trace = first ++ second := by
  obtain ⟨last, hlast⟩ := h
  obtain ⟨rest, hrest, -⟩ | ⟨first, a, second, hfirst, hsecond, rfl⟩ := hlast.of_bind
  · exact .inl hrest.begins
  · exact .inr ⟨first, a, second, hfirst, hsecond.begins, rfl⟩

lemma Begins.of_run_bind {action : ExceptT ε (Program I) α} {next : α → ExceptT ε (Program I) β}
    (h : (action >>= next).run.Begins trace) :
    action.run.Begins trace ∨ ∃ first a second, action.run.Reaches first (.done (.ok a)) ∧
      (next a).run.Begins second ∧ trace = first ++ second := by
  rw [ExceptT.run_bind] at h
  obtain h | ⟨first, a | a, second, hfirst, hsecond, rfl⟩ := h.of_bind
  · exact .inl h
  · rw [done_begins_iff.mp hsecond, List.append_nil]
    exact .inl hfirst.begins
  · exact .inr ⟨first, a, second, hfirst, hsecond, rfl⟩

lemma silent_done (a : α) : (Program.done a : Program I α).Asks fun _ => False := trivial

/-- A complete run that begins with a complete run of the first part goes on with the second. -/
lemma Reaches.of_run_bind_prefix {action : ExceptT ε (Program I) α}
    {next : α → ExceptT ε (Program I) β} {first second : List (Exchange I)} {a : α}
    {result : Except ε β} (h : (action >>= next).run.Reaches (first ++ second) (.done result))
    (hfirst : action.run.Reaches first (.done (.ok a))) :
    (next a).run.Reaches second (.done result) := by
  obtain ⟨e, herror, -⟩ | ⟨own, b, rest, hown, hrest, heq⟩ := run_bind_reaches_done_iff.mp h
  · obtain ⟨-, hsame⟩ := hfirst.prefix_free herror (List.append_nil _).symm
    cases hsame
  · obtain ⟨rfl, hab⟩ := hfirst.prefix_free hown heq
    cases hab
    rwa [List.append_cancel_left heq]

/-- A program that asks nothing adds nothing to a trace. -/
lemma Asks.eq_nil {rest : Program I α} (h : program.Asks fun _ => False)
    (hrun : program.Reaches trace rest) : trace = [] :=
  List.eq_nil_iff_forall_not_mem.mpr fun exchange hmem => h.of_reaches hrun exchange hmem

lemma Begins.of_bind_silent (hnext : ∀ a, (next a).Asks fun _ => False)
    (h : (program >>= next).Begins trace) : program.Begins trace := by
  obtain h | ⟨first, a, second, hfirst, ⟨rest, hsecond⟩, rfl⟩ := h.of_bind
  · exact h
  · rw [(hnext a).eq_nil hsecond, List.append_nil]
    exact hfirst.begins

/-- What is made of a result adds nothing to a run. -/
lemma map_reaches_done_iff {f : α → β} {b : β} :
    (program >>= fun a => .done (f a)).Reaches trace (.done b) ↔
      ∃ a, program.Reaches trace (.done a) ∧ b = f a := by
  rw [bind_reaches_done_iff]
  constructor
  · rintro ⟨first, a, second, hfirst, hsecond, rfl⟩
    obtain ⟨rfl, hdone⟩ := done_reaches_iff.mp hsecond
    exact ⟨a, by rwa [List.append_nil], done.inj hdone⟩
  · rintro ⟨a, hrun, rfl⟩
    exact ⟨trace, a, [], hrun, .here _, (List.append_nil trace).symm⟩

/-- A program that asks one question has asked it or not. -/
lemma Begins.of_ask {request : I.Request} {answered : I.Reply request → Program I α}
    (hanswered : ∀ reply, (answered reply).Asks fun _ => False)
    (h : (Program.ask request answered).Begins trace) :
    trace = [] ∨ ∃ reply, trace = [⟨request, reply⟩] := by
  obtain ⟨rest, hrest⟩ := h
  cases hrest with
  | here => exact .inl rfl
  | ask tail => exact .inr ⟨_, congrArg _ ((hanswered _).eq_nil tail)⟩

/-- A single question. -/
lemma ask_done_reaches_iff {request : I.Request} {reply : I.Reply request} :
    (Program.ask request Program.done).Reaches trace (.done reply) ↔
      trace = [⟨request, reply⟩] := by
  rw [ask_reaches_done_iff]
  constructor
  · rintro ⟨other, tail, htail, rfl⟩
    obtain ⟨rfl, hdone⟩ := done_reaches_iff.mp htail
    rw [done.inj hdone]
  · rintro rfl
    exact ⟨reply, [], .here _, rfl⟩

/-! ### Sequences -/

variable {programs others : List (Program I α)} {outcomes : List α}

lemma sequence_append (programs others : List (Program I α)) :
    sequence (programs ++ others) = sequence programs >>= fun outcomes =>
      sequence others >>= fun more => .done (outcomes ++ more) := by
  induction programs with
  | nil => exact (bind_done _).symm
  | cons program rest ih => simp only [List.cons_append, sequence, ih, bind_assoc, done_bind]

lemma sequence_append_reaches_done_iff :
    (sequence (programs ++ others)).Reaches trace (.done outcomes) ↔
      ∃ first own second more, (sequence programs).Reaches first (.done own) ∧
        (sequence others).Reaches second (.done more) ∧ trace = first ++ second ∧
        outcomes = own ++ more := by
  simp only [sequence_append, bind_reaches_done_iff, done_reaches_iff, done.injEq]
  constructor
  · rintro ⟨first, own, _, hfirst, ⟨second, more, _, hsecond, ⟨rfl, rfl⟩, rfl⟩, rfl⟩
    exact ⟨first, own, second, more, hfirst, hsecond, by rw [List.append_nil], rfl⟩
  · rintro ⟨first, own, second, more, hfirst, hsecond, rfl, rfl⟩
    exact ⟨first, own, second, hfirst, ⟨second, more, [], hsecond, ⟨rfl, rfl⟩,
      (List.append_nil second).symm⟩, rfl⟩

lemma sequence_singleton_reaches_done_iff :
    (sequence [program]).Reaches trace (.done outcomes) ↔
      ∃ a, program.Reaches trace (.done a) ∧ outcomes = [a] := by
  simp only [sequence, done_bind, bind_reaches_done_iff, done_reaches_iff, done.injEq]
  constructor
  · rintro ⟨first, a, _, hfirst, ⟨rfl, rfl⟩, rfl⟩
    exact ⟨a, by rwa [List.append_nil], rfl⟩
  · rintro ⟨a, hrun, rfl⟩
    exact ⟨trace, a, [], hrun, ⟨rfl, rfl⟩, (List.append_nil trace).symm⟩

/-- Each item of a list has a stretch of its own, in which what it asks for is run. -/
theorem sequence_flatMap_reaches_done_iff {programsOf : γ → List (Program I α)} {items : List γ} :
    (sequence (items.flatMap programsOf)).Reaches trace (.done outcomes) ↔
      ∃ turns : List (List (Exchange I) × List α),
        List.Forall₂ (fun item turn => (sequence (programsOf item)).Reaches turn.1 (.done turn.2))
          items turns ∧
        trace = turns.flatMap Prod.fst ∧ outcomes = turns.flatMap Prod.snd := by
  induction items generalizing trace outcomes with
  | nil =>
    simp only [List.flatMap_nil, sequence, done_reaches_iff, done.injEq, List.forall₂_nil_left_iff,
      exists_eq_left]
  | cons item rest ih =>
    simp only [List.flatMap_cons, sequence_append_reaches_done_iff, List.forall₂_cons_left_iff, ih]
    constructor
    · rintro ⟨first, own, _, _, hown, ⟨turns, hturns, rfl, rfl⟩, rfl, rfl⟩
      exact ⟨(first, own) :: turns, ⟨(first, own), turns, hown, hturns, rfl⟩, rfl, rfl⟩
    · rintro ⟨_, ⟨turn, turns, hturn, hturns, rfl⟩, rfl, rfl⟩
      exact ⟨turn.1, turn.2, _, _, hturn, ⟨turns, hturns, rfl, rfl⟩, rfl, rfl⟩

/-- On a trace that breaks off, the items whose turn has not come have an empty stretch. -/
theorem Begins.of_sequence_flatMap {programsOf : γ → List (Program I α)} {items : List γ}
    (h : (sequence (items.flatMap programsOf)).Begins trace) :
    ∃ stretches, List.Forall₂ (fun item stretch => (sequence (programsOf item)).Begins stretch)
      items stretches ∧ trace = stretches.flatten := by
  induction items generalizing trace with
  | nil => exact ⟨[], .nil, done_begins_iff.mp h⟩
  | cons item rest ih =>
    rw [List.flatMap_cons, sequence_append] at h
    obtain h | ⟨first, own, second, hfirst, hsecond, rfl⟩ := h.of_bind
    · obtain ⟨stretches, hrest, hnil⟩ := ih (begins_nil _)
      exact ⟨trace :: stretches, .cons h hrest, by simp [← hnil]⟩
    · obtain ⟨stretches, hrest, rfl⟩ := ih (hsecond.of_bind_silent fun _ => silent_done _)
      exact ⟨first :: stretches, .cons hfirst.begins hrest, rfl⟩

/-! ### Interpretation -/

variable {answer : (request : I.Request) → Program J (I.Reply request)}

lemma interpret_bind (program : Program I α) (next : α → Program I β) :
    (program >>= next).interpret answer =
      program.interpret answer >>= fun a => (next a).interpret answer := by
  induction program with
  | done a => rfl
  | note event rest ih => simp only [note_bind, interpret, ih]
  | ask request rest ih =>
    simp only [ask_bind, interpret, ih]
    exact (bind_assoc _ _ _).symm

lemma interpret_sequence (programs : List (Program I α)) :
    (sequence programs).interpret answer = sequence (programs.map (interpret answer)) := by
  induction programs with
  | nil => rfl
  | cons program rest ih => simp only [sequence, List.map_cons, interpret_bind, ih, interpret]

/-- The calls are answered along the trace, one after another. -/
inductive Carries (answer : (request : I.Request) → Program J (I.Reply request)) :
    List (Exchange I) → List (Exchange J) → Prop
  | nil : Carries answer [] []
  | cons {call : Exchange I} {calls : List (Exchange I)} {own trace : List (Exchange J)}
      (head : (answer call.request).Reaches own (.done call.reply))
      (tail : Carries answer calls trace) : Carries answer (call :: calls) (own ++ trace)

/-- What stands on a stretch of a trace stands on one where more came before. -/
lemma exists_stretch_append {P : List γ → Prop} {rest : List γ} (first : List γ)
    (h : ∃ front own back, P own ∧ rest = front ++ own ++ back) :
    ∃ front own back, P own ∧ first ++ rest = front ++ own ++ back := by
  obtain ⟨front, own, back, hown, rfl⟩ := h
  exact ⟨first ++ front, own, back, hown, by simp⟩

/-- Every call is answered along a stretch of the trace. -/
lemma Carries.exists_stretch {calls : List (Exchange I)} {trace : List (Exchange J)}
    (h : Carries answer calls trace) {call : Exchange I} (hcall : call ∈ calls) :
    ∃ front own back, (answer call.request).Reaches own (.done call.reply) ∧
      trace = front ++ own ++ back := by
  induction h with
  | nil => cases hcall
  | cons head tail ih =>
    obtain rfl | hcall := List.mem_cons.mp hcall
    · exact ⟨[], _, _, head, rfl⟩
    · exact exists_stretch_append _ (ih hcall)

/-- A complete run of an interpreted program carries out the calls of one of its own runs. -/
theorem interpret_reaches_done_iff {trace : List (Exchange J)} {a : α} :
    (program.interpret answer).Reaches trace (.done a) ↔
      ∃ calls, program.Reaches calls (.done a) ∧ Carries answer calls trace := by
  induction program generalizing trace with
  | done b =>
    constructor
    · intro h
      obtain ⟨rfl, hdone⟩ := done_reaches_iff.mp h
      cases hdone
      exact ⟨[], .here _, .nil⟩
    · rintro ⟨calls, hcalls, hcarries⟩
      obtain ⟨rfl, hdone⟩ := done_reaches_iff.mp hcalls
      cases hdone
      cases hcarries
      exact .here _
  | note event rest ih => simp only [interpret, note_reaches_done_iff, ih]
  | ask request rest ih =>
    constructor
    · intro h
      obtain ⟨own, reply, more, hown, hmore, rfl⟩ := bind_reaches_done_iff.mp h
      obtain ⟨calls, hcalls, hcarries⟩ := (ih reply).mp hmore
      exact ⟨⟨request, reply⟩ :: calls, .ask hcalls, .cons hown hcarries⟩
    · rintro ⟨calls, hcalls, hcarries⟩
      obtain ⟨reply, tail, htail, rfl⟩ := ask_reaches_done_iff.mp hcalls
      cases hcarries with
      | cons head tail => exact bind_reaches_done_iff.mpr ⟨_, reply, _, head, (ih reply).mpr
          ⟨_, htail, tail⟩, rfl⟩

end Program

end EntityGraph
