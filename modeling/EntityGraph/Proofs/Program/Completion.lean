import EntityGraph.Proofs.Program.Runs
/-!
# Complete runs with their events

A complete run is told by the answers that were given, the events that were reported and what the
program came to. Of programs that run one after another, the answers, the events and what they came
to stand one after another as well.
-/
namespace EntityGraph.Program

variable {I : Interface} {α β ε : Type}

/-- With the answers of the trace the program reports the events, and comes to `a`. -/
inductive Completes : Program I α → List (Exchange I) → List Event → α → Prop
  | done (a : α) : Completes (.done a) [] [] a
  | note {event : Event} {rest : Program I α} {trace : List (Exchange I)} {events : List Event}
      {a : α} (tail : Completes rest trace events a) :
      Completes (.note event rest) trace (event :: events) a
  | ask {request : I.Request} {next : I.Reply request → Program I α} {reply : I.Reply request}
      {trace : List (Exchange I)} {events : List Event} {a : α}
      (tail : Completes (next reply) trace events a) :
      Completes (.ask request next) (⟨request, reply⟩ :: trace) events a

/-- The programs come to their ends one after another. -/
inductive InTurn : List (Program I α) → List (Exchange I) → List Event → List α → Prop
  | nil : InTurn [] [] [] []
  | cons {program : Program I α} {programs : List (Program I α)} {first second : List (Exchange I)}
      {before after : List Event} {a : α} {results : List α}
      (head : program.Completes first before a) (tail : InTurn programs second after results) :
      InTurn (program :: programs) (first ++ second) (before ++ after) (a :: results)

variable {program : Program I α} {next : α → Program I β} {trace : List (Exchange I)}
  {events : List Event} {a : α}

/-- Runs with events are the runs of the program. -/
theorem exists_completes_iff :
    (∃ events, program.Completes trace events a) ↔ program.Reaches trace (.done a) := by
  constructor
  · rintro ⟨events, h⟩
    induction h with
    | done => exact .here _
    | note _ ih => exact .note ih
    | ask _ ih => exact .ask ih
  · intro h
    generalize hdone : Program.done a = final at h
    induction h with
    | here =>
      subst hdone
      exact ⟨[], .done a⟩
    | note _ ih =>
      obtain ⟨events, hevents⟩ := ih hdone
      exact ⟨_, .note hevents⟩
    | ask _ ih =>
      obtain ⟨events, hevents⟩ := ih hdone
      exact ⟨events, .ask hevents⟩

lemma completes_done_iff {b : α} :
    (Program.done b).Completes trace events a ↔ trace = [] ∧ events = [] ∧ a = b := by
  constructor
  · rintro ⟨⟩
    exact ⟨rfl, rfl, rfl⟩
  · rintro ⟨rfl, rfl, rfl⟩
    exact .done _

lemma Completes.bind {first second : List (Exchange I)} {before after : List Event} {b : β}
    (hfirst : program.Completes first before a) (hsecond : (next a).Completes second after b) :
    (program >>= next).Completes (first ++ second) (before ++ after) b := by
  induction hfirst with
  | done => exact hsecond
  | note _ ih => exact .note (ih hsecond)
  | ask _ ih => exact .ask (ih hsecond)

/-- A complete run of two programs is one of the first, then one of the second. -/
theorem completes_bind_iff {b : β} :
    (program >>= next).Completes trace events b ↔
      ∃ first before a second after, program.Completes first before a ∧
        (next a).Completes second after b ∧ trace = first ++ second ∧
        events = before ++ after := by
  constructor
  · intro h
    induction program generalizing trace events with
    | done a => exact ⟨[], [], a, trace, events, .done a, h, rfl, rfl⟩
    | note event rest ih =>
      obtain _ | tail := h
      obtain ⟨first, before, a, second, after, hfirst, hsecond, rfl, rfl⟩ := ih tail
      exact ⟨first, event :: before, a, second, after, .note hfirst, hsecond, rfl, rfl⟩
    | ask request rest ih =>
      obtain _ | _ | tail := h
      obtain ⟨first, before, a, second, after, hfirst, hsecond, rfl, rfl⟩ := ih _ tail
      exact ⟨_ :: first, before, a, second, after, .ask hfirst, hsecond, rfl, rfl⟩
  · rintro ⟨first, before, a, second, after, hfirst, hsecond, rfl, rfl⟩
    exact hfirst.bind hsecond

lemma reportAll_completes_iff {told : List Event} {u : Unit} :
    (reportAll told : Program I Unit).Completes trace events u ↔ trace = [] ∧ events = told := by
  induction told generalizing events with
  | nil => simp [reportAll, completes_done_iff]
  | cons event rest ih =>
    constructor
    · intro h
      obtain _ | tail := h
      obtain ⟨rfl, rfl⟩ := ih.mp tail
      exact ⟨rfl, rfl⟩
    · rintro ⟨rfl, rfl⟩
      exact .note (ih.mpr ⟨rfl, rfl⟩)

/-- A sequence of programs is run in turn. -/
theorem sequence_completes_iff {programs : List (Program I α)} {results : List α} :
    (sequence programs).Completes trace events results ↔
      InTurn programs trace events results := by
  induction programs generalizing trace events results with
  | nil =>
    rw [sequence, completes_done_iff]
    constructor
    · rintro ⟨rfl, rfl, rfl⟩
      exact .nil
    · rintro ⟨⟩
      exact ⟨rfl, rfl, rfl⟩
  | cons program rest ih =>
    rw [sequence, completes_bind_iff]
    constructor
    · rintro ⟨first, before, a, _, _, hfirst, hrest, rfl, rfl⟩
      obtain ⟨second, after, others, last, told, hsecond, hdone, rfl, rfl⟩ :=
        completes_bind_iff.mp hrest
      obtain ⟨rfl, rfl, rfl⟩ := completes_done_iff.mp hdone
      rw [List.append_nil, List.append_nil]
      exact .cons hfirst (ih.mp hsecond)
    · intro h
      obtain _ | ⟨head, tail⟩ := h
      exact ⟨_, _, _, _, _, head, completes_bind_iff.mpr
        ⟨_, _, _, [], [], ih.mpr tail, .done _, (List.append_nil _).symm,
          (List.append_nil _).symm⟩, rfl, rfl⟩

/-- What is done to every result may be done when all of them are there. -/
lemma sequence_map (f : α → β) (programs : List (Program I α)) :
    sequence (programs.map (f <$> ·)) = List.map f <$> sequence programs := by
  induction programs with
  | nil => rfl
  | cons program rest ih =>
    rw [List.map_cons, sequence, sequence, ih]
    simp only [bind_map_left, map_bind]
    rfl

/-- What an action comes to is passed on through a function. -/
lemma completes_run_map_iff {action : ExceptT ε (Program I) α} {f : α → β} {result : Except ε β} :
    (action >>= fun a => pure (f a)).run.Completes trace events result ↔
      ∃ own, action.run.Completes trace events own ∧ result = own.map f := by
  rw [ExceptT.run_bind, completes_bind_iff]
  constructor
  · rintro ⟨first, before, own, second, after, hfirst, hsecond, rfl, rfl⟩
    refine ⟨own, ?_⟩
    cases own with
    | ok a =>
      obtain ⟨rfl, rfl, rfl⟩ := completes_done_iff.mp hsecond
      exact ⟨by simpa using hfirst, rfl⟩
    | error e =>
      obtain ⟨rfl, rfl, rfl⟩ := completes_done_iff.mp hsecond
      exact ⟨by simpa using hfirst, rfl⟩
  · rintro ⟨own, hown, rfl⟩
    refine ⟨trace, events, own, [], [], hown, ?_, by simp, by simp⟩
    cases own <;> exact .done _

end EntityGraph.Program
