import EntityGraph.Proofs.Program.Calls
import EntityGraph.Script.Database
/-!
# Events of a run

The answers to its questions settle which events a program reports. Programs that run one after
another report the events of each, and where the questions of a program are answered by programs, it
reports what these report while its calls are carried out.
-/
namespace EntityGraph

variable {I J : Interface} {α β ε : Type} {event : Event}

namespace Program

/-- With the answers of the trace, the program comes to report the event. -/
inductive Notes (event : Event) : Program I α → List (Exchange I) → Prop
  | here {rest : Program I α} {trace : List (Exchange I)} : Notes event (.note event rest) trace
  | note {other : Event} {rest : Program I α} {trace : List (Exchange I)}
      (tail : Notes event rest trace) : Notes event (.note other rest) trace
  | ask {request : I.Request} {next : I.Reply request → Program I α} {reply : I.Reply request}
      {trace : List (Exchange I)} (tail : Notes event (next reply) trace) :
      Notes event (.ask request next) (⟨request, reply⟩ :: trace)

variable {program : Program I α} {next : α → Program I β} {trace : List (Exchange I)}

/-- What a program reports, it reports also where another program goes on. -/
lemma Notes.bind (h : program.Notes event trace) (next : α → Program I β) :
    (program >>= next).Notes event trace := by
  induction h with
  | here => exact .here
  | note _ ih => exact .note ih
  | ask _ ih => exact .ask ih

lemma Notes.append (h : program.Notes event trace) (more : List (Exchange I)) :
    program.Notes event (trace ++ more) := by
  induction h with
  | here => exact .here
  | note _ ih => exact .note ih
  | ask _ ih => exact .ask ih

/-- What goes on after a complete run reports its own events. -/
lemma Reaches.notes_bind {first second : List (Exchange I)} {a : α}
    (hfirst : program.Reaches first (.done a)) (h : (next a).Notes event second) :
    (program >>= next).Notes event (first ++ second) := by
  generalize hdone : Program.done a = final at hfirst
  induction hfirst with
  | here => subst hdone; exact h
  | note _ ih => exact .note (ih hdone)
  | ask _ ih => exact .ask (ih hdone)

lemma Notes.run_bind {action : ExceptT ε (Program I) α} (h : action.run.Notes event trace)
    (next : α → ExceptT ε (Program I) β) : (action >>= next).run.Notes event trace := by
  rw [ExceptT.run_bind]
  exact h.bind _

lemma Reaches.notes_run_bind {action : ExceptT ε (Program I) α}
    {next : α → ExceptT ε (Program I) β} {first second : List (Exchange I)} {a : α}
    (hfirst : action.run.Reaches first (.done (.ok a))) (h : (next a).run.Notes event second) :
    (action >>= next).run.Notes event (first ++ second) := by
  rw [ExceptT.run_bind]
  exact hfirst.notes_bind h

/-- The events that a program reports on its way to the end. -/
def events? {σ : Type} (answer : (request : I.Request) → σ → Option (I.Reply request × σ)) :
    Program I α → σ → Option (List Event)
  | .done _, _ => some []
  | .note event rest, state => (event :: ·) <$> rest.events? answer state
  | .ask request next, state => do
    let (reply, state) ← answer request state
    (next reply).events? answer state

/-- What is reported on a trace is reported by the run that has this trace. -/
lemma Notes.mem_events? {σ : Type}
    {answer : (request : I.Request) → σ → Option (I.Reply request × σ)} {state : σ} {a : α}
    {events : List Event} (htrace : program.trace? answer state = some (trace, a))
    (hevents : program.events? answer state = some events) (h : program.Notes event trace) :
    event ∈ events := by
  induction program generalizing trace state events with
  | done b => cases h
  | note other rest ih =>
    obtain ⟨later, hlater, rfl⟩ := Option.map_eq_some_iff.mp hevents
    cases h with
    | here => exact List.mem_cons_self
    | note tail => exact List.mem_cons_of_mem _ (ih htrace hlater tail)
  | ask request next ih =>
    obtain ⟨⟨reply, middle⟩, hreply, htrace⟩ := Option.bind_eq_some_iff.mp htrace
    obtain ⟨⟨rest, b⟩, hrest, hdone⟩ := Option.bind_eq_some_iff.mp htrace
    obtain ⟨⟨same, state⟩, hsame, hevents⟩ := Option.bind_eq_some_iff.mp hevents
    cases hreply.symm.trans hsame
    cases hdone
    cases h with
    | ask tail => exact ih reply hrest hevents tail

/-- What a program in a sequence reports, once those before it have come to their ends. -/
lemma Notes.sequence {front back : List (Program I α)} {before own : List (Exchange I)}
    {earlier : List α} (hfront : (Program.sequence front).Reaches before (.done earlier))
    (h : program.Notes event own) :
    (Program.sequence (front ++ program :: back)).Notes event (before ++ own) := by
  have hrest : (Program.sequence (program :: back)).Notes event own := h.bind _
  rw [sequence_append]
  exact hfront.notes_bind (hrest.bind _)

/-- What is reported while a call of a program is carried out. -/
lemma Notes.interpret {answer : (request : I.Request) → Program J (I.Reply request)}
    {before after : List (Exchange I)} {call : Exchange I} {a : α}
    {earlier own : List (Exchange J)}
    (hrun : program.Reaches (before ++ call :: after) (.done a))
    (hbefore : Carries answer before earlier) (h : (answer call.request).Notes event own) :
    (program.interpret answer).Notes event (earlier ++ own) := by
  induction program generalizing before earlier with
  | done b => cases before <;> cases (done_reaches_iff.mp hrun).1
  | note other rest ih => exact .note (ih (note_reaches_done_iff.mp hrun) hbefore)
  | ask request next ih =>
    obtain ⟨reply, tail, htail, heq⟩ := ask_reaches_done_iff.mp hrun
    cases hbefore with
    | nil =>
      obtain ⟨rfl, rfl⟩ := List.cons.inj heq
      exact h.bind _
    | cons head rest =>
      obtain ⟨rfl, rfl⟩ := List.cons.inj heq
      rw [List.append_assoc]
      exact head.notes_bind (ih reply htail rest)

end Program

/-! ### Scripted runs -/

namespace Script

variable {program : Program Effect α} {world : World} {trace : List (Program.Exchange Effect)}
  {a : α}

/-- The answers of a scripted database. -/
abbrev answers : (request : Effect.Request) → World → Option (Effect.Reply request × World) :=
  answer

/-- A run in a scripted world, with its trace. -/
def traced (program : Program Effect α) (world : World) :
    Option (List (Program.Exchange Effect) × α) := program.trace? answers world

/-- What is reported in a scripted world. -/
def reported (program : Program Effect α) (world : World) : Option (List Event) :=
  program.events? answers world

lemma reaches_of_traced (h : traced program world = some (trace, a)) :
    program.Reaches trace (.done a) := Program.reaches_of_trace? h

lemma mem_reported {events : List Event} (htrace : traced program world = some (trace, a))
    (hevents : reported program world = some events) (h : program.Notes event trace) :
    event ∈ events := h.mem_events? htrace hevents

/-- A run with a property can be given. -/
lemma exists_of_traced {test : List (Program.Exchange Effect) → α → Bool}
    (h : (traced program world).any (fun outcome => test outcome.1 outcome.2) = true) :
    ∃ trace a, traced program world = some (trace, a) ∧ test trace a = true := by
  cases hrun : traced program world with
  | none =>
    rw [hrun] at h
    cases h
  | some outcome =>
    rw [hrun] at h
    exact ⟨outcome.1, outcome.2, rfl, h⟩

end Script

end EntityGraph
