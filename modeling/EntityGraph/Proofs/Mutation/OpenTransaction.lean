import EntityGraph.Proofs.Mutation.Commit
/-!
# Transactions left open

A transaction that has begun is ended before the call returns, provided that its isolation level
could be set. A refused level makes the call return at once, and nobody is left who could end the
transaction.
-/
namespace EntityGraph.Mutation

variable {trace : List (Program.Exchange Effect)}

/-- The beginning of a transaction, accepted by the database. -/
def begun : Program.Exchange Effect := ⟨.command "BEGIN", .ok ()⟩

/-- The choice of the isolation level, with the answer to it. -/
def isolating (settings : Settings) (reply : Except Database.Error Unit) :
    Program.Exchange Effect :=
  ⟨.command s!"SET TRANSACTION ISOLATION LEVEL {settings.isolationLevel.text}", reply⟩

/-- A transaction starts with two commands; the first one that is refused fails the start. -/
lemma start_reaches_iff {settings : Settings} {result : Except Failure Database.Transaction} :
    (start settings).run.Reaches trace (.done result) ↔
      (∃ e, trace = [⟨.command "BEGIN", .error e⟩] ∧ result = .error (.database e)) ∨
      (∃ e, trace = [begun, isolating settings (.error e)] ∧ result = .error (.database e)) ∨
      trace = [begun, isolating settings (.ok ())] ∧ result = .ok ⟨false⟩ := by
  constructor
  · intro h
    obtain ⟨first | _, rest, hrest, rfl⟩ := Program.ask_reaches_done_iff.mp h
    · obtain ⟨rfl, hresult⟩ := Program.done_reaches_iff.mp hrest
      exact .inl ⟨first, rfl, Program.done.inj hresult⟩
    · obtain ⟨second | _, last, hlast, rfl⟩ := Program.ask_reaches_done_iff.mp hrest
      · obtain ⟨rfl, hresult⟩ := Program.done_reaches_iff.mp hlast
        exact .inr (.inl ⟨second, rfl, Program.done.inj hresult⟩)
      · obtain ⟨rfl, hresult⟩ := Program.done_reaches_iff.mp hlast
        exact .inr (.inr ⟨rfl, Program.done.inj hresult⟩)
  · rintro (⟨e, rfl, rfl⟩ | ⟨e, rfl, rfl⟩ | ⟨rfl, rfl⟩)
    · exact .ask (.here _)
    · exact .ask (.ask (.here _))
    · exact .ask (.ask (.here _))

/-- The request ends the transaction that it is sent in. -/
def EndsTransaction (exchange : Program.Exchange Effect) : Prop :=
  ∃ ending reply, exchange = ended ending reply

lemma not_endsTransaction_isolating (settings : Settings) (reply : Except Database.Error Unit) :
    ¬ EndsTransaction (isolating settings reply) := by
  rintro ⟨ending, other, heq⟩
  have htext := congrArg (fun exchange => EffectRequest.text? exchange.request) heq
  cases hlevel : settings.isolationLevel <;> cases ending <;>
    simp [isolating, ended, EffectRequest.text?, hlevel] at htext <;>
    exact absurd htext (by decide)

namespace Session

variable (session : Session) (depth : Nat)

/-- A call that begins a transaction has sent nothing before, and goes on with the isolation level.
Only if that is set it does anything else, and then the last thing it does is to end the
transaction. -/
lemma perform_reaches_begun {call : Call} {result : Except Failure Response}
    (h : (session.perform depth call).run.Reaches (begun :: trace) (.done result)) :
    (∃ e, trace = [isolating session.settings (.error e)] ∧ result = .error (.database e)) ∨
      ∃ body ending reply,
        trace = isolating session.settings (.ok ()) :: (body ++ [ended ending reply]) := by
  rw [perform_eq] at h
  cases hdecode : session.decode depth call with
  | error failure =>
    rw [hdecode] at h
    obtain ⟨hnil, -⟩ := Program.done_reaches_iff.mp h
    cases hnil
  | ok operation =>
    rw [hdecode] at h
    obtain ⟨failure, hstart, hresult⟩ | ⟨opening, body, outcome, reply, hstart, -, -, htrace⟩ :=
      (session.inTransaction_reaches_iff operation).mp h
    · obtain ⟨e, htrace, -⟩ | ⟨e, htrace, hfailure⟩ | ⟨-, hfailure⟩ := start_reaches_iff.mp hstart
      · cases htrace
      · obtain rfl := List.cons.inj htrace |>.2
        cases hfailure
        exact .inl ⟨e, rfl, hresult⟩
      · cases hfailure
    · obtain ⟨e, -, hfailure⟩ | ⟨e, -, hfailure⟩ | ⟨rfl, -⟩ := start_reaches_iff.mp hstart
      · cases hfailure
      · cases hfailure
      · exact .inr ⟨body, closing outcome, reply, (List.cons.inj htrace).2⟩

/-- Once the database has accepted the beginning of its transaction, a call that returns has ended
the transaction exactly if the isolation level was set; and then nothing follows the ending. A
refused level is the last request of its call, which reports it. -/
theorem perform_ends_iff_isolated (call : Call) (trace : List (Program.Exchange Effect))
    (result : Except Failure Response)
    (h : (session.perform depth call).run.Reaches (begun :: trace) (.done result)) :
    ((∃ exchange ∈ trace, EndsTransaction exchange) ↔
        ∃ rest, trace = isolating session.settings (.ok ()) :: rest) ∧
      (∀ rest, trace = isolating session.settings (.ok ()) :: rest →
        ∃ body last, rest = body ++ [last] ∧ EndsTransaction last) ∧
      ∀ e rest, trace = isolating session.settings (.error e) :: rest →
        rest = [] ∧ result = .error (.database e) := by
  obtain ⟨e, rfl, rfl⟩ | ⟨body, ending, reply, rfl⟩ := session.perform_reaches_begun depth h
  · refine ⟨⟨?_, ?_⟩, ?_, ?_⟩
    · rintro ⟨exchange, hmem, hends⟩
      obtain rfl := List.mem_singleton.mp hmem
      exact absurd hends (not_endsTransaction_isolating session.settings (.error e))
    · rintro ⟨rest, heq⟩
      cases heq
    · rintro rest heq
      cases heq
    · rintro other rest heq
      cases heq
      exact ⟨rfl, rfl⟩
  · refine ⟨⟨fun _ => ⟨_, rfl⟩, fun _ => ⟨ended ending reply, by simp, ending, reply, rfl⟩⟩, ?_, ?_⟩
    · rintro rest heq
      cases heq
      exact ⟨body, ended ending reply, rfl, ending, reply, rfl⟩
    · rintro e rest heq
      cases heq

/-- A call that comes to a response has begun a transaction and set its isolation level. -/
lemma begun_of_reaches_ok {call : Call} {response : Response}
    (h : (session.perform depth call).run.Reaches trace (.done (.ok response))) :
    ∃ rest, trace = begun :: isolating session.settings (.ok ()) :: rest := by
  rw [perform_eq] at h
  cases hdecode : session.decode depth call with
  | error failure =>
    rw [hdecode] at h
    cases h
  | ok operation =>
    rw [hdecode] at h
    obtain ⟨failure, -, hresult⟩ | ⟨opening, body, outcome, reply, hstart, -, -, rfl⟩ :=
      (session.inTransaction_reaches_iff operation).mp h
    · cases hresult
    · obtain ⟨e, -, hfailure⟩ | ⟨e, -, hfailure⟩ | ⟨rfl, -⟩ := start_reaches_iff.mp hstart
      · cases hfailure
      · cases hfailure
      · exact ⟨body ++ [ended (closing outcome) reply], rfl⟩

/-- A call on input that can be decoded returns as soon as its isolation level is refused. -/
lemma perform_reaches_of_refused {call : Call} {operation : Action Effect (List Result)}
    (hdecode : session.decode depth call = .ok operation) (e : Database.Error) :
    (session.perform depth call).run.Reaches [begun, isolating session.settings (.error e)]
      (.done (.error (.database e))) := by
  rw [perform_eq, hdecode]
  refine (session.inTransaction_reaches_iff operation).mpr (.inl ⟨.database e, ?_, rfl⟩)
  exact start_reaches_iff.mpr (.inr (.inl ⟨e, rfl, rfl⟩))

/-- The creation of the author John. -/
def creatingJohn : Call := .create "Author" (.object [("name", .string "John")])

/-- The creation of an author ends its transaction. -/
theorem perform_ends_iff_isolated_author :
    ∃ trace result,
      ((perform ⟨authors, .standard⟩ 2 creatingJohn).run.Reaches (begun :: trace) (.done result)) ∧
      ∃ exchange ∈ trace, EndsTransaction exchange := by
  have hok : isAccepted
      (Script.run (perform ⟨authors, .standard⟩ 2 creatingJohn).run insertingWorld) = true := by
    decide +kernel
  rcases hrun : Script.run (perform ⟨authors, .standard⟩ 2 creatingJohn).run insertingWorld with
    _ | ⟨_ | response, final⟩
  · rw [hrun] at hok
    contradiction
  · rw [hrun] at hok
    contradiction
  · obtain ⟨trace, htrace⟩ := Program.reaches_of_run hrun
    obtain ⟨rest, rfl⟩ := begun_of_reaches_ok ⟨authors, .standard⟩ 2 htrace
    refine ⟨_, .ok response, htrace, ?_⟩
    have hends := perform_ends_iff_isolated ⟨authors, .standard⟩ 2 creatingJohn _ _ htrace
    exact hends.1.mpr ⟨rest, rfl⟩

/-- What the server reports for a command that took too long. -/
def timedOut : Database.ServerError :=
  ⟨"57014", "canceling statement due to statement timeout", "ERROR", none, none, none, none⟩

/-- The creation of an author, whose isolation level is refused, returns from an open transaction:
the database has accepted the beginning, and no request that it was sent is an ending. -/
theorem open_of_refused_isolation :
    ∃ trace result,
      ((perform ⟨authors, .standard⟩ 2 creatingJohn).run.Reaches (begun :: trace) (.done result)) ∧
      ∀ exchange ∈ trace, ¬ EndsTransaction exchange := by
  have hdecode : (decode ⟨authors, .standard⟩ 2 creatingJohn).isOk = true := by decide +kernel
  cases hoperation : decode ⟨authors, .standard⟩ 2 creatingJohn with
  | error failure =>
    rw [hoperation] at hdecode
    contradiction
  | ok operation =>
    refine ⟨_, _, perform_reaches_of_refused _ 2 hoperation timedOut.classified, ?_⟩
    rintro exchange hmem
    obtain rfl := List.mem_singleton.mp hmem
    exact not_endsTransaction_isolating _ _

end Session

end EntityGraph.Mutation
