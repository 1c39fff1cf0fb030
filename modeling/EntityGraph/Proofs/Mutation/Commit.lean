import EntityGraph.Mutation.Transaction
import EntityGraph.Proofs.Mutation.Statements
import EntityGraph.Proofs.Schema.Building
import EntityGraph.Script.Database
/-!
# Endings of transactions

Every mutation that can be read runs in a transaction. Once its operation on rows has come to an
outcome, nothing but the ending of the transaction is sent: a commit if every result is good, and a
rollback otherwise.
-/
namespace EntityGraph.Mutation

open Database (Ending Transaction)

variable {trace : List (Program.Exchange Effect)}

/-- A mutation as the client asks for it. -/
inductive Call where
  | create (entity : String) (data : Json)
  | update (entity : String) (which data : Json)
  | delete (entity : String) (which : Json)

namespace Session

variable (session : Session) (depth : Nat)

def perform : Call → Action Effect Response
  | .create entity data => session.create depth entity data
  | .update entity which data => session.update depth entity which data
  | .delete entity which => session.delete depth entity which

/-- The operation on rows that a call asks for, if its input can be decoded. -/
def decode : Call → Except Failure (Action Effect (List Result))
  | .create entity data => do
    let entity ← session.entity entity
    let data ← (Data.ofJson session.schema entity data).mapError .input
    .ok (session.rows depth (.insert entity data))
  | .update entity which data => do
    let entity ← session.entity entity
    let which ← (UniqueWhere.ofJson session.schema entity which).mapError .input
    let data ← (Data.ofJson session.schema entity data).mapError .input
    .ok (session.rows depth (.update entity which data))
  | .delete entity which => do
    let entity ← session.entity entity
    let which ← (UniqueWhere.ofJson session.schema entity which).mapError .input
    .ok (session.rows depth (.delete entity which))

end Session

/-- The outcome of an operation without a failure and without a failed result at any path. -/
def Clean (outcome : Except Failure (List Result)) : Prop :=
  ∃ results, outcome = .ok results ∧ ∀ result ∈ results,
    result.outcome.kind ∉ [.notFound, .noResult, .constraintViolation, .input]

/-- What the client is told, once the database has answered the ending of the transaction. -/
def concluded (outcome : Except Failure (List Result)) (reply : Except Database.Error Unit) :
    Except Failure Response := do
  let results ← outcome
  reply.mapError .database
  .ok ⟨results⟩

/-- The ending of a transaction, with the answer to it. -/
def ended (ending : Ending) (reply : Except Database.Error Unit) : Program.Exchange Effect :=
  ⟨.command ending.text, reply⟩

/-- No request before the last one sends a `COMMIT` or a `ROLLBACK`; so there is at most one, and
nothing follows it. -/
def EndsLast (trace : List (Program.Exchange Effect)) : Prop :=
  ∀ exchange ∈ trace.dropLast, exchange.request.Quiet

/-! ### Responses -/

lemma Result.isError_iff (result : Result) :
    result.isError = true ↔
      result.outcome.kind ∈ [.notFound, .noResult, .constraintViolation, .input] := by
  rw [isError]
  cases result.outcome.kind <;> decide

lemma Response.isOk_iff (results : List Result) : (Response.mk results).isOk = true ↔
    ∀ result ∈ results,
      result.outcome.kind ∉ [.notFound, .noResult, .constraintViolation, .input] := by
  simp only [isOk, errors, List.isEmpty_iff, List.filterMap_eq_nil_iff, ← Result.isError_iff,
    ← Response.errorOf?_isSome, Bool.not_eq_true, Option.isSome_eq_false_iff,
    Option.isNone_iff_eq_none]

lemma clean_iff {outcome : Except Failure (List Result)} :
    Clean outcome ↔ ∃ results, outcome = .ok results ∧ (Response.mk results).isOk = true := by
  simp only [Clean, Response.isOk_iff]

/-! ### Transactions -/

lemma quiet_start (settings : Settings) : Quiet (start settings) := by
  refine ⟨.of_text rfl fun ending => by cases ending <;> decide, fun reply => ?_⟩
  cases reply with
  | error e => trivial
  | ok _ =>
    refine ⟨.of_text rfl fun ending => ?_, fun reply => ?_⟩
    · cases settings.isolationLevel <;> cases ending <;> decide
    · cases reply <;> trivial

/-- A transaction that has started is open. -/
lemma start_reaches {settings : Settings} {transaction : Transaction}
    (h : (start settings).run.Reaches trace (.done (.ok transaction))) :
    transaction = ⟨false⟩ := by
  cases h with
  | @ask _ _ reply _ _ tail =>
    cases reply with
    | error e => cases tail
    | ok _ =>
      cases tail with
      | @ask _ _ reply _ _ tail =>
        cases reply with
        | error e => cases tail
        | ok _ => cases tail; rfl

/-- How the transaction ends in which an operation came to the outcome. -/
def closing : Except Failure (List Result) → Ending
  | .ok results => if (Response.mk results).isOk then .commit else .rollback
  | .error _ => .rollback

lemma closing_eq_commit_iff {outcome : Except Failure (List Result)} :
    closing outcome = .commit ↔ Clean outcome := by
  rw [clean_iff]
  cases outcome <;> simp [closing]

lemma eq_closing_iff {outcome : Except Failure (List Result)} {ending : Ending} :
    ending = closing outcome ↔ (ending = .commit ↔ Clean outcome) := by
  rw [← closing_eq_commit_iff]
  cases ending <;> cases closing outcome <;> decide

/-- An open transaction is ended by one command, and closed by it whatever the answer is. -/
lemma transaction_finish_reaches_iff {ending : Ending}
    {result : Except Database.Error Unit × Transaction} :
    ((⟨false⟩ : Transaction).finish ending).Reaches trace (.done result) ↔
      ∃ reply, result = (reply, ⟨true⟩) ∧ trace = [ended ending reply] := by
  refine Program.ask_reaches_done_iff.trans ⟨?_, ?_⟩
  · rintro ⟨reply, tail, htail, rfl⟩
    obtain ⟨rfl, hresult⟩ := Program.done_reaches_iff.mp htail
    exact ⟨reply, Program.done.inj hresult, rfl⟩
  · rintro ⟨reply, rfl, rfl⟩
    exact ⟨reply, [], .here _, rfl⟩

lemma concluded_eq_ok {outcome : Except Failure (List Result)} {response : Response}
    {reply : Except Database.Error Unit} (h : .ok response = concluded outcome reply) :
    outcome = .ok response.results ∧ reply = .ok () := by
  cases outcome with
  | error failure => cases h
  | ok results =>
    cases reply with
    | error e => cases h
    | ok _ => cases h; exact ⟨rfl, rfl⟩

/-- The ending of a transaction depends on the outcome; the answer to it may still fail a response
that was good. -/
lemma finish_reaches_iff {outcome : Except Failure (List Result)}
    {result : Except Failure Response} :
    (finish ⟨false⟩ (outcome.map Response.mk)).run.Reaches trace (.done result) ↔
      ∃ reply, result = concluded outcome reply ∧
        trace = [ended (closing outcome) reply] := by
  have hend (ending : Ending)
      (next : Except Database.Error Unit × Transaction → Program Effect (Except Failure Response))
      (hnext : ∀ reply trace, (next (reply, ⟨true⟩)).Reaches trace (.done result) ↔
        trace = [] ∧ result = concluded outcome reply) :
      ((⟨false⟩ : Transaction).finish ending >>= next).Reaches trace (.done result) ↔
        ∃ reply, result = concluded outcome reply ∧ trace = [ended ending reply] := by
    rw [Program.bind_reaches_done_iff]
    constructor
    · rintro ⟨first, _, second, hfirst, hsecond, rfl⟩
      obtain ⟨reply, rfl, rfl⟩ := transaction_finish_reaches_iff.mp hfirst
      obtain ⟨rfl, hresult⟩ := (hnext reply second).mp hsecond
      exact ⟨reply, hresult, rfl⟩
    · rintro ⟨reply, hresult, rfl⟩
      exact ⟨_, _, [], transaction_finish_reaches_iff.mpr ⟨reply, rfl, rfl⟩,
        (hnext reply []).mpr ⟨rfl, hresult⟩, rfl⟩
  cases outcome with
  | ok results =>
    have hdone (reply : Except Database.Error Unit) (trace : List (Program.Exchange Effect)) :
        (Program.done ((reply.mapError Failure.database).map fun _ => Response.mk results)).Reaches
          trace (.done result) ↔ trace = [] ∧ result = concluded (.ok results) reply := by
      rw [Program.done_reaches_iff]
      cases reply <;> simp [concluded, Except.mapError, Except.map, bind, Except.bind]
    let next (reply : Except Database.Error Unit × Transaction) :
        Program Effect (Except Failure Response) :=
      .done ((reply.1.mapError .database).map fun _ => ⟨results⟩)
    show (finish ⟨false⟩ (.ok ⟨results⟩)).run.Reaches trace (.done result) ↔ _
    cases h : (Response.mk results).isOk with
    | true =>
      simp only [finish, closing, h, Bool.not_true, Bool.false_eq_true, if_true, if_false]
      exact hend .commit next hdone
    | false =>
      simp only [finish, closing, h, Bool.not_false, Bool.false_eq_true, if_true, if_false]
      exact Program.note_reaches_done_iff.trans (hend .rollback next hdone)
  | error failure =>
    refine hend .rollback _ fun reply trace => ?_
    cases reply with
    | ok _ => exact Program.done_reaches_iff.trans (by simp [concluded, bind, Except.bind])
    | error e =>
      exact (Program.note_reaches_done_iff.trans Program.done_reaches_iff).trans
        (by simp [concluded, bind, Except.bind])

/-- An attempt comes to every outcome as a value. -/
lemma attempt_reaches_iff {α : Type} {action : Action Effect α}
    {result : Except Failure (Except Failure α)} :
    (attempt action).run.Reaches trace (.done result) ↔
      ∃ outcome, action.run.Reaches trace (.done outcome) ∧ result = .ok outcome := by
  refine Program.bind_reaches_done_iff.trans ⟨?_, ?_⟩
  · rintro ⟨first, outcome, second, hfirst, hsecond, rfl⟩
    obtain ⟨rfl, hresult⟩ := Program.done_reaches_iff.mp hsecond
    exact ⟨outcome, by rwa [List.append_nil], Program.done.inj hresult⟩
  · rintro ⟨outcome, haction, rfl⟩
    exact ⟨trace, outcome, [], haction, .here _, (List.append_nil trace).symm⟩

lemma attempt_reaches_ok_iff {α : Type} {action : Action Effect α} {outcome : Except Failure α} :
    (attempt action).run.Reaches trace (.done (.ok outcome)) ↔
      action.run.Reaches trace (.done outcome) := by
  rw [attempt_reaches_iff]
  refine ⟨?_, fun h => ⟨outcome, h, rfl⟩⟩
  rintro ⟨_, h, heq⟩
  cases heq
  exact h

namespace Session

variable (session : Session) (operation : Action Effect (List Result))

/-- A run of an operation in its transaction: the transaction does not start, or the operation comes
to an outcome and the ending follows. -/
lemma inTransaction_reaches_iff {result : Except Failure Response} :
    (session.inTransaction operation).run.Reaches trace (.done result) ↔
      (∃ failure, (start session.settings).run.Reaches trace (.done (.error failure)) ∧
        result = .error failure) ∨
      ∃ opening body outcome reply,
        (start session.settings).run.Reaches opening (.done (.ok ⟨false⟩)) ∧
        operation.run.Reaches body (.done outcome) ∧ result = concluded outcome reply ∧
        trace = opening ++ body ++ [ended (closing outcome) reply] := by
  rw [inTransaction, Program.run_bind_reaches_done_iff]
  refine or_congr_right ⟨?_, ?_⟩
  · rintro ⟨opening, transaction, rest, hopening, hrest, rfl⟩
    obtain rfl := start_reaches hopening
    obtain ⟨failure, hattempt, -⟩ | ⟨body, outcome, last, hattempt, hlast, rfl⟩ :=
      Program.run_bind_reaches_done_iff.mp hrest
    · obtain ⟨_, _, hcontra⟩ := attempt_reaches_iff.mp hattempt
      cases hcontra
    · obtain ⟨_, hbody, heq⟩ := attempt_reaches_iff.mp hattempt
      cases heq
      obtain ⟨reply, hresult, rfl⟩ := finish_reaches_iff.mp hlast
      exact ⟨opening, body, outcome, reply, hopening, hbody, hresult,
        (List.append_assoc ..).symm⟩
  · rintro ⟨opening, body, outcome, reply, hopening, hbody, hresult, rfl⟩
    refine ⟨opening, ⟨false⟩, body ++ [ended (closing outcome) reply], hopening, ?_,
      List.append_assoc ..⟩
    have hattempt := attempt_reaches_iff.mpr ⟨outcome, hbody, rfl⟩
    have hlast := finish_reaches_iff.mpr ⟨reply, hresult, rfl⟩
    exact Program.run_bind_reaches_done_iff.mpr (.inr ⟨body, outcome, _, hattempt, hlast, rfl⟩)

end Session

/-! ### Interrupted runs -/

/-- No question follows one that may end a transaction. -/
def EndsOnce {α : Type} : Program Effect α → Prop
  | .done _ => True
  | .note _ rest => EndsOnce rest
  | .ask (request : EffectRequest) next =>
    (request.Quiet ∧ ∀ reply, EndsOnce (next reply)) ∨ ∀ reply, (next reply).Asks fun _ => False

section EndsOnce

variable {α β : Type} {program : Program Effect α} {next : α → Program Effect β}

lemma endsOnce_of_asks_nothing (h : program.Asks fun _ => False) : EndsOnce program := by
  induction program with
  | done a => trivial
  | note event rest ih => exact ih h
  | ask request next ih => exact h.1.elim

lemma endsOnce_bind (hprogram : program.Asks EffectRequest.Quiet)
    (hnext : ∀ a, EndsOnce (next a)) : EndsOnce (program >>= next) := by
  induction program with
  | done a => exact hnext a
  | note event rest ih => exact ih hprogram
  | ask request answered ih =>
    exact .inl ⟨hprogram.1, fun reply => ih reply (hprogram.2 reply)⟩

lemma endsOnce_run_bind {action : Action Effect α} {next : α → Action Effect β}
    (haction : Quiet action) (hnext : ∀ a, EndsOnce (next a).run) :
    EndsOnce (action >>= next).run := by
  rw [ExceptT.run_bind]
  refine endsOnce_bind haction fun result => ?_
  cases result with
  | ok a => exact hnext a
  | error e => trivial

lemma endsLast_of_reaches (h : EndsOnce program) {rest : Program Effect α}
    (hrun : program.Reaches trace rest) : EndsLast trace := by
  induction hrun with
  | here => simp [EndsLast]
  | note _ ih => exact ih h
  | @ask request next reply last trace tail ih =>
    obtain ⟨hquiet, hnext⟩ | hnothing := h
    · intro exchange hmem
      cases trace with
      | nil => simp at hmem
      | cons head trace =>
        obtain rfl | hmem := List.mem_cons.mp hmem
        · exact hquiet
        · exact ih (hnext reply) exchange hmem
    · obtain rfl : trace = [] := by
        refine List.eq_nil_iff_forall_not_mem.mpr fun exchange hmem => ?_
        exact (hnothing reply).of_reaches tail exchange hmem
      simp [EndsLast]

lemma endsOnce_finish (transaction : Transaction) (outcome : Except Failure Response) :
    EndsOnce (finish transaction outcome).run := by
  have hend (ending : Ending)
      (next : Except Database.Error Unit × Transaction → Program Effect (Except Failure Response))
      (hnext : ∀ reply, (next reply).Asks fun _ => False) :
      EndsOnce (transaction.finish ending >>= next) := by
    rw [Transaction.finish]
    split
    · exact endsOnce_of_asks_nothing (hnext _)
    · exact .inr fun reply => hnext (reply, ⟨true⟩)
  cases outcome with
  | ok response =>
    have hnext (reply : Except Database.Error Unit × Transaction) : (Program.done (I := Effect)
        ((reply.1.mapError Failure.database).map fun _ => response)).Asks fun _ => False := trivial
    cases h : response.isOk with
    | true =>
      simp only [finish, h, Bool.not_true, Bool.false_eq_true, if_true, if_false]
      exact hend .commit _ hnext
    | false =>
      simp only [finish, h, Bool.not_false, Bool.false_eq_true, if_true, if_false]
      exact hend .rollback _ hnext
  | error failure =>
    refine hend .rollback _ fun reply => ?_
    obtain ⟨_ | _, _⟩ := reply <;> trivial

end EndsOnce

namespace Session

variable (session : Session) (depth : Nat)

lemma endsOnce_inTransaction {operation : Action Effect (List Result)} (h : Quiet operation) :
    EndsOnce (session.inTransaction operation).run :=
  endsOnce_run_bind (quiet_start session.settings) fun transaction =>
    endsOnce_run_bind h.attempt fun _ => endsOnce_finish transaction _

/-! ### Calls -/

/-- A call is refused before its transaction starts, or runs in it as decoded. -/
lemma perform_eq (call : Call) :
    session.perform depth call =
      liftExcept (session.decode depth call) >>= session.inTransaction := by
  have hbind {γ δ : Type} (outcome : Except Failure γ) (next : γ → Except Failure δ)
      (last : δ → Action Effect Response) :
      (liftExcept (outcome >>= next) >>= last) =
        liftExcept outcome >>= fun c => liftExcept (next c) >>= last := by
    cases outcome <;> rfl
  cases call <;> simp only [decode, hbind] <;> rfl

lemma quiet_of_decode {call : Call} {operation : Action Effect (List Result)}
    (h : session.decode depth call = .ok operation) : Quiet operation := by
  cases call with
  | create name data =>
    obtain ⟨entity, -, h⟩ := Except.bind_eq_ok.mp h
    obtain ⟨data, -, h⟩ := Except.bind_eq_ok.mp h
    cases h
    exact session.quiet_rows depth _
  | update name which data =>
    obtain ⟨entity, -, h⟩ := Except.bind_eq_ok.mp h
    obtain ⟨which, -, h⟩ := Except.bind_eq_ok.mp h
    obtain ⟨data, -, h⟩ := Except.bind_eq_ok.mp h
    cases h
    exact session.quiet_rows depth _
  | delete name which =>
    obtain ⟨entity, -, h⟩ := Except.bind_eq_ok.mp h
    obtain ⟨which, -, h⟩ := Except.bind_eq_ok.mp h
    cases h
    exact session.quiet_rows depth _

/-- Only good mutations are committed. On every run, interrupted or complete, an ending is the last
request, and input that cannot be decoded asks for nothing. A complete run whose operation came to
an outcome ends with a commit if the outcome is clean and with a rollback otherwise; and the client
is told of success only after the database has accepted a commit. -/
theorem perform_commits_iff_clean (call : Call) :
    (∀ trace rest, (session.perform depth call).run.Reaches trace rest → EndsLast trace) ∧
    (∀ failure, session.decode depth call = .error failure →
      ∀ trace rest, (session.perform depth call).run.Reaches trace rest →
        trace = [] ∧ rest = .done (.error failure)) ∧
    (∀ operation, session.decode depth call = .ok operation →
      ∀ trace result, (session.perform depth call).run.Reaches trace (.done result) ↔
        (∃ failure, (start session.settings).run.Reaches trace (.done (.error failure)) ∧
          (∀ exchange ∈ trace, exchange.request.Quiet) ∧ result = .error failure) ∨
        ∃ opening body outcome ending reply,
          (start session.settings).run.Reaches opening (.done (.ok ⟨false⟩)) ∧
          operation.run.Reaches body (.done outcome) ∧
          (ending = .commit ↔ Clean outcome) ∧ result = concluded outcome reply ∧
          trace = opening ++ body ++ [ended ending reply]) ∧
    ∀ trace response, (session.perform depth call).run.Reaches trace (.done (.ok response)) →
      response.isOk → ∃ before, trace = before ++ [ended .commit (.ok ())] := by
  rw [perform_eq]
  cases hdecode : session.decode depth call with
  | error failure =>
    have hrun : (liftExcept (.error failure) >>= session.inTransaction).run =
      .done (.error failure) := rfl
    rw [hrun]
    refine ⟨fun trace rest hreaches => ?_, fun other heq trace rest hreaches => ?_, ?_, ?_⟩
    · obtain ⟨rfl, -⟩ := Program.done_reaches_iff.mp hreaches
      simp [EndsLast]
    · cases heq
      exact Program.done_reaches_iff.mp hreaches
    · rintro operation ⟨⟩
    · intro trace response hreaches
      cases hreaches
  | ok operation =>
    have hquiet := session.quiet_of_decode depth hdecode
    have hrun : liftExcept (.ok operation) >>= session.inTransaction =
      session.inTransaction operation := rfl
    rw [hrun]
    refine ⟨fun trace rest hreaches => ?_, ?_, fun other heq trace result => ?_, ?_⟩
    · exact endsLast_of_reaches (session.endsOnce_inTransaction hquiet) hreaches
    · rintro failure ⟨⟩
    · cases heq
      rw [inTransaction_reaches_iff]
      refine or_congr (exists_congr fun failure => and_congr_right fun hstart => ?_) ?_
      · exact (and_iff_right ((quiet_start session.settings).of_reaches hstart)).symm
      · constructor
        · rintro ⟨opening, body, outcome, reply, hopening, hbody, hresult, rfl⟩
          exact ⟨opening, body, outcome, closing outcome, reply, hopening, hbody,
            eq_closing_iff.mp rfl, hresult, rfl⟩
        · rintro ⟨opening, body, outcome, ending, reply, hopening, hbody, hending, hresult, rfl⟩
          obtain rfl := eq_closing_iff.mpr hending
          exact ⟨opening, body, outcome, reply, hopening, hbody, hresult, rfl⟩
    · intro trace response hreaches hok
      obtain ⟨failure, -, heq⟩ | ⟨opening, body, outcome, reply, -, -, hresult, rfl⟩ :=
        (session.inTransaction_reaches_iff operation).mp hreaches
      · cases heq
      · obtain ⟨rfl, rfl⟩ := concluded_eq_ok hresult
        have hclosing : closing (.ok response.results) = .commit := if_pos hok
        exact ⟨opening ++ body, by rw [hclosing]⟩

/-- A schema of authors with a name. -/
def authors : Schema := .ofDefinitions [("Author", [.column "name" .string])]

/-- A database that gives the key 1 to the row it inserts. -/
def insertingWorld : Script.World :=
  { Script.World.empty with responses := [⟨"INSERT", false, .rows ⟨["id"], [[.int 1]], none⟩⟩] }

/-- Whether a run in a scripted world comes to a good response. -/
def isAccepted : Option (Except Failure Response × Script.World) → Bool
  | some (.ok response, _) => response.isOk
  | _ => false

/-- An author is created, and the run ends with an accepted commit. -/
theorem perform_commits_iff_clean_author :
    let program := (perform ⟨authors, .standard⟩ 2
      (.create "Author" (.object [("name", .string "John")]))).run
    ∃ before response, program.Reaches (before ++ [ended .commit (.ok ())]) (.done (.ok response)) ∧
      response.isOk := by
  intro program
  have hok : isAccepted (Script.run program insertingWorld) = true := by decide +kernel
  rcases hrun : Script.run program insertingWorld with _ | ⟨_ | response, final⟩
  · rw [hrun] at hok
    contradiction
  · rw [hrun] at hok
    contradiction
  · rw [hrun] at hok
    obtain ⟨trace, htrace⟩ := Program.reaches_of_run hrun
    obtain ⟨-, -, -, hcommit⟩ := perform_commits_iff_clean ⟨authors, .standard⟩ 2
      (.create "Author" (.object [("name", .string "John")]))
    obtain ⟨before, rfl⟩ := hcommit trace response htrace hok
    exact ⟨before, response, htrace, hok⟩

end Session

end EntityGraph.Mutation
