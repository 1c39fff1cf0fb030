import EntityGraph.Proofs.Mutation.Guarding
import EntityGraph.Proofs.Mutation.OpenTransaction
/-!
# Violations that are reported

A server that aborts transactions refuses every statement after a failed one, except the rollback.
When the statement that failed violated a constraint, the client is told of that as long as the
mutation sends nothing more; the refusal of a further statement fails the whole call.
-/
namespace EntityGraph.Mutation

open Database (ServerError Ending)

/-! ### The server -/

/-- The constraint that a state code of the server stands for. -/
def violationOfState : String → Option ConstraintKind
  | "23505" => some .uniqueKey
  | "23502" => some .notNull
  | "23503" => some .foreignKey
  | _ => none

lemma violation?_classified (e : ServerError) :
    violation? e.classified = violationOfState e.code := by
  have hfault : e.classified.fault = e.fault := rfl
  rw [violation?, hfault]
  fun_cases ServerError.fault e <;> simp_all [violationOfState]

/-- A server in an aborted transaction gives this answer: a rollback is accepted, and every other
statement is refused. -/
def IsAborted (exchange : Program.Exchange Effect) : Prop :=
  ∀ text, exchange.request.text? = some text →
    if text = Ending.rollback.text then exchange.error? = none
    else ∃ e : ServerError, e.code = "25P02" ∧ exchange.error? = some e.classified

/-- The request is no statement but a rollback. -/
def AtMostRollsBack (request : EffectRequest) : Prop :=
  ∀ text, request.text? = some text → text = Ending.rollback.text

/-- A statement by which an operation writes rows, or has checked what it has written. -/
def WritesRows : EffectRequest → Prop
  | .query (.select _) => False
  | .query _ => True
  | .execute _ => True
  | .command text => text = deferConstraints ∨ text = checkConstraints
  | _ => False

variable {before after : List (Program.Exchange Effect)} {violating : Program.Exchange Effect}

lemma IsAborted.refused {exchange : Program.Exchange Effect} (h : IsAborted exchange)
    (hsent : ¬ AtMostRollsBack exchange.request) :
    ∃ e, exchange.error? = some e ∧ violation? e = none := by
  obtain ⟨text, htext, hother⟩ : ∃ text, exchange.request.text? = some text ∧
      text ≠ Ending.rollback.text := by
    simpa only [AtMostRollsBack, not_forall, exists_prop] using hsent
  have hrefused := h text htext
  rw [if_neg hother] at hrefused
  obtain ⟨e, hcode, he⟩ := hrefused
  exact ⟨e.classified, he, by rw [violation?_classified, hcode]; rfl⟩

/-! ### Statements of a run -/

lemma mem_statements {exchange : Program.Exchange Effect}
    {trace : List (Program.Exchange Effect)} :
    exchange ∈ statements trace ↔ exchange ∈ trace ∧ exchange.request.text?.isSome :=
  List.mem_filter

/-- Only a statement has an error. -/
lemma isSome_text?_of_error? {exchange : Program.Exchange Effect} {e : Database.Error}
    (h : exchange.error? = some e) : exchange.request.text?.isSome := by
  obtain ⟨request, reply⟩ := exchange
  cases (request : EffectRequest) with
  | query sent => rfl
  | execute sent => rfl
  | command text => rfl
  | _ => cases h

lemma statements_eq_nil (hquiet : ∀ exchange ∈ after, exchange.request.Quiet)
    (hlast : ∀ exchange ∈ after, AtMostRollsBack exchange.request) : statements after = [] := by
  refine List.filter_eq_nil_iff.mpr fun exchange hmem hsome => ?_
  obtain ⟨text, htext⟩ := Option.isSome_iff_exists.mp hsome
  refine hquiet exchange hmem .rollback ?_
  rw [htext, hlast exchange hmem text htext]

lemma statements_split {e : Database.Error} (hviolating : violating.error? = some e) :
    statements (before ++ violating :: after) =
      statements before ++ violating :: statements after :=
  (List.filter_append before _).trans
    (congrArg _ (List.filter_cons_of_pos (isSome_text?_of_error? hviolating)))

/-- The first failed statement violated a constraint, and the next one was refused. -/
lemma broken_statements {later : Program.Exchange Effect} (hmem : later ∈ after)
    (haborted : IsAborted later) (hsent : ¬ AtMostRollsBack later.request) :
    (statements (before ++ violating :: after)).Broken := by
  obtain ⟨e, he, hnone⟩ := haborted.refused hsent
  refine ⟨later, mem_statements.mpr ⟨?_, isSome_text?_of_error? he⟩, e, he, hnone⟩
  exact List.mem_append_right _ (List.mem_cons_of_mem _ hmem)

lemma violates_statements {e : Database.Error} {kind : ConstraintKind}
    (hbefore : ∀ exchange ∈ before, exchange.error? = none)
    (hviolating : violating.error? = some e) (hkind : violation? e = some kind)
    (hafter : statements after = []) :
    (statements (before ++ violating :: after)).Violates kind := by
  rw [statements_split hviolating, hafter]
  exact ⟨statements before, violating, e, rfl,
    fun exchange hmem => hbefore exchange (mem_statements.mp hmem).1, hviolating, hkind⟩

/-! ### Endings -/

/-- The client is told of the violation by a response. -/
def IsReported (kind : ConstraintKind) (result : Except Failure Response) : Prop :=
  ∃ response, result = .ok response ∧ response.isOk = false ∧
    ∃ error ∈ response.errors, (Outcome.violation kind).errorKind? = some error.kind

lemma error_of_fatal {outcome : Except Failure (List Result)}
    {reply : Except Database.Error Unit} (h : Fatal outcome) :
    ∃ failure, outcome = .error failure ∧ concluded outcome reply = .error failure := by
  obtain ⟨failure, rfl, -⟩ := h
  exact ⟨failure, rfl, rfl⟩

/-- A transaction whose ending is refused fails the call. -/
lemma error_of_refused {outcome : Except Failure (List Result)} (e : Database.Error) :
    ∃ failure, concluded outcome (.error e) = .error failure := by
  cases outcome with
  | ok results => exact ⟨.database e, rfl⟩
  | error failure => exact ⟨failure, rfl⟩

lemma isReported_of_mem {results : List Result} {kind : ConstraintKind}
    (h : kind ∈ violations results) : IsReported kind (concluded (.ok results) (.ok ())) := by
  obtain ⟨result, hmem, houtcome⟩ := h
  obtain ⟨errorKind, herror⟩ : ∃ error, (Outcome.violation kind).errorKind? = some error := by
    cases kind <;> exact ⟨_, rfl⟩
  have herrorOf : Response.errorOf? result =
      some ⟨errorKind, result.outcome.message?, result.path⟩ := by
    rw [Response.errorOf?, houtcome, herror]
    rfl
  have hmemErrors : (⟨errorKind, result.outcome.message?, result.path⟩ : ResponseError) ∈
      (Response.mk results).errors := List.mem_filterMap.mpr ⟨result, hmem, herrorOf⟩
  refine ⟨⟨results⟩, rfl, ?_, _, hmemErrors, herror⟩
  rw [Response.isOk, List.isEmpty_eq_false_iff]
  exact List.ne_nil_of_mem hmemErrors

lemma error?_ended {ending : Ending} {reply : Except Database.Error Unit} {e : Database.Error} :
    (ended ending reply).error? = some e ↔ reply = .error e := by
  cases reply <;> simp [ended, Program.Exchange.error?]

lemma atMostRollsBack_ended {ending : Ending} {reply : Except Database.Error Unit} :
    AtMostRollsBack (ended ending reply).request ↔ ending = .rollback := by
  constructor
  · intro h
    have htext := h ending.text rfl
    cases ending with
    | commit => exact absurd htext (by decide)
    | rollback => rfl
  · rintro rfl text htext
    exact (Option.some.inj htext).symm

lemma not_writesRows_ended {ending : Ending} {reply : Except Database.Error Unit} :
    ¬ WritesRows (ended ending reply).request := by
  rintro (h | h)
  · cases ending <;> exact absurd h (by decide)
  · cases ending <;> exact absurd h (by decide)

lemma not_writesRows_begin : ¬ WritesRows (.command "BEGIN") := by
  rintro (h | h) <;> exact absurd h (by decide)

lemma not_writesRows_isolating (settings : Settings) (reply : Except Database.Error Unit) :
    ¬ WritesRows (isolating settings reply).request := by
  rintro (h | h) <;> cases hlevel : settings.isolationLevel <;>
    simp [hlevel] at h <;> exact absurd h (by decide)

namespace Session

variable (session : Session) (depth : Nat)

/-! ### Calls -/

/-- A decoded operation accounts for its statements, however its access rules answer. -/
lemma meets_of_decode {call : Call} {operation : Action Effect (List Result)}
    (h : session.decode depth call = .ok operation) :
    operation.run.Meets
      (effectContract session.schema (fun _ _ _ _ => True) fun _ => True)
      fun log outcome => Reports ∅ violations log outcome ∧ SettledButLookup log outcome := by
  cases call with
  | create name data =>
    obtain ⟨entity, -, h⟩ := Except.bind_eq_ok.mp h
    obtain ⟨data, -, h⟩ := Except.bind_eq_ok.mp h
    cases h
    exact session.meets_rows (fun _ _ => trivial) depth (.insert entity data) trivial
  | update name which data =>
    obtain ⟨entity, -, h⟩ := Except.bind_eq_ok.mp h
    obtain ⟨which, -, h⟩ := Except.bind_eq_ok.mp h
    obtain ⟨data, -, h⟩ := Except.bind_eq_ok.mp h
    cases h
    have hrows : (session.rows depth (.update entity which data)).Meets
        (effectContract session.schema (fun _ _ _ _ => True) fun _ => True)
        (RowRequest.update entity which data).Answers :=
      session.meets_rows (fun _ _ => trivial) depth _ trivial
    exact hrows.mono fun _ _ hanswers => ⟨hanswers.1, hanswers.2.1⟩
  | delete name which =>
    obtain ⟨entity, -, h⟩ := Except.bind_eq_ok.mp h
    obtain ⟨which, -, h⟩ := Except.bind_eq_ok.mp h
    cases h
    exact session.meets_rows (fun _ _ => trivial) depth (.delete entity which) trivial

lemma reports_of_decode {call : Call} {operation : Action Effect (List Result)}
    (h : session.decode depth call = .ok operation) {body : List (Program.Exchange Effect)}
    {outcome : Except Failure (List Result)} (hbody : operation.run.Reaches body (.done outcome)) :
    Reports ∅ violations (statements body) outcome ∧
      SettledButLookup (statements body) outcome := by
  have hobeys : ∀ exchange ∈ body, exchange.Obeys fun _ _ _ _ => True := by
    rintro ⟨request, reply⟩ -
    cases (request : EffectRequest) <;> trivial
  exact ((session.meets_of_decode depth h).of_reaches (logs_of_obeys hobeys) hbody).2 outcome rfl

end Session

/-- A failed exchange of a transaction that started belongs to its body, or is the ending. -/
lemma failed_of_transaction {opening body : List (Program.Exchange Effect)}
    {last : Program.Exchange Effect} (hopening : ∀ exchange ∈ opening, exchange.error? = none)
    {e : Database.Error} (hviolating : violating.error? = some e)
    (h : before ++ violating :: after = opening ++ body ++ [last]) :
    (violating = last ∧ after = []) ∨
      ∃ earlier later, before = opening ++ earlier ∧ body = earlier ++ violating :: later ∧
        after = later ++ [last] := by
  obtain rfl | ⟨later, final, rfl⟩ := after.eq_nil_or_concat'
  · exact .inl ⟨List.singleton_inj.mp (List.append_inj' h rfl).2, rfl⟩
  · rw [← List.cons_append, ← List.append_assoc] at h
    obtain ⟨hinit, hfinal⟩ := List.append_inj' h rfl
    obtain rfl := List.singleton_inj.mp hfinal
    obtain ⟨earlier, rfl, hbody⟩ | ⟨rest, rfl, htail⟩ := List.append_eq_append_iff.mp hinit.symm
    · exact .inr ⟨earlier, later, rfl, hbody, rfl⟩
    · cases rest with
      | nil => exact .inr ⟨[], later, by simp, htail.symm, rfl⟩
      | cons first rest =>
        obtain rfl := (List.cons.inj htail).1
        have hnone := hopening violating (by simp)
        rw [hviolating] at hnone
        cases hnone

namespace Session

variable (session : Session) (depth : Nat)

/-- What becomes of a violation in the body of a transaction. -/
lemma concluded_of_violation {call : Call} {operation : Action Effect (List Result)}
    (hdecode : session.decode depth call = .ok operation)
    {outcome : Except Failure (List Result)} {reply : Except Database.Error Unit}
    {e : Database.Error} {kind : ConstraintKind}
    (hbody : operation.run.Reaches (before ++ violating :: after) (.done outcome))
    (hbefore : ∀ exchange ∈ before, exchange.error? = none)
    (hviolating : violating.error? = some e) (hkind : violation? e = some kind)
    (hafter : ∀ later ∈ after, IsAborted later)
    (hlast : IsAborted (ended (closing outcome) reply)) :
    ((∃ later ∈ after ++ [ended (closing outcome) reply], ¬ AtMostRollsBack later.request) →
      ∃ failure, concluded outcome reply = .error failure) ∧
    ((∀ later ∈ after ++ [ended (closing outcome) reply], AtMostRollsBack later.request) →
      WritesRows violating.request → IsReported kind (concluded outcome reply) ∨
        ∃ failure, concluded outcome reply = .error failure ∧ failure.isLocal) := by
  obtain ⟨hreports, hsettled⟩ := session.reports_of_decode depth hdecode hbody
  constructor
  · rintro ⟨later, hmem, hsent⟩
    obtain hmem | hmem := List.mem_append.mp hmem
    · have hbroken : (statements (before ++ violating :: after)).Broken :=
        broken_statements hmem (hafter later hmem) hsent
      obtain ⟨failure, -, hfailure⟩ := error_of_fatal (hreports.fatal hbroken)
      exact ⟨failure, hfailure⟩
    · obtain rfl := List.mem_singleton.mp hmem
      obtain ⟨refusal, hrefusal, -⟩ := hlast.refused hsent
      obtain rfl := error?_ended.mp hrefusal
      exact error_of_refused refusal
  · intro hrolled hwrites
    obtain ⟨hnothing, hending⟩ := List.forall_mem_append.mp hrolled
    have hclosing := atMostRollsBack_ended.mp (hending _ (List.mem_singleton_self _))
    have hquiet := (session.quiet_of_decode depth hdecode).of_reaches hbody
    have hnil : statements after = [] := statements_eq_nil (fun exchange hmem =>
      hquiet exchange (List.mem_append_right _ (List.mem_cons_of_mem _ hmem))) hnothing
    have hviolates := violates_statements hbefore hviolating hkind hnil
    obtain ⟨failure, rfl, hnone⟩ | hshows := hreports.shows kind hviolates
    · exact .inr ⟨failure, rfl, hreports.isLocal (.inr ⟨kind, hviolates⟩) failure rfl hnone⟩
    · cases outcome with
      | ok results =>
        have hreply : reply = .ok () := by
          have hnone := hlast Ending.rollback.text (by rw [hclosing]; rfl)
          cases reply with
          | ok _ => rfl
          | error e => cases hnone
        rw [hreply]
        exact .inl (isReported_of_mem hshows)
      | error failure =>
        exfalso
        obtain hnone | ⟨sent, answer, hlog⟩ := hsettled failure rfl
        · cases hnone.symm.trans hshows
        · have hmem : violating ∈ statements (before ++ violating :: after) :=
            mem_statements.mpr ⟨by simp, isSome_text?_of_error? hviolating⟩
          rw [hlog, List.mem_singleton] at hmem
          rw [hmem] at hwrites
          exact hwrites

/-- On a server that aborts transactions, the first failed statement being one that violated a
constraint: if the call sends anything but a rollback after it, the call fails. Otherwise, if the
statement was one of the operation on rows, the client is told of the violation, unless the call
fails for a reason that no server gave. -/
theorem perform_reports_violation (call : Call) (before after : List (Program.Exchange Effect))
    (violating : Program.Exchange Effect) (result : Except Failure Response) (e : ServerError)
    (kind : ConstraintKind)
    (hrun : (session.perform depth call).run.Reaches (before ++ violating :: after) (.done result))
    (hbefore : ∀ exchange ∈ before, exchange.error? = none)
    (hviolating : violating.error? = some e.classified)
    (hkind : violationOfState e.code = some kind)
    (hafter : ∀ later ∈ after, IsAborted later) :
    ((∃ later ∈ after, ¬ AtMostRollsBack later.request) → ∃ failure, result = .error failure) ∧
    ((∀ later ∈ after, AtMostRollsBack later.request) → WritesRows violating.request →
      IsReported kind result ∨ ∃ failure, result = .error failure ∧ failure.isLocal) := by
  have hclass : violation? e.classified = some kind := (violation?_classified e).trans hkind
  rw [perform_eq] at hrun
  cases hdecode : session.decode depth call with
  | error failure =>
    rw [hdecode] at hrun
    obtain ⟨hnil, -⟩ := Program.done_reaches_iff.mp hrun
    exact absurd hnil (by simp)
  | ok operation =>
    rw [hdecode] at hrun
    obtain ⟨failure, hstart, rfl⟩ | ⟨opening, body, outcome, reply, hstart, hbody, rfl, htrace⟩ :=
      (session.inTransaction_reaches_iff operation).mp hrun
    · refine ⟨fun _ => ⟨failure, rfl⟩, fun _ hwrites => ?_⟩
      have hmem : violating ∈ before ++ violating :: after := by simp
      obtain ⟨e, htrace, -⟩ | ⟨e, htrace, -⟩ | ⟨-, hfailure⟩ := start_reaches_iff.mp hstart
      · rw [htrace, List.mem_singleton] at hmem
        rw [hmem] at hwrites
        exact absurd hwrites not_writesRows_begin
      · rw [htrace, List.mem_pair] at hmem
        obtain rfl | rfl := hmem
        · exact absurd hwrites not_writesRows_begin
        · exact absurd hwrites (not_writesRows_isolating _ _)
      · cases hfailure
    · have hopening : ∀ exchange ∈ opening, exchange.error? = none := by
        obtain ⟨e, -, hfailure⟩ | ⟨e, -, hfailure⟩ | ⟨rfl, -⟩ := start_reaches_iff.mp hstart
        · cases hfailure
        · cases hfailure
        · rintro exchange hmem
          obtain rfl | rfl := List.mem_pair.mp hmem <;> rfl
      obtain ⟨rfl, rfl⟩ | ⟨earlier, later, rfl, rfl, rfl⟩ :=
        failed_of_transaction hopening hviolating htrace
      · obtain rfl := error?_ended.mp hviolating
        exact ⟨fun _ => error_of_refused _,
          fun _ hwrites => absurd hwrites not_writesRows_ended⟩
      · obtain ⟨hlater, hlast⟩ := List.forall_mem_append.mp hafter
        exact session.concluded_of_violation depth hdecode hbody
          (List.forall_mem_append.mp hbefore).2 hviolating hclass hlater
          (hlast _ (List.mem_singleton_self _))

/-! ### A title that is taken -/

def bylineSteps : List EntityStep := [.column "name" .string, .oneHasMany "posts" "Post" "author"]

def titledSteps : List EntityStep :=
  [.column "title" .string, .unique ["title"],
    .manyHasOne "author" "Author" { inversedBy := some "posts" }]

/-- Authors with their posts, whose titles are unique. -/
def titled : Schema := .ofDefinitions [("Author", bylineSteps), ("Post", titledSteps)]

/-- The creation of the author John with posts of these titles. -/
def publishing (titles : List String) : Call :=
  .create "Author" (.object [("name", .string "John"), ("posts", .array (titles.map fun title =>
    .object [("create", .object [("title", .string title)])]))])

def takenTitle : ServerError :=
  ⟨"23505", "duplicate key value violates unique constraint \"post_title_key\"", "ERROR",
    none, none, some "post_title_key", none⟩

def refusal : ServerError :=
  ⟨"25P02", "current transaction is aborted, commands ignored until end of transaction block",
    "ERROR", none, none, none, none⟩

/-- The server accepts the author and finds the title of the first post taken. -/
def takenWorld : Script.World :=
  { Script.World.empty with
    responses :=
      [⟨"INSERT INTO \"author\"", false, .rows ⟨["id"], [[.uuid ⟨1⟩]], none⟩⟩,
        ⟨"INSERT INTO \"post\"", false, .fail takenTitle⟩,
        ⟨"INSERT INTO \"post\"", true, .fail refusal⟩] }

def publication (titles : List String) :
    Option (List (Program.Exchange Effect) × Except Failure Response) :=
  let answers : (request : Effect.Request) → Script.World →
    Option (Effect.Reply request × Script.World) := Script.answer
  (perform ⟨titled, .standard⟩ 3 (publishing titles)).run.trace? answers takenWorld

/-- A run, split at the first statement that failed. -/
def firstFailure? : List (Program.Exchange Effect) →
    Option (List (Program.Exchange Effect) × Program.Exchange Effect ×
      List (Program.Exchange Effect))
  | [] => none
  | exchange :: rest =>
    if exchange.error?.isSome then some ([], exchange, rest)
    else (firstFailure? rest).map fun (before, failed, after) => (exchange :: before, failed, after)

lemma eq_of_firstFailure? {trace : List (Program.Exchange Effect)}
    (h : firstFailure? trace = some (before, violating, after)) :
    trace = before ++ violating :: after ∧ ∀ exchange ∈ before, exchange.error? = none := by
  induction trace generalizing before with
  | nil => cases h
  | cons exchange rest ih =>
    rw [firstFailure?] at h
    split at h
    · cases h
      exact ⟨rfl, by simp⟩
    · rename_i hnone
      obtain ⟨⟨earlier, failed, later⟩, hrest, heq⟩ := Option.map_eq_some_iff.mp h
      cases heq
      obtain ⟨rfl, hearlier⟩ := ih hrest
      exact ⟨rfl, List.forall_mem_cons.mpr ⟨by simpa using hnone, hearlier⟩⟩

/-- The answer is one that this server gives in an aborted transaction. -/
def isAnsweredAborted (exchange : Program.Exchange Effect) : Bool :=
  match EffectRequest.text? exchange.request with
  | none => true
  | some text =>
    if text = Ending.rollback.text then exchange.error?.isNone
    else exchange.error? = some refusal.classified

lemma isAborted_of_isAnsweredAborted {exchange : Program.Exchange Effect}
    (h : isAnsweredAborted exchange = true) : IsAborted exchange := by
  intro text htext
  rw [isAnsweredAborted, htext] at h
  dsimp only at h
  split at h
  · rename_i hrolls
    rw [if_pos hrolls]
    exact Option.isNone_iff_eq_none.mp h
  · rename_i hother
    rw [if_neg hother]
    exact ⟨refusal, rfl, of_decide_eq_true h⟩

/-- An insertion finds the title taken, and the transaction is aborted. -/
def isTaken (failed : Program.Exchange Effect) (after : List (Program.Exchange Effect)) : Bool :=
  failed.error? = some takenTitle.classified && after.all isAnsweredAborted &&
    match failed with
    | ⟨.query (.insert _), _⟩ => true
    | _ => false

lemma taken_of_publication (titles : List String) (check : List (Program.Exchange Effect) → Bool)
    (outcome : Except Failure Response → Bool)
    (h : (match publication titles with
      | some (trace, result) =>
        match firstFailure? trace with
        | some (_, failed, after) => isTaken failed after && check after && outcome result
        | none => false
      | none => false) = true) :
    ∃ before violating after result,
      (perform ⟨titled, .standard⟩ 3 (publishing titles)).run.Reaches
        (before ++ violating :: after) (.done result) ∧
      (∀ exchange ∈ before, exchange.error? = none) ∧
      violating.error? = some takenTitle.classified ∧ WritesRows violating.request ∧
      (∀ later ∈ after, IsAborted later) ∧ check after = true ∧ outcome result = true := by
  rcases hrun : publication titles with _ | ⟨trace, result⟩
  · rw [hrun] at h
    cases h
  rw [hrun] at h
  dsimp only at h
  rcases hfirst : firstFailure? trace with _ | ⟨before, failed, after⟩
  · rw [hfirst] at h
    cases h
  rw [hfirst] at h
  simp only [isTaken, Bool.and_eq_true, decide_eq_true_eq, List.all_eq_true] at h
  obtain ⟨⟨⟨⟨herror, hafter⟩, hinsert⟩, hcheck⟩, houtcome⟩ := h
  obtain ⟨rfl, hbefore⟩ := eq_of_firstFailure? hfirst
  refine ⟨before, failed, after, result, Program.reaches_of_trace? hrun, hbefore, herror, ?_,
    fun later hmem => isAborted_of_isAnsweredAborted (hafter later hmem), hcheck, houtcome⟩
  split at hinsert
  · trivial
  · cases hinsert

def onlyRollsBack (after : List (Program.Exchange Effect)) : Bool :=
  after.all fun exchange =>
    match EffectRequest.text? exchange.request with
    | none => true
    | some text => text = Ending.rollback.text

def isResponse : Except Failure Response → Bool
  | .ok _ => true
  | .error _ => false

/-- Of the only post of an author, whose title is taken, the client is told. -/
theorem perform_reports_violation_title :
    ∃ before violating after result,
      (perform ⟨titled, .standard⟩ 3 (publishing ["A"])).run.Reaches
        (before ++ violating :: after) (.done result) ∧
      violating.error? = some takenTitle.classified ∧ IsReported .uniqueKey result := by
  obtain ⟨before, violating, after, result, hrun, hbefore, herror, hwrites, hafter, hcheck, hok⟩ :=
    taken_of_publication ["A"] onlyRollsBack isResponse (by decide +kernel)
  have hlast : ∀ later ∈ after, AtMostRollsBack later.request := by
    intro later hmem text htext
    have hrolls := List.all_eq_true.mp hcheck later hmem
    rw [htext] at hrolls
    exact of_decide_eq_true hrolls
  obtain hreported | ⟨failure, rfl, -⟩ := (perform_reports_violation ⟨titled, .standard⟩ 3
    (publishing ["A"]) before after violating result takenTitle .uniqueKey hrun hbefore herror rfl
    hafter).2 hlast hwrites
  · exact ⟨before, violating, after, result, hrun, herror, hreported⟩
  · cases hok

/-- With a second post the call fails: the insertion of the first one violates a constraint, the
second one is still sent, and the client learns only that the server refused it. -/
theorem error_of_second_post :
    Schema.build [("Author", bylineSteps), ("Post", titledSteps)] = .ok titled ∧
    ∃ before violating after e kind failure,
      (perform ⟨titled, .standard⟩ 3 (publishing ["A", "B"])).run.Reaches
        (before ++ violating :: after) (.done (.error failure)) ∧
      (∀ exchange ∈ before, exchange.error? = none) ∧
      violating.error? = some (ServerError.classified e) ∧ violationOfState e.code = some kind ∧
      ∀ later ∈ after, IsAborted later := by
  obtain ⟨before, violating, after, result, hrun, hbefore, herror, -, hafter, -, hfailed⟩ :=
    taken_of_publication ["A", "B"] (fun _ => true) (fun result => !isResponse result)
      (by decide +kernel)
  cases result with
  | ok response => cases hfailed
  | error failure =>
    exact ⟨by decide +kernel, before, violating, after, takenTitle, .uniqueKey, failure, hrun,
      hbefore, herror, rfl, hafter⟩

end Session

end EntityGraph.Mutation
