import EntityGraph.Proofs.Mutation.OwnStatement
import EntityGraph.Proofs.Mutation.Violations
import EntityGraph.Proofs.Program.Events
/-!
# Stages of a write

A write brings actions with it at a few places: the values that are resolved for its row, what they
left for after the statement of the row, and what is run beside the row. Every statement of a write
is the statement of the row itself, belongs to the look-up of the row, or is sent for a call that
one of these actions makes in its turn.
-/
namespace EntityGraph

namespace Program

variable {I J : Interface} {answer : (request : I.Request) → Program J (I.Reply request)}

lemma Carries.append {calls others : List (Exchange I)} {first second : List (Exchange J)}
    (h : Carries answer calls first) (hothers : Carries answer others second) :
    Carries answer (calls ++ others) (first ++ second) := by
  induction h with
  | nil => exact hothers
  | cons head _ ih =>
    rw [List.append_assoc]
    exact .cons head ih

/-- What is exchanged while calls are carried out belongs to one of them. -/
lemma Carries.exists_call {calls : List (Exchange I)} {trace : List (Exchange J)}
    (h : Carries answer calls trace) {exchange : Exchange J} (hmem : exchange ∈ trace) :
    ∃ first call last sent own later, calls = first ++ call :: last ∧
      Carries answer first sent ∧ (answer call.request).Reaches own (.done call.reply) ∧
      Carries answer last later ∧ trace = sent ++ (own ++ later) ∧ exchange ∈ own := by
  induction h with
  | nil => cases hmem
  | @cons call calls own trace head tail ih =>
    obtain hmem | hmem := List.mem_append.mp hmem
    · exact ⟨[], call, calls, [], own, trace, rfl, .nil, head, tail, rfl, hmem⟩
    · obtain ⟨first, other, last, sent, stretch, later, rfl, hfirst, hcall, hlast, rfl, hown⟩ :=
        ih hmem
      exact ⟨call :: first, other, last, own ++ sent, stretch, later, rfl, .cons head hfirst, hcall,
        hlast, by rw [List.append_assoc], hown⟩

end Program

namespace Mutation

variable {α : Type} {rows : RowAnswers} {trace rest : List (Program.Exchange Effect)}
  {exchange : Program.Exchange Effect}

/-! ### Calls in turn -/

/-- In its turn an action made a call, which was carried out along a stretch of its own. -/
inductive Calling (rows : RowAnswers) (actions : List (Action Rows α)) :
    List (Program.Exchange Effect) → Program.Exchange Rows → List (Program.Exchange Effect) → Prop
  | intro {front back : List (Action Rows α)} {action : Action Rows α}
      {earlier : List (Except Failure α)} {first last : List (Program.Exchange Rows)}
      {call : Program.Exchange Rows} {outcome : Except Failure α}
      {before sent own later after : List (Program.Exchange Effect)}
      (hactions : actions = front ++ action :: back)
      (hfront : (runAll rows front).Reaches before (.done earlier))
      (hrun : action.run.Reaches (first ++ call :: last) (.done outcome))
      (hfirst : Program.Carries rows first sent)
      (hcall : (rows call.request).Reaches own (.done call.reply))
      (hlast : Program.Carries rows last later) :
      Calling rows actions (before ++ (sent ++ (own ++ (later ++ after)))) call own

section Calls

variable {actions : List (Action Rows α)} {call : Program.Exchange Rows}
  {own : List (Program.Exchange Effect)}

lemma Calling.reaches (h : Calling rows actions trace call own) :
    (rows call.request).Reaches own (.done call.reply) := by
  cases h with
  | intro _ _ _ _ hcall => exact hcall

lemma Calling.subset (h : Calling rows actions trace call own) : own ⊆ trace := by
  cases h with
  | intro _ _ _ _ _ _ => exact fun _ hmem => by simp [hmem]

/-- The call is there on a longer trace. -/
lemma Calling.append (h : Calling rows actions trace call own)
    (more : List (Program.Exchange Effect)) : Calling rows actions (trace ++ more) call own := by
  cases h with
  | intro hactions hfront hrun hfirst hcall hlast =>
    simp only [List.append_assoc]
    exact .intro hactions hfront hrun hfirst hcall hlast

lemma Calling.cons {action : Action Rows α} {outcome : Except Failure α}
    {before : List (Program.Exchange Effect)}
    (hfirst : (answered rows action).run.Reaches before (.done outcome))
    (h : Calling rows actions trace call own) :
    Calling rows (action :: actions) (before ++ trace) call own := by
  cases h with
  | intro hactions hfront hrun hcalls hcall hlast =>
    rw [← List.append_assoc, hactions]
    exact .intro rfl (runAll_cons_reaches_iff.mpr ⟨_, _, _, _, hfirst, hfront, rfl, rfl⟩) hrun
      hcalls hcall hlast

/-- What is exchanged while actions are run in turn belongs to a call of one of them. -/
lemma exists_calling {outcomes : List (Except Failure α)}
    (h : (runAll rows actions).Reaches trace (.done outcomes)) (hmem : exchange ∈ trace) :
    ∃ call own, Calling rows actions trace call own ∧ exchange ∈ own := by
  induction actions generalizing trace outcomes with
  | nil =>
    obtain ⟨rfl, -⟩ := Program.done_reaches_iff.mp h
    cases hmem
  | cons action others ih =>
    obtain ⟨turn, outcome, later, results, hturn, hlater, rfl, rfl⟩ :=
      runAll_cons_reaches_iff.mp h
    obtain hmem | hmem := List.mem_append.mp hmem
    · obtain ⟨calls, hcalls, hcarries⟩ := Program.interpret_reaches_done_iff.mp hturn
      obtain ⟨first, call, last, sent, own, following, rfl, hfirst, hcall, hlast, rfl, hown⟩ :=
        hcarries.exists_call hmem
      refine ⟨call, own, ?_, hown⟩
      simp only [List.append_assoc]
      exact .intro rfl (.here _ : (runAll rows []).Reaches [] _) hcalls hfirst hcall hlast
    · obtain ⟨call, own, hcalling, hmem⟩ := ih hlater hmem
      exact ⟨call, own, hcalling.cons hturn, hmem⟩

end Calls

namespace Session

variable {session : Session} {entity : Entity} {which : UniqueWhere} {data : Data}

/-! ### Parts of a write -/

/-- Where the actions that a write brings with it have their turns: behind the front come the values
that are resolved for the row, what they left for after its statement, or what is run beside it. -/
inductive Stage (session : Session) (rows : RowAnswers) :
    RowRequest → {α : Type} → List (Action Rows α) → List (Program.Exchange Effect) → Prop
  | insertResolvers {entity : Entity} {data : Data} {values : FieldValues Rows}
      {pending : List Pending} {opened : List (Program.Exchange Effect)}
      (hopened : (session.opening entity data).run.Reaches opened (.done (.ok (values, pending)))) :
      Stage session rows (.insert entity data) values.deferred opened
  | insertOperations {entity : Entity} {data : Data} {values : FieldValues Rows}
      {pending : List Pending} {primary : Value} {inserted : Inserted}
      {operations : List (Action Rows (List Result))}
      {opened writing : List (Program.Exchange Effect)}
      (hopened : (session.opening entity data).run.Reaches opened (.done (.ok (values, pending))))
      (hinserted : (session.insertValues rows entity values).run.Reaches writing
        (.done (.ok inserted)))
      (hprimary : inserted.primary = some primary)
      (hoperations : afterInsert primary pending = .ok operations) :
      Stage session rows (.insert entity data) operations (opened ++ writing)
  | updateResolvers {entity : Entity} {which : UniqueWhere} {data : Data} {primary : Value}
      {values : FieldValues Rows} {operations : List (Action Rows (List Result))}
      {tree : Sql.ConditionTree} {looking planned : List (Program.Exchange Effect)}
      (hdata : data.fields ≠ [])
      (hfound : (session.selectField entity which entity.primary).run.Reaches looking
        (.done (.ok (some primary))))
      (hplanned : (session.planning entity primary data).run.Reaches planned
        (.done (.ok (values, operations, tree)))) :
      Stage session rows (.update entity which data) values.deferred (looking ++ planned)
  | updateContinuations {entity : Entity} {which : UniqueWhere} {data : Data} {primary : Value}
      {values : FieldValues Rows} {operations : List (Action Rows (List Result))}
      {tree : Sql.ConditionTree} {row : RowValues Rows} {statement : Sql.Update} {count : Nat}
      {looking planned before : List (Program.Exchange Effect)}
      (hdata : data.fields ≠ [])
      (hfound : (session.selectField entity which entity.primary).run.Reaches looking
        (.done (.ok (some primary))))
      (hplanned : (session.planning entity primary data).run.Reaches planned
        (.done (.ok (values, operations, tree))))
      (hprepared : (updating rows entity values tree).run.Reaches before
        (.done (.ok (row, statement))))
      (hset : statement.values ≠ []) :
      Stage session rows (.update entity which data) row.after
        (looking ++ (planned ++ (before ++ [⟨.execute (.update statement), .ok count⟩])))
  | updateOperations {entity : Entity} {which : UniqueWhere} {data : Data} {primary : Value}
      {values : FieldValues Rows} {operations : List (Action Rows (List Result))}
      {tree : Sql.ConditionTree} {own : Except Failure Updated}
      {looking planned writing : List (Program.Exchange Effect)}
      (hdata : data.fields ≠ [])
      (hfound : (session.selectField entity which entity.primary).run.Reaches looking
        (.done (.ok (some primary))))
      (hplanned : (session.planning entity primary data).run.Reaches planned
        (.done (.ok (values, operations, tree))))
      (hwriting : (session.updateValues rows entity values tree).run.Reaches writing (.done own)) :
      Stage session rows (.update entity which data) operations (looking ++ (planned ++ writing))

/-- On the trace of a write, the exchange belongs to a call that an action of one of its parts made
in its turn. -/
def Called (session : Session) (rows : RowAnswers) (request : RowRequest)
    (trace : List (Program.Exchange Effect)) (exchange : Program.Exchange Effect) : Prop :=
  ∃ (α : Type) (actions : List (Action Rows α)) (front rest : List (Program.Exchange Effect))
    (call : Program.Exchange Rows) (own : List (Program.Exchange Effect)),
    session.Stage rows request actions front ∧ Calling rows actions rest call own ∧
      trace = front ++ rest ∧ exchange ∈ own

lemma Stage.called {request : RowRequest} {actions : List (Action Rows α)}
    {outcomes : List (Except Failure α)} {front sent : List (Program.Exchange Effect)}
    (hstage : session.Stage rows request actions front)
    (hrun : (runAll rows actions).Reaches sent (.done outcomes)) (hmem : exchange ∈ sent)
    (more : List (Program.Exchange Effect)) :
    session.Called rows request (front ++ (sent ++ more)) exchange := by
  obtain ⟨call, own, hcalling, hmem⟩ := exists_calling hrun hmem
  exact ⟨α, actions, front, sent ++ more, call, own, hstage, hcalling.append more, rfl, hmem⟩

/-! ### Where a statement is sent -/

lemma exists_of_resolve {values : FieldValues Rows} {outcome : Except Failure (RowValues Rows)}
    (h : (answered rows values.resolve).run.Reaches trace (.done outcome)) :
    ∃ outcomes, (runAll rows values.deferred).Reaches trace (.done outcomes) :=
  (FieldValues.resolve_reaches_iff.mp h).imp fun _ => And.left

/-- Before the statement of a row only its deferred values are resolved. -/
lemma exists_of_preparing {S : Type} {make : List (Sql.ColumnRef × Sql.Expr) → S}
    {values : FieldValues Rows} {outcome : Except Failure (RowValues Rows × S)}
    (h : (preparing rows entity values make).run.Reaches trace (.done outcome)) :
    ∃ outcomes, (runAll rows values.deferred).Reaches trace (.done outcomes) := by
  obtain ⟨failure, hfailed, -⟩ | ⟨first, row, second, hfirst, hsecond, rfl⟩ :=
    Program.run_bind_reaches_done_iff.mp h
  · exact exists_of_resolve hfailed
  · have hsilent : second = [] := by
      obtain h | ⟨naming, columns, last, hnaming, hlast, rfl⟩ := hsecond.begins.of_run_bind
      · exact Program.done_begins_iff.mp h
      · rw [(Program.done_reaches_iff.mp hnaming).1, Program.done_begins_iff.mp hlast]
        rfl
    rw [hsilent, List.append_nil]
    exact exists_of_resolve hfirst

lemma exists_of_collecting {β : Type} {operations : List (Action Rows (List Result))}
    {f : List Result → β} {outcome : Except Failure β}
    (h : (do return f (← answered rows (collectAll operations)) : Action Effect β).run.Reaches trace
      (.done outcome)) : ∃ outcomes, (runAll rows operations).Reaches trace (.done outcomes) := by
  obtain ⟨failure, hfailed, -⟩ | ⟨first, results, second, hfirst, hsecond, rfl⟩ :=
    Program.run_bind_reaches_done_iff.mp h
  · exact (collectAll_reaches_iff.mp hfailed).imp fun _ => And.left
  · rw [(Program.done_reaches_iff.mp hsecond).1, List.append_nil]
    exact (collectAll_reaches_iff.mp hfirst).imp fun _ => And.left

/-- After the statement of a row only what was left for then is run. -/
lemma exists_of_finishing {β : Type} {row : RowValues Rows} {f : List Result → β}
    {outcome : Except Failure β}
    (h : (do return f (← answered rows row.finish) : Action Effect β).run.Reaches trace
      (.done outcome)) :
    ∃ outcomes, (runAll rows row.after).Reaches trace (.done outcomes) := by
  rw [RowValues.finish, answered_bind, bind_assoc] at h
  exact exists_of_collecting (f := f ∘ (row.results ++ ·)) h

/-- Without a statement on the stretch, the exchange is none. -/
lemma not_mem_of_statements (hsent : exchange.request.text?.isSome)
    (hnothing : statements trace = []) : exchange ∉ trace := by
  intro hmem
  have hstatement := mem_statements.mpr ⟨hmem, hsent⟩
  rw [hnothing] at hstatement
  cases hstatement

section Insertions

variable {values : FieldValues Rows} {pending : List Pending}
  {opened writing : List (Program.Exchange Effect)}
  (hopened : (session.opening entity data).run.Reaches opened (.done (.ok (values, pending))))
include hopened

/-- A statement of the values of a new row is the statement of the row, or is sent for a call. -/
lemma places_of_insertValues {own : Except Failure Inserted}
    (hrun : (session.insertValues rows entity values).run.Reaches writing (.done own))
    (hmem : exchange ∈ writing) (rest : List (Program.Exchange Effect)) :
    (∃ statement reply, exchange = ⟨.query (.insert statement), reply⟩ ∧
      session.OwnInsert rows entity data (opened ++ (writing ++ rest)) reply) ∨
    session.Called rows (.insert entity data) (opened ++ (writing ++ rest)) exchange := by
  have hstage : session.Stage rows (.insert entity data) values.deferred opened :=
    .insertResolvers hopened
  rw [insertValues_eq] at hrun
  obtain ⟨failure, hfailed, -⟩ | ⟨before, ⟨row, statement⟩, after, hprepared, hafter, rfl⟩ :=
    Program.run_bind_reaches_done_iff.mp hrun
  · obtain ⟨outcomes, hresolving⟩ := exists_of_preparing hfailed
    exact .inr (hstage.called hresolving hmem rest)
  have hown {reply : Except Database.Error Database.ResultSet}
      {finishing : List (Program.Exchange Effect)} :
      session.OwnInsert rows entity data
        (opened ++ (before ++ ⟨.query (.insert statement), reply⟩ :: finishing ++ rest)) reply :=
    ⟨opened ++ before, row, statement, finishing ++ rest, ownInsertion_reaches hopened hprepared,
      by simp⟩
  obtain hmem | hmem := List.mem_append.mp hmem
  · obtain ⟨outcomes, hresolving⟩ := exists_of_preparing hprepared
    rw [List.append_assoc]
    exact .inr (hstage.called hresolving hmem _)
  obtain ⟨failure, hfailed, -⟩ | ⟨sent, set, finishing, hsent, hfinishing, rfl⟩ :=
    Program.run_bind_reaches_done_iff.mp hafter
  · obtain ⟨reply, rfl, -⟩ := session.query_reaches_iff.mp hfailed
    obtain rfl := List.mem_singleton.mp hmem
    exact .inl ⟨statement, reply, rfl, hown⟩
  · obtain ⟨reply, rfl, -⟩ := session.query_reaches_iff.mp hsent
    obtain rfl | hmem := List.mem_cons.mp hmem
    · exact .inl ⟨statement, reply, rfl, hown⟩
    · obtain ⟨outcomes, hleft⟩ := exists_of_finishing hfinishing
      rw [after_of_insertion hopened (preparing_reaches_ok hprepared).1] at hleft
      rw [(Program.done_reaches_iff.mp hleft).1] at hmem
      cases hmem

/-- A statement of an insertion is the statement of the row, or is sent for a call. -/
lemma places_of_opened {outcome : Except Failure (List Result)}
    (hrun : (session.insertRow rows entity data).run.Reaches (opened ++ rest) (.done outcome))
    (hmem : exchange ∈ rest) :
    (∃ statement reply, exchange = ⟨.query (.insert statement), reply⟩ ∧
      session.OwnInsert rows entity data (opened ++ rest) reply) ∨
    session.Called rows (.insert entity data) (opened ++ rest) exchange := by
  rw [insertRow_eq] at hrun
  have hrest := hrun.of_run_bind_prefix hopened
  obtain ⟨_, hattempt, -⟩ | ⟨writing, own, after, hattempt, hafter, rfl⟩ :=
    Program.run_bind_reaches_done_iff.mp hrest
  · cases (attempt_reaches_iff.mp hattempt).choose_spec.2
  have hwriting := attempt_reaches_ok_iff.mp hattempt
  obtain hmem | hmem := List.mem_append.mp hmem
  · exact places_of_insertValues hopened hwriting hmem after
  have hnothing (hnil : after = []) : exchange ∉ after := by simp [hnil]
  obtain failure | ⟨_ | primary, columns, results⟩ := own
  · exact absurd hmem (hnothing (Program.done_reaches_iff.mp hafter).1)
  · exact absurd hmem (hnothing (Program.done_reaches_iff.mp hafter).1)
  cases hoperations : afterInsert primary pending with
  | error failure =>
    simp only [hoperations] at hafter
    exact absurd hmem (hnothing (Program.done_reaches_iff.mp hafter).1)
  | ok operations =>
    have hstage : session.Stage rows (.insert entity data) operations (opened ++ writing) :=
      .insertOperations hopened hwriting rfl hoperations
    have hlifted : (liftExcept (.ok operations) : Action Effect _) = pure operations := rfl
    simp only [hoperations, hlifted, pure_bind] at hafter
    obtain ⟨outcomes, hbeside⟩ := exists_of_collecting
      (f := fun related => .atRoot (.created entity.name primary columns) :: (results ++ related))
      hafter
    have hcalled := hstage.called hbeside hmem []
    rw [List.append_nil, List.append_assoc] at hcalled
    exact .inr hcalled

end Insertions

/-- A statement of an insertion is the statement of the row, or is sent for a call that an action
makes in its turn. -/
theorem insertRow_places {outcome : Except Failure (List Result)}
    (hrun : (session.insertRow rows entity data).run.Reaches trace (.done outcome))
    (hmem : exchange ∈ trace) (hsent : exchange.request.text?.isSome) :
    (∃ statement reply, exchange = ⟨.query (.insert statement), reply⟩ ∧
      session.OwnInsert rows entity data trace reply) ∨
    session.Called rows (.insert entity data) trace exchange := by
  have hopening := hrun
  rw [insertRow_eq] at hopening
  obtain ⟨failure, hfailed, -⟩ | ⟨opened, ⟨values, pending⟩, rest, hopened, -, rfl⟩ :=
    Program.run_bind_reaches_done_iff.mp hopening
  · exact absurd hmem (not_mem_of_statements hsent (statements_opening hfailed.begins))
  obtain hmem | hmem := List.mem_append.mp hmem
  · exact absurd hmem (not_mem_of_statements hsent (statements_opening hopened.begins))
  · exact places_of_opened hopened hrun hmem

section Updates

variable {primary : Value} {values : FieldValues Rows}
  {operations : List (Action Rows (List Result))} {tree : Sql.ConditionTree}
  {looking planned writing : List (Program.Exchange Effect)} (hdata : data.fields ≠ [])
  (hfound : (session.selectField entity which entity.primary).run.Reaches looking
    (.done (.ok (some primary))))
  (hplanned : (session.planning entity primary data).run.Reaches planned
    (.done (.ok (values, operations, tree))))
include hdata hfound hplanned

/-- A statement of the values of a row is the statement of the row, or is sent for a call. -/
lemma places_of_updateValues {own : Except Failure Updated}
    (hrun : (session.updateValues rows entity values tree).run.Reaches writing (.done own))
    (hmem : exchange ∈ writing) (rest : List (Program.Exchange Effect)) :
    (∃ statement reply, exchange = ⟨.execute (.update statement), reply⟩ ∧
      session.OwnUpdate rows entity which data (looking ++ (planned ++ (writing ++ rest))) reply) ∨
    session.Called rows (.update entity which data) (looking ++ (planned ++ (writing ++ rest)))
      exchange := by
  have hstage : session.Stage rows (.update entity which data) values.deferred
      (looking ++ planned) := .updateResolvers hdata hfound hplanned
  rw [updateValues_eq] at hrun
  obtain ⟨failure, hfailed, -⟩ | ⟨before, ⟨row, statement⟩, after, hprepared, hafter, rfl⟩ :=
    Program.run_bind_reaches_done_iff.mp hrun
  · obtain ⟨outcomes, hresolving⟩ := exists_of_preparing hfailed
    rw [← List.append_assoc looking]
    exact .inr (hstage.called hresolving hmem rest)
  obtain hmem | hmem := List.mem_append.mp hmem
  · obtain ⟨outcomes, hresolving⟩ := exists_of_preparing hprepared
    rw [List.append_assoc, ← List.append_assoc looking]
    exact .inr (hstage.called hresolving hmem _)
  by_cases hset : statement.values = []
  · rw [writing_eq_of_nil hset] at hafter
    obtain ⟨outcomes, hleft⟩ := exists_of_finishing hafter
    rw [after_of_nothing_set hplanned hprepared hset] at hleft
    rw [(Program.done_reaches_iff.mp hleft).1] at hmem
    cases hmem
  have hown {reply : Except Database.Error Nat} {finishing : List (Program.Exchange Effect)} :
      session.OwnUpdate rows entity which data (looking ++ (planned ++
        (before ++ ⟨.execute (.update statement), reply⟩ :: finishing ++ rest))) reply :=
    ⟨looking, primary, planned ++ before, row, statement, finishing ++ rest, hfound,
      ownUpdate_reaches hplanned hprepared, hset, by simp⟩
  rw [writing_eq_of_ne_nil hset] at hafter
  obtain ⟨failure, hfailed, -⟩ | ⟨sent, count, finishing, hsent, hfinishing, rfl⟩ :=
    Program.run_bind_reaches_done_iff.mp hafter
  · obtain ⟨reply, rfl, -⟩ := execute_reaches_iff.mp hfailed
    obtain rfl := List.mem_singleton.mp hmem
    exact .inl ⟨statement, reply, rfl, hown⟩
  · obtain ⟨reply, rfl, hreply⟩ := execute_reaches_iff.mp hsent
    obtain rfl | hlater := List.mem_cons.mp hmem
    · exact .inl ⟨statement, reply, rfl, hown⟩
    · obtain ⟨outcomes, hleft⟩ := exists_of_finishing hfinishing
      obtain rfl : reply = .ok count := Except.eq_ok_of_mapError hreply.symm
      have hlate : session.Stage rows (.update entity which data) row.after
          (looking ++ (planned ++ (before ++ [⟨.execute (.update statement), .ok count⟩]))) :=
        .updateContinuations hdata hfound hplanned hprepared hset
      have hcalled := hlate.called hleft hlater rest
      simp only [List.append_assoc] at hcalled ⊢
      exact .inr hcalled

end Updates

/-- A statement of an update of a row that was found is the statement of the row, or is sent for a
call. -/
lemma places_of_found {primary : Value} {looking : List (Program.Exchange Effect)}
    {outcome : Except Failure (List Result)} (hdata : data.fields ≠ [])
    (hfound : (session.selectField entity which entity.primary).run.Reaches looking
      (.done (.ok (some primary))))
    (hrun : (session.updateFound rows entity primary data).run.Reaches rest (.done outcome))
    (hmem : exchange ∈ rest) (hsent : exchange.request.text?.isSome) :
    (∃ statement reply, exchange = ⟨.execute (.update statement), reply⟩ ∧
      session.OwnUpdate rows entity which data (looking ++ rest) reply) ∨
    session.Called rows (.update entity which data) (looking ++ rest) exchange := by
  have hplanning := hrun
  rw [updateFound_eq] at hplanning
  obtain ⟨failure, hfailed, -⟩ | ⟨planned, ⟨values, operations, tree⟩, more, hplanned, -, rfl⟩ :=
    Program.run_bind_reaches_done_iff.mp hplanning
  · exact absurd hmem (not_mem_of_statements hsent (statements_planning hfailed.begins))
  obtain hmem | hmem := List.mem_append.mp hmem
  · exact absurd hmem (not_mem_of_statements hsent (statements_planning hplanned.begins))
  obtain ⟨writing, own, beside, related, hwriting, hbeside, rfl, -⟩ :=
    (updateFound_reaches_iff_of_planned hplanned).mp hrun
  obtain hmem | hmem := List.mem_append.mp hmem
  · exact places_of_updateValues hdata hfound hplanned hwriting hmem beside
  · obtain ⟨outcomes, hrelated, -⟩ := collectAll_reaches_iff.mp hbeside
    have hstage : session.Stage rows (.update entity which data) operations
        (looking ++ (planned ++ writing)) := .updateOperations hdata hfound hplanned hwriting
    have hcalled := hstage.called hrelated hmem []
    simp only [List.append_nil, List.append_assoc] at hcalled
    exact .inr hcalled

/-- A statement of an update belongs to the look-up of the row, is the statement of the row, or is
sent for a call that an action makes in its turn. -/
theorem updateRow_places {outcome : Except Failure (List Result)}
    (hrun : (session.updateRow rows entity which data).run.Reaches trace (.done outcome))
    (hmem : exchange ∈ trace) (hsent : exchange.request.text?.isSome) :
    (∃ looking found rest, (session.selectField entity which entity.primary).run.Reaches looking
      (.done found) ∧ trace = looking ++ rest ∧ exchange ∈ looking) ∨
    (∃ statement reply, exchange = ⟨.execute (.update statement), reply⟩ ∧
      session.OwnUpdate rows entity which data trace reply) ∨
    session.Called rows (.update entity which data) trace exchange := by
  cases hfilter : which.expand entity with
  | error e =>
    rw [updateRow, hfilter] at hrun
    rw [(Program.done_reaches_iff.mp hrun).1] at hmem
    cases hmem
  | ok filter =>
    have hlooked := hrun
    rw [session.updateRow_eq rows entity hfilter] at hlooked
    obtain ⟨failure, hfailed, -⟩ | ⟨looking, found, rest, hfound, hrest, rfl⟩ :=
      Program.run_bind_reaches_done_iff.mp hlooked
    · exact .inl ⟨trace, _, [], hfailed, (List.append_nil trace).symm, hmem⟩
    obtain hmem | hmem := List.mem_append.mp hmem
    · exact .inl ⟨looking, _, rest, hfound, rfl, hmem⟩
    have hnothing (hnil : rest = []) : exchange ∉ rest := by simp [hnil]
    cases found with
    | none => exact absurd hmem (hnothing (Program.done_reaches_iff.mp hrest).1)
    | some primary =>
      dsimp only at hrest
      by_cases hdata : data.fields = []
      · rw [if_pos (by rw [Data.isEmpty, hdata]; rfl)] at hrest
        exact absurd hmem (hnothing (Program.done_reaches_iff.mp hrest).1)
      · have hupdate := (updateRow_reaches_iff_of_found hfound hdata).mp hrun
        exact .inr (places_of_found hdata hfound hupdate hmem hsent)

end Session

end Mutation

end EntityGraph
