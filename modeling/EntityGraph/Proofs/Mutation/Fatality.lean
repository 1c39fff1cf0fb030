import EntityGraph.Proofs.Mutation.Stages
import EntityGraph.Proofs.Mutation.Stopping
/-!
# No fatal failure disappears

A fatal failure may come from the statement of a row, from a value that is resolved for it, from
what was left for after the statement, or from an operation beside the row, at any depth. The write
then fails, with this failure or with another one; in the latter case this one is reported. Only an
update whose own part fails fatally forgets what the operations beside the row came to.
-/
namespace EntityGraph.Mutation

variable {α β : Type} {rows : RowAnswers} {trace rest : List (Program.Exchange Effect)}
  {event : Event}

/-! ### What siblings report -/

section Siblings

variable {actions : List (Action Rows α)} {outcomes : List (Except Failure α)}

/-- The event is reported while the actions are run in turn, or when their fatal failures are told
of after that. -/
inductive Announced (rows : RowAnswers) (actions : List (Action Rows α)) (event : Event) :
    List (Program.Exchange Effect) → Prop
  | inTurn {trace : List (Program.Exchange Effect)} (h : (runAll rows actions).Notes event trace) :
      Announced rows actions event trace
  | afterwards {trace : List (Program.Exchange Effect)} {outcomes : List (Except Failure α)}
      (hrun : (runAll rows actions).Reaches trace (.done outcomes))
      (hevent : event ∈ (classify outcomes).2) (more : List (Program.Exchange Effect)) :
      Announced rows actions event (trace ++ more)

lemma notes_together {outcome : Except Failure α × List Event} (h : event ∈ outcome.2)
    (f : α → β) (trace : List (Program.Exchange Effect)) :
    (answered rows (together outcome f)).run.Notes event trace := by
  obtain ⟨outcome, events⟩ := outcome
  induction events with
  | nil => cases h
  | cons other later ih =>
    obtain rfl | hmem := List.mem_cons.mp h
    · exact .here
    · exact .note (ih hmem)

lemma Announced.notes (h : Announced rows actions event trace) {action : Action Rows β}
    {f : List (Except Result α) → β}
    (hsiblings : action.run = Program.sequence (actions.map ExceptT.run) >>= fun outcomes =>
      (together (classify outcomes) f).run) : (answered rows action).run.Notes event trace := by
  rw [answered_eq_of_siblings hsiblings]
  cases h with
  | inTurn hturn => exact hturn.bind _
  | afterwards hrun hevent more => exact hrun.notes_bind (notes_together hevent f more)

/-- Of fatal failures the first wins, and every other one is told of. -/
lemma classify_of_fatal {failure : Failure} (hmem : .error failure ∈ outcomes)
    (hfatal : failure.outcome? = none) :
    ∃ first, (classify outcomes).1 = .error first ∧
      (first = failure ∨ .laterFailure failure.message ∈ (classify outcomes).2) := by
  have hmem := mem_split_fatal.mpr ⟨hmem, hfatal⟩
  rw [classify]
  split
  · rename_i kept hsplit
    rw [hsplit] at hmem
    cases hmem
  · rename_i kept first later hsplit
    rw [hsplit] at hmem
    refine ⟨first, rfl, (List.mem_cons.mp hmem).imp Eq.symm fun hlater => ?_⟩
    exact List.mem_map.mpr ⟨failure, hlater, rfl⟩

/-- The actions are run in turn first, and a fatal failure of theirs is what it comes to. -/
def Decides (rows : RowAnswers) (actions : List (Action Rows α))
    (trace : List (Program.Exchange Effect)) (outcome : Except Failure β) : Prop :=
  ∃ outcomes sent more, (runAll rows actions).Reaches sent (.done outcomes) ∧
    sent ++ more = trace ∧
    ∀ failure, (classify outcomes).1 = .error failure → outcome = .error failure

lemma Decides.mono {γ : Type} {own : Except Failure β} {outcome : Except Failure γ}
    (h : Decides rows actions trace own)
    (hfatal : ∀ failure, failure.outcome? = none → own = .error failure →
      outcome = .error failure) : Decides rows actions trace outcome := by
  obtain ⟨outcomes, sent, more, hrun, htrace, hown⟩ := h
  refine ⟨outcomes, sent, more, hrun, htrace, fun failure hfailure => ?_⟩
  exact hfatal failure (classify_eq_error hfailure) (hown failure hfailure)

lemma Decides.append {outcome : Except Failure β} (h : Decides rows actions trace outcome)
    (more : List (Program.Exchange Effect)) : Decides rows actions (trace ++ more) outcome := by
  obtain ⟨outcomes, sent, rest, hrun, rfl, hown⟩ := h
  exact ⟨outcomes, sent, rest ++ more, hrun, by simp, hown⟩

lemma decides_of_siblings {γ : Type} {action : Action Rows β} {f : List (Except Result α) → β}
    (hsiblings : action.run = Program.sequence (actions.map ExceptT.run) >>= fun outcomes =>
      (together (classify outcomes) f).run) {next : β → Action Effect γ}
    {outcome : Except Failure γ}
    (hrun : (answered rows action >>= next).run.Reaches trace (.done outcome)) :
    Decides rows actions trace outcome := by
  obtain ⟨failure, hfailed, rfl⟩ | ⟨sent, b, more, hsent, -, rfl⟩ :=
    Program.run_bind_reaches_done_iff.mp hrun
  · obtain ⟨outcomes, hall, houtcome⟩ := (reaches_iff_of_siblings hsiblings).mp hfailed
    refine ⟨outcomes, trace, [], hall, List.append_nil trace, fun first hfirst => ?_⟩
    rw [hfirst] at houtcome
    cases houtcome
    rfl
  · obtain ⟨outcomes, hall, houtcome⟩ := (reaches_iff_of_siblings hsiblings).mp hsent
    refine ⟨outcomes, sent, more, hall, rfl, fun first hfirst => ?_⟩
    rw [hfirst] at houtcome
    cases houtcome

end Siblings

lemma attempt_notes {action : Action Effect α} (h : action.run.Notes event trace) :
    (attempt action).run.Notes event trace := Program.Notes.bind h _

/-! ### Calls in turn -/

section Calls

variable {actions : List (Action Rows α)} {call : Program.Exchange Rows}
  {own : List (Program.Exchange Effect)}

/-- What a call reports is reported while the actions are run. -/
lemma Calling.announced (h : Calling rows actions trace call own)
    (hnotes : (rows call.request).Notes event own) : Announced rows actions event trace := by
  cases h with
  | @intro front back action earlier first last _ outcome before sent _ later after
      hactions hfront hrun hfirst =>
    have haction : (answered rows action).run.Notes event (sent ++ own) :=
      hnotes.interpret hrun hfirst
    have htrace : sent ++ (own ++ (later ++ after)) = sent ++ own ++ (later ++ after) := by simp
    rw [htrace, ← List.append_assoc, hactions]
    refine .inTurn (.append ?_ _)
    rw [runAll, List.map_append, List.map_cons]
    exact haction.sequence hfront

/-- A call in the turn of an action that ends with the first fatal answer. -/
lemma Calling.exists_turn (h : Calling rows actions trace call own) {failure : Failure}
    (hfatal : FatalAnswer call failure)
    (hstops : ∀ action ∈ actions, Stopping action) :
    ∃ action calls, Turn rows actions action trace calls (.error failure) := by
  cases h with
  | @intro front back action earlier first last call outcome before sent own later after
      hactions hfront hrun hfirst hcall hlast =>
    have haction : action ∈ actions := by simp [hactions]
    obtain rfl := (hstops action haction).of_reaches hfatal hrun
    exact ⟨action, _, front, back, before, earlier, _, after, hactions, hfront, hrun,
      hfirst.append (.cons hcall hlast), by simp⟩

end Calls

namespace Session

variable {session : Session} {depth : Nat} {entity : Entity} {which : UniqueWhere} {data : Data}

/-- On the trace of an operation on rows the failure was raised: by a statement, or by an action in
its turn, be it one of a call that such an action makes. -/
inductive Raises (session : Session) :
    Nat → RowRequest → List (Program.Exchange Effect) → Failure → Prop
  | statement {depth : Nat} {request : RowRequest} {trace : List (Program.Exchange Effect)}
      {exchange : Program.Exchange Effect} {failure : Failure} (hmem : exchange ∈ trace)
      (herror : FatalError exchange failure) : Raises session depth request trace failure
  | turn {depth : Nat} {request : RowRequest} {α : Type} {actions : List (Action Rows α)}
      {action : Action Rows α} {calls : List (Program.Exchange Rows)} {failure : Failure}
      {front rest : List (Program.Exchange Effect)}
      (hstage : session.Stage (session.rows depth) request actions front)
      (hturn : Turn (session.rows depth) actions action rest calls (.error failure)) :
      Raises session (depth + 1) request (front ++ rest) failure
  | nested {depth : Nat} {request : RowRequest} {α : Type} {actions : List (Action Rows α)}
      {call : Program.Exchange Rows} {failure : Failure}
      {front rest own : List (Program.Exchange Effect)}
      (hstage : session.Stage (session.rows depth) request actions front)
      (hcalling : Calling (session.rows depth) actions rest call own)
      (hraises : Raises session depth call.request own failure) :
      Raises session (depth + 1) request (front ++ rest) failure

/-- The failure is what the operations beside a row came to, in an update, at some depth, whose own
part had failed fatally before. -/
inductive Eclipsed (session : Session) :
    Nat → RowRequest → List (Program.Exchange Effect) → Failure → Prop
  | here {depth : Nat} {entity : Entity} {which : UniqueWhere} {data : Data} {primary : Value}
      {values : FieldValues Rows} {operations : List (Action Rows (List Result))}
      {tree : Sql.ConditionTree} {first failure : Failure}
      {looking planned writing beside : List (Program.Exchange Effect)}
      (hfound : (session.selectField entity which entity.primary).run.Reaches looking
        (.done (.ok (some primary))))
      (hplanned : (session.planning entity primary data).run.Reaches planned
        (.done (.ok (values, operations, tree))))
      (hwriting : (session.updateValues (session.rows depth) entity values tree).run.Reaches writing
        (.done (.error first)))
      (hfatal : first.outcome? = none)
      (hbeside : (answered (session.rows depth) (collectAll operations)).run.Reaches beside
        (.done (.error failure))) :
      Eclipsed session (depth + 1) (.update entity which data)
        (looking ++ (planned ++ (writing ++ beside))) failure
  | nested {depth : Nat} {request : RowRequest} {α : Type} {actions : List (Action Rows α)}
      {call : Program.Exchange Rows} {failure : Failure}
      {front rest own : List (Program.Exchange Effect)}
      (hstage : session.Stage (session.rows depth) request actions front)
      (hcalling : Calling (session.rows depth) actions rest call own)
      (heclipsed : Eclipsed session depth call.request own failure) :
      Eclipsed session (depth + 1) request (front ++ rest) failure

/-! ### Reports of a write -/

lemma notes_insertValues {values : FieldValues Rows}
    (h : Announced rows values.deferred event trace) :
    (session.insertValues rows entity values).run.Notes event trace :=
  (h.notes values.run_resolve).run_bind _

lemma notes_updateValues {values : FieldValues Rows} {tree : Sql.ConditionTree}
    (h : Announced rows values.deferred event trace) :
    (session.updateValues rows entity values tree).run.Notes event trace :=
  (h.notes values.run_resolve).run_bind _

lemma notes_finish {row : RowValues Rows} (h : Announced rows row.after event trace) :
    (answered rows row.finish).run.Notes event trace := by
  rw [RowValues.finish, answered_bind]
  exact (h.notes (run_collectAll row.after)).run_bind _

section Insertions

variable {values : FieldValues Rows} {pending : List Pending}
  {opened : List (Program.Exchange Effect)}
  (hopened : (session.opening entity data).run.Reaches opened (.done (.ok (values, pending))))
include hopened

lemma notes_insertRow (h : (session.insertValues rows entity values).run.Notes event rest) :
    (session.insertRow rows entity data).run.Notes event (opened ++ rest) := by
  rw [insertRow_eq]
  exact hopened.notes_run_bind ((attempt_notes h).run_bind _)

lemma notes_insertRow_of_inserted {inserted : Inserted} {primary : Value}
    {operations : List (Action Rows (List Result))} {writing : List (Program.Exchange Effect)}
    (hinserted : (session.insertValues rows entity values).run.Reaches writing
      (.done (.ok inserted))) (hprimary : inserted.primary = some primary)
    (hoperations : afterInsert primary pending = .ok operations)
    (h : Announced rows operations event rest) :
    (session.insertRow rows entity data).run.Notes event (opened ++ (writing ++ rest)) := by
  rw [insertRow_eq]
  obtain ⟨_, columns, results⟩ := inserted
  obtain rfl : _ = some primary := hprimary
  refine hopened.notes_run_bind ((attempt_reaches_ok_iff.mpr hinserted).notes_run_bind ?_)
  have hplanned : (liftExcept (afterInsert primary pending) :
      Action Effect _).run.Reaches [] (.done (.ok operations)) := by
    rw [hoperations]
    exact .here _
  exact hplanned.notes_run_bind ((h.notes (run_collectAll operations)).run_bind _)

end Insertions

section Updates

variable {primary : Value} {values : FieldValues Rows}
  {operations : List (Action Rows (List Result))} {tree : Sql.ConditionTree}
  {looking planned : List (Program.Exchange Effect)}

lemma notes_updateRow (hdata : data.fields ≠ [])
    (hfound : (session.selectField entity which entity.primary).run.Reaches looking
      (.done (.ok (some primary))))
    (h : (session.updateFound rows entity primary data).run.Notes event rest) :
    (session.updateRow rows entity which data).run.Notes event (looking ++ rest) := by
  cases hfilter : which.expand entity with
  | error e =>
    rw [selectField, hfilter] at hfound
    cases (Program.done_reaches_iff.mp hfound).2
  | ok filter =>
    have hsome : ¬ data.isEmpty = true := by
      rw [Data.isEmpty, List.isEmpty_iff]
      exact hdata
    rw [session.updateRow_eq rows entity hfilter]
    refine hfound.notes_run_bind ?_
    dsimp only
    rwa [if_neg hsome]

variable (hplanned : (session.planning entity primary data).run.Reaches planned
  (.done (.ok (values, operations, tree))))
include hplanned

lemma notes_updateFound (h : (session.updateValues rows entity values tree).run.Notes event rest) :
    (session.updateFound rows entity primary data).run.Notes event (planned ++ rest) := by
  rw [updateFound_eq]
  exact hplanned.notes_run_bind ((attempt_notes h).run_bind _)

lemma notes_updateFound_of_written {own : Except Failure Updated}
    {writing : List (Program.Exchange Effect)}
    (hwriting : (session.updateValues rows entity values tree).run.Reaches writing (.done own))
    (h : Announced rows operations event rest) :
    (session.updateFound rows entity primary data).run.Notes event
      (planned ++ (writing ++ rest)) := by
  rw [updateFound_eq]
  refine hplanned.notes_run_bind ((attempt_reaches_ok_iff.mpr hwriting).notes_run_bind ?_)
  exact (attempt_notes (h.notes (run_collectAll operations))).run_bind _

end Updates

lemma notes_updateValues_of_prepared {values : FieldValues Rows} {tree : Sql.ConditionTree}
    {row : RowValues Rows} {statement : Sql.Update} {count : Nat}
    {before : List (Program.Exchange Effect)}
    (hprepared : (updating rows entity values tree).run.Reaches before
      (.done (.ok (row, statement)))) (hset : statement.values ≠ [])
    (h : Announced rows row.after event rest) :
    (session.updateValues rows entity values tree).run.Notes event
      (before ++ ([⟨.execute (.update statement), .ok count⟩] ++ rest)) := by
  rw [updateValues_eq]
  refine hprepared.notes_run_bind ?_
  rw [writing_eq_of_ne_nil hset]
  exact (execute_reaches_iff.mpr ⟨.ok count, rfl, rfl⟩).notes_run_bind
    ((notes_finish h).run_bind _)

/-- What the actions of a part report is reported by the write. -/
lemma Stage.notes {request : RowRequest} {actions : List (Action Rows α)}
    {front : List (Program.Exchange Effect)}
    (hstage : session.Stage (session.rows depth) request actions front)
    (h : Announced (session.rows depth) actions event rest) :
    (session.rows (depth + 1) request).Notes event (front ++ rest) := by
  cases hstage with
  | insertResolvers hopened => exact notes_insertRow hopened (notes_insertValues h)
  | insertOperations hopened hinserted hprimary hoperations =>
    rw [List.append_assoc]
    exact notes_insertRow_of_inserted hopened hinserted hprimary hoperations h
  | updateResolvers hdata hfound hplanned =>
    rw [List.append_assoc]
    exact notes_updateRow hdata hfound (notes_updateFound hplanned (notes_updateValues h))
  | updateContinuations hdata hfound hplanned hprepared hset =>
    simp only [List.append_assoc]
    exact notes_updateRow hdata hfound
      (notes_updateFound hplanned (notes_updateValues_of_prepared hprepared hset h))
  | updateOperations hdata hfound hplanned hwriting =>
    simp only [List.append_assoc]
    exact notes_updateRow hdata hfound (notes_updateFound_of_written hplanned hwriting h)

/-! ### How a write ends -/

lemma decides_finish {row : RowValues Rows} {next : List Result → Action Effect β}
    {outcome : Except Failure β}
    (hrun : (answered rows row.finish >>= next).run.Reaches trace (.done outcome)) :
    Decides rows row.after trace outcome := by
  rw [RowValues.finish, answered_bind, bind_assoc] at hrun
  exact decides_of_siblings (run_collectAll row.after) hrun

/-- What an update left for after its statement follows the statement. -/
lemma decides_updateValues_of_prepared {values : FieldValues Rows} {tree : Sql.ConditionTree}
    {row : RowValues Rows} {statement : Sql.Update} {count : Nat} {own : Except Failure Updated}
    {before writing beside : List (Program.Exchange Effect)}
    (hprepared : (updating rows entity values tree).run.Reaches before
      (.done (.ok (row, statement)))) (hset : statement.values ≠ [])
    (hwriting : (session.updateValues rows entity values tree).run.Reaches writing (.done own))
    (htrace : writing ++ beside =
      before ++ ([⟨.execute (.update statement), .ok count⟩] ++ rest)) :
    Decides rows row.after rest own := by
  rw [updateValues_eq] at hwriting
  obtain ⟨failure, hfailed, -⟩ | ⟨first, prepared, second, hfirst, hsecond, rfl⟩ :=
    Program.run_bind_reaches_done_iff.mp hwriting
  · cases (hprepared.prefix_free hfailed htrace.symm).2
  rw [List.append_assoc] at htrace
  obtain ⟨rfl, hsame⟩ := hprepared.prefix_free hfirst htrace.symm
  obtain rfl := Except.ok.inj hsame
  have hrest := List.append_cancel_left htrace
  rw [writing_eq_of_ne_nil hset] at hsecond
  obtain ⟨failure, hfailed, -⟩ | ⟨sent, found, finishing, hsent, hfinishing, rfl⟩ :=
    Program.run_bind_reaches_done_iff.mp hsecond
  · obtain ⟨reply, rfl, hreply⟩ := execute_reaches_iff.mp hfailed
    obtain ⟨hsame, -⟩ := List.cons.inj hrest
    cases hsame
    cases hreply
  · obtain ⟨reply, rfl, -⟩ := execute_reaches_iff.mp hsent
    obtain ⟨-, rfl⟩ := List.cons.inj hrest
    exact (decides_finish hfinishing).append beside

/-- What the values of a new row come to fatally, the insertion comes to. -/
lemma insertRow_reaches_of_opened {values : FieldValues Rows} {pending : List Pending}
    {opened : List (Program.Exchange Effect)} {outcome : Except Failure (List Result)}
    (hopened : (session.opening entity data).run.Reaches opened (.done (.ok (values, pending))))
    (hrun : (session.insertRow rows entity data).run.Reaches (opened ++ rest) (.done outcome)) :
    ∃ writing own after,
      (session.insertValues rows entity values).run.Reaches writing (.done own) ∧
      writing ++ after = rest ∧
      (∀ failure, own = .error failure → outcome = failure.classified) ∧
      ∀ inserted primary operations, own = .ok inserted → inserted.primary = some primary →
        afterInsert primary pending = .ok operations → Decides rows operations after outcome := by
  rw [insertRow_eq] at hrun
  have hrest := hrun.of_run_bind_prefix hopened
  obtain ⟨_, hattempt, -⟩ | ⟨writing, own, after, hown, hafter, rfl⟩ :=
    Program.run_bind_reaches_done_iff.mp hrest
  · cases (attempt_reaches_iff.mp hattempt).choose_spec.2
  refine ⟨writing, own, after, attempt_reaches_ok_iff.mp hown, rfl, ?_, ?_⟩
  · rintro failure rfl
    exact Program.done.inj (Program.done_reaches_iff.mp hafter).2
  · rintro ⟨_, columns, results⟩ primary operations rfl rfl hoperations
    have hplanned : (liftExcept (afterInsert primary pending) :
        Action Effect _).run.Reaches [] (.done (.ok operations)) := by
      rw [hoperations]
      exact .here _
    rw [← List.nil_append after] at hafter
    exact decides_of_siblings (run_collectAll operations) (hafter.of_run_bind_prefix hplanned)

lemma reported_of_own {primary : Value} {failure : Failure} (hfatal : failure.outcome? = none)
    (related : Except Failure (List Result)) :
    reported entity primary (.error failure) related = .error failure := by
  have hclassified : failure.classified = .error failure := by
    rw [Failure.classified, result?_eq_none_iff.mpr hfatal]
  rw [reported, settledOutcome, hclassified]
  rfl

/-- The operation comes to a fatal failure: to this one, unless the operations beside a row came to
it after the row itself had failed. -/
def Fails (session : Session) (depth : Nat) (request : RowRequest)
    (trace : List (Program.Exchange Effect)) (reply : request.Reply) (failure : Failure) : Prop :=
  ∃ first, first.outcome? = none ∧ reply = request.failing first ∧
    (first = failure ∨ session.Eclipsed depth request trace failure)

lemma fails_of_decides {request : RowRequest} {actions : List (Action Rows α)}
    {outcome : Except Failure (List Result)} {front : List (Program.Exchange Effect)}
    {reply : request.Reply} (h : Decides (session.rows depth) actions rest outcome)
    (hreply : ∀ failure, outcome = .error failure → reply = request.failing failure) :
    ∃ outcomes sent more, (runAll (session.rows depth) actions).Reaches sent (.done outcomes) ∧
      sent ++ more = rest ∧ ∀ failure, (classify outcomes).1 = .error failure →
        session.Fails (depth + 1) request (front ++ rest) reply failure := by
  obtain ⟨outcomes, sent, more, hrun, htrace, houtcome⟩ := h
  refine ⟨outcomes, sent, more, hrun, htrace, fun failure hfailure => ?_⟩
  exact ⟨failure, classify_eq_error hfailure, hreply failure (houtcome failure hfailure), .inl rfl⟩

/-- What the operations beside a row come to is forgotten only where the row itself has failed
fatally. -/
lemma fails_of_related {primary : Value} {values : FieldValues Rows}
    {operations : List (Action Rows (List Result))} {tree : Sql.ConditionTree}
    {own : Except Failure Updated} {failure : Failure}
    {looking planned writing beside : List (Program.Exchange Effect)}
    (hfound : (session.selectField entity which entity.primary).run.Reaches looking
      (.done (.ok (some primary))))
    (hplanned : (session.planning entity primary data).run.Reaches planned
      (.done (.ok (values, operations, tree))))
    (hwriting : (session.updateValues (session.rows depth) entity values tree).run.Reaches writing
      (.done own))
    (hbeside : (answered (session.rows depth) (collectAll operations)).run.Reaches beside
      (.done (.error failure))) (hfailure : failure.outcome? = none) :
    session.Fails (depth + 1) (.update entity which data)
      (looking ++ (planned ++ (writing ++ beside)))
      (reported entity primary own (.error failure)) failure := by
  cases own with
  | ok updated => exact ⟨failure, hfailure, rfl, .inl rfl⟩
  | error first =>
    cases hresult : first.result? with
    | none =>
      have hfatal := result?_eq_none_iff.mp hresult
      exact ⟨first, hfatal, reported_of_own hfatal _,
        .inr (.here hfound hplanned hwriting hfatal hbeside)⟩
    | some result =>
      refine ⟨failure, hfailure, ?_, .inl rfl⟩
      rw [reported, settledOutcome, Failure.classified, hresult]
      rfl

lemma updateRow_reaches_of_planned {primary : Value} {values : FieldValues Rows}
    {operations : List (Action Rows (List Result))} {tree : Sql.ConditionTree}
    {looking planned : List (Program.Exchange Effect)} {outcome : Except Failure (List Result)}
    (hdata : data.fields ≠ [])
    (hfound : (session.selectField entity which entity.primary).run.Reaches looking
      (.done (.ok (some primary))))
    (hplanned : (session.planning entity primary data).run.Reaches planned
      (.done (.ok (values, operations, tree))))
    (hrun : (session.updateRow rows entity which data).run.Reaches (looking ++ (planned ++ rest))
      (.done outcome)) :
    ∃ writing own beside related,
      (session.updateValues rows entity values tree).run.Reaches writing (.done own) ∧
      (answered rows (collectAll operations)).run.Reaches beside (.done related) ∧
      writing ++ beside = rest ∧ outcome = reported entity primary own related :=
  (updateFound_reaches_iff_of_planned hplanned).mp
    ((updateRow_reaches_iff_of_found hfound hdata).mp hrun)

/-- A part of a write is run in turn, and the write fails with it. -/
lemma Stage.fails {request : RowRequest} {actions : List (Action Rows α)}
    {front : List (Program.Exchange Effect)} {reply : request.Reply}
    (hstage : session.Stage (session.rows depth) request actions front) (hactions : actions ≠ [])
    (hrun : (session.rows (depth + 1) request).Reaches (front ++ rest) (.done reply)) :
    ∃ outcomes sent more, (runAll (session.rows depth) actions).Reaches sent (.done outcomes) ∧
      sent ++ more = rest ∧ ∀ failure, (classify outcomes).1 = .error failure →
        session.Fails (depth + 1) request (front ++ rest) reply failure := by
  cases hstage with
  | insertResolvers hopened =>
    obtain ⟨writing, own, after, hwriting, rfl, hfailed, -⟩ :=
      insertRow_reaches_of_opened hopened hrun
    have hown : Decides (session.rows depth) _ writing own :=
      decides_of_siblings (FieldValues.run_resolve _) hwriting
    refine fails_of_decides ((hown.append after).mono fun failure hfatal heq => ?_) fun _ => id
    rw [hfailed failure heq, Failure.classified, result?_eq_none_iff.mpr hfatal]
  | insertOperations hopened hinserted hprimary hoperations =>
    rw [List.append_assoc] at hrun
    obtain ⟨writing, own, after, hwriting, htrace, -, hrelated⟩ :=
      insertRow_reaches_of_opened hopened hrun
    obtain ⟨rfl, rfl⟩ := hinserted.prefix_free hwriting htrace.symm
    obtain rfl := List.append_cancel_left htrace
    exact fails_of_decides (hrelated _ _ _ rfl hprimary hoperations) fun _ => id
  | updateResolvers hdata hfound hplanned =>
    rw [List.append_assoc] at hrun
    obtain ⟨writing, own, beside, related, hwriting, -, rfl, houtcome⟩ :=
      updateRow_reaches_of_planned hdata hfound hplanned hrun
    have hown : Decides (session.rows depth) _ writing own :=
      decides_of_siblings (FieldValues.run_resolve _) hwriting
    refine fails_of_decides ((hown.append beside).mono fun failure hfatal heq => ?_) fun _ => id
    rw [houtcome, heq, reported_of_own hfatal]
  | updateContinuations hdata hfound hplanned hprepared hset =>
    simp only [List.append_assoc] at hrun
    obtain ⟨writing, own, beside, related, hwriting, -, htrace, houtcome⟩ :=
      updateRow_reaches_of_planned hdata hfound hplanned hrun
    have hown := decides_updateValues_of_prepared hprepared hset hwriting htrace
    refine fails_of_decides (hown.mono fun failure hfatal heq => ?_) fun _ => id
    rw [houtcome, heq, reported_of_own hfatal]
  | updateOperations hdata hfound hplanned hwriting =>
    simp only [List.append_assoc] at hrun ⊢
    obtain ⟨writing, own, beside, related, hown, hrelated, htrace, houtcome⟩ :=
      updateRow_reaches_of_planned hdata hfound hplanned hrun
    obtain ⟨rfl, rfl⟩ := hwriting.prefix_free hown htrace.symm
    obtain rfl := List.append_cancel_left htrace
    obtain ⟨outcomes, hall, rfl⟩ := collectAll_reaches_iff.mp hrelated
    refine ⟨outcomes, beside, [], hall, List.append_nil _, fun failure hfailure => ?_⟩
    rw [hfailure] at houtcome hrelated
    rw [houtcome]
    exact fails_of_related hfound hplanned hwriting hrelated (classify_eq_error hfailure)

/-! ### Fatal answers to the calls of a write -/

lemma stops_of_mem_deferred {values : FieldValues Rows}
    (h : ∀ entry ∈ values, entry.2.Stopping) :
    ∀ resolve ∈ values.deferred, Stops FatalAnswer Resolved.Stopping resolve := by
  induction values with
  | nil => exact fun _ hmem => absurd hmem List.not_mem_nil
  | cons entry rest ih =>
    obtain ⟨hentry, hrest⟩ := List.forall_mem_cons.mp h
    obtain ⟨field, value | resolve⟩ := entry
    · exact ih hrest
    · exact List.forall_mem_cons.mpr ⟨hentry, ih hrest⟩

lemma stops_of_opening {values : FieldValues Rows} {pending : List Pending}
    (hopened : (session.opening entity data).run.Reaches trace (.done (.ok (values, pending)))) :
    ∀ resolve ∈ values.deferred, Stops FatalAnswer Resolved.Stopping resolve := by
  obtain ⟨⟨planned, waiting⟩, hplan, h⟩ := liftExcept_bind_reaches_ok hopened
  have hentries := stopping_planInsert session.schema entity data.fields
  rw [hplan] at hentries
  obtain ⟨keying, keyed, last, hkeying, hlast, rfl⟩ := h.of_run_bind_ok
  obtain ⟨-, hdone⟩ := Program.done_reaches_iff.mp hlast
  cases hdone
  obtain rfl | ⟨-, value, rfl⟩ := withKey_reaches_ok hkeying
  · exact stops_of_mem_deferred hentries.1
  · exact stops_of_mem_deferred (List.forall_mem_append.mpr
      ⟨hentries.1, List.forall_mem_singleton.mpr trivial⟩)

lemma stops_of_planning {primary : Value} {values : FieldValues Rows}
    {operations : List (Action Rows (List Result))} {tree : Sql.ConditionTree}
    (hplanned : (session.planning entity primary data).run.Reaches trace
      (.done (.ok (values, operations, tree)))) :
    (∀ resolve ∈ values.deferred, Stops FatalAnswer Resolved.Stopping resolve) ∧
      ∀ operation ∈ operations, Stopping operation := by
  obtain ⟨⟨planned, asked⟩, hplan, h⟩ := liftExcept_bind_reaches_ok hplanned
  have hentries := stopping_planUpdate session.schema entity primary data.fields
  rw [hplan] at hentries
  obtain ⟨asking, found, last, hasking, hlast, rfl⟩ := h.of_run_bind_ok
  obtain ⟨-, hdone⟩ := Program.done_reaches_iff.mp hlast
  cases hdone
  exact ⟨stops_of_mem_deferred hentries.1, hentries.2⟩

/-- What the values of a row left for after its statement ends with a fatal answer, too. -/
lemma stopping_of_resolve {values : FieldValues Rows} {row : RowValues Rows}
    (hvalues : ∀ resolve ∈ values.deferred, Stops FatalAnswer Resolved.Stopping resolve)
    (hresolve : (answered rows values.resolve).run.Reaches trace (.done (.ok row))) :
    ∀ operation ∈ row.after, Stopping operation := by
  obtain ⟨outcomes, hrun, -, rfl⟩ := FieldValues.resolve_reaches_ok hresolve
  intro operation hmem
  rw [FieldValues.rowOf, filterMap_afterOf?] at hmem
  obtain ⟨outcome, houtcome, hleft⟩ := List.mem_flatMap.mp hmem
  cases outcome with
  | error failure => cases hleft
  | ok resolved =>
    obtain ⟨resolve, calls, hturn⟩ := exists_turn hrun houtcome
    have hresolved : resolved.Stopping :=
      (hvalues resolve hturn.mem_actions).ok_of_reaches hturn.reaches
    exact hresolved operation (Option.mem_toList.mp hleft)

lemma stopping_of_afterInsert {primary : Value} {pending : List Pending}
    {operations : List (Action Rows (List Result))}
    (h : afterInsert primary pending = .ok operations) :
    ∀ operation ∈ operations, Stopping operation := by
  have hpending := stopping_afterInsert primary pending
  rw [h] at hpending
  exact hpending

lemma Stage.stopping {request : RowRequest} {actions : List (Action Rows α)}
    {front : List (Program.Exchange Effect)} (hstage : session.Stage rows request actions front) :
    ∀ action ∈ actions, Stopping action := by
  have hresolvers {values : FieldValues Rows}
      (h : ∀ resolve ∈ values.deferred, Stops FatalAnswer Resolved.Stopping resolve) :
      ∀ resolve ∈ values.deferred, Stopping resolve :=
    fun resolve hmem => (h resolve hmem).mono fun _ _ => trivial
  cases hstage with
  | insertResolvers hopened => exact hresolvers (stops_of_opening hopened)
  | insertOperations hopened hinserted hprimary hoperations =>
    exact stopping_of_afterInsert hoperations
  | updateResolvers hdata hfound hplanned => exact hresolvers (stops_of_planning hplanned).1
  | updateContinuations hdata hfound hplanned hprepared hset =>
    exact stopping_of_resolve (stops_of_planning hplanned).1 (preparing_reaches_ok hprepared).1
  | updateOperations hdata hfound hplanned hwriting => exact (stops_of_planning hplanned).2

/-! ### What becomes of a fatal failure -/

/-- An operation on rows comes to a fatal failure: to this one, unless this one is reported or came
to nothing beside a row that had failed itself. -/
def Surfaces (session : Session) (depth : Nat) (request : RowRequest)
    (trace : List (Program.Exchange Effect)) (reply : request.Reply) (failure : Failure) : Prop :=
  ∃ first, first.outcome? = none ∧ reply = request.failing first ∧
    (first = failure ∨ (session.rows depth request).Notes (.laterFailure failure.message) trace ∨
      session.Eclipsed depth request trace failure)

section Stages

variable {request : RowRequest} {reply : request.Reply} {actions : List (Action Rows α)}
  {front : List (Program.Exchange Effect)} {failure : Failure}
  (hstage : session.Stage (session.rows depth) request actions front)
  (hrun : (session.rows (depth + 1) request).Reaches (front ++ rest) (.done reply))
  (hfatal : failure.outcome? = none)
include hstage hrun hfatal

/-- A fatal failure of an action in its turn. -/
lemma surfaces_of_turn {action : Action Rows α} {calls : List (Program.Exchange Rows)}
    (hturn : Turn (session.rows depth) actions action rest calls (.error failure)) :
    session.Surfaces (depth + 1) request (front ++ rest) reply failure := by
  obtain ⟨outcomes, sent, more, hall, htrace, hfails⟩ :=
    hstage.fails (List.ne_nil_of_mem hturn.mem_actions) hrun
  have hmem := hturn.mem hall htrace
  obtain ⟨first, hfirst, heq | hevent⟩ := classify_of_fatal hmem hfatal
  · obtain ⟨told, htold, hreply, hlost⟩ := hfails first hfirst
    rw [← heq]
    exact ⟨told, htold, hreply, hlost.imp_right .inr⟩
  · obtain ⟨told, htold, hreply, -⟩ := hfails first hfirst
    refine ⟨told, htold, hreply, .inr (.inl (hstage.notes ?_))⟩
    rw [← htrace]
    exact .afterwards hall hevent more

/-- A fatal failure that was raised while a call was carried out. -/
lemma surfaces_of_call {call : Program.Exchange Rows} {own : List (Program.Exchange Effect)}
    (hcalling : Calling (session.rows depth) actions rest call own)
    (hsurfaces : session.Surfaces depth call.request own call.reply failure) :
    session.Surfaces (depth + 1) request (front ++ rest) reply failure := by
  obtain ⟨first, hfirst, hreply, hlost⟩ := hsurfaces
  obtain ⟨action, calls, hturn⟩ := hcalling.exists_turn ⟨hfirst, hreply⟩ hstage.stopping
  obtain ⟨told, htold, hreply, htelling⟩ := surfaces_of_turn hstage hrun hfirst hturn
  refine ⟨told, htold, hreply, ?_⟩
  obtain rfl | hnotes | heclipsed := hlost
  · exact htelling
  · exact .inr (.inl (hstage.notes (hcalling.announced hnotes)))
  · exact .inr (.inr (.nested hstage hcalling heclipsed))

end Stages

/-! ### Errors that the statements of a write are answered with -/

section Errors

variable {reply : Except Failure (List Result)} {exchange : Program.Exchange Effect}
  {failure : Failure} {e : Database.Error}

/-- An error of the statement of a new row is what the insertion comes to. -/
lemma insertRow_eq_of_refused (hfatal : (Failure.database e).outcome? = none)
    (hsent : session.OwnInsert rows entity data trace (.error e))
    (hrun : (session.insertRow rows entity data).run.Reaches trace (.done reply)) :
    reply = .error (.database e) := by
  obtain ⟨before, row, statement, after, hprepared, rfl⟩ := hsent
  have hrefused := insertRow_reaches_of_error (e := e) hprepared
  rw [Failure.classified, result?_eq_none_iff.mpr hfatal] at hrefused
  have htrace : before ++ ⟨.query (.insert statement), .error e⟩ :: after ++ [] =
      before ++ [⟨.query (.insert statement), .error e⟩] ++ after := by simp
  exact (hrun.prefix_free hrefused htrace).2

/-- Without data nothing follows the look-up of a row. -/
lemma updateRow_reaches_of_no_data {primary : Value} {looking : List (Program.Exchange Effect)}
    (hfound : (session.selectField entity which entity.primary).run.Reaches looking
      (.done (.ok (some primary)))) (hdata : data.fields = []) :
    (session.updateRow rows entity which data).run.Reaches looking
      (.done (.ok [.atRoot (.idle .noData)])) := by
  have hempty : data.isEmpty = true := by
    rw [Data.isEmpty, hdata]
    rfl
  cases hfilter : which.expand entity with
  | error e =>
    rw [selectField, hfilter] at hfound
    cases (Program.done_reaches_iff.mp hfound).2
  | ok filter =>
    rw [session.updateRow_eq rows entity hfilter]
    refine hfound.run_bind_done ?_
    dsimp only
    rw [if_pos hempty]
    rfl

/-- An error of the statement of a row is what its update comes to, whatever is run beside it. -/
lemma updateRow_eq_of_refused (hfatal : (Failure.database e).outcome? = none)
    (hsent : session.OwnUpdate rows entity which data trace (.error e))
    (hrun : (session.updateRow rows entity which data).run.Reaches trace (.done reply)) :
    reply = .error (.database e) := by
  obtain ⟨looking, primary, before, row, statement, after, hfound, hprepared, hset, rfl⟩ := hsent
  obtain ⟨planned, ⟨values, operations, tree⟩, resolving, hplanned, hupdating, rfl⟩ :=
    hprepared.of_run_bind_ok
  have hrefused : (session.updateValues rows entity values tree).run.Reaches
      (resolving ++ [⟨.execute (.update statement), .error e⟩])
      (.done (.error (.database e))) := by
    rw [updateValues_eq]
    refine hupdating.run_bind ?_
    rw [writing_eq_of_ne_nil hset]
    exact (execute_reaches_iff.mpr ⟨.error e, rfl, rfl⟩).run_bind_error
  have hdata : data.fields ≠ [] := by
    intro hnone
    have hlooked : (session.updateRow rows entity which data).run.Reaches looking _ :=
      updateRow_reaches_of_no_data hfound hnone
    have htrace : looking ++ (planned ++ resolving) ++
        ⟨.execute (.update statement), .error e⟩ :: after ++ [] = looking ++ (planned ++
          resolving ++ ⟨.execute (.update statement), .error e⟩ :: after) := by simp
    have heq := (hrun.prefix_free hlooked htrace).1
    simp at heq
  simp only [List.append_assoc] at hrun
  obtain ⟨writing, own, beside, related, hwriting, -, htrace, rfl⟩ :=
    updateRow_reaches_of_planned hdata hfound hplanned hrun
  have hsame : writing ++ beside =
      resolving ++ [⟨.execute (.update statement), .error e⟩] ++ after := by simpa using htrace
  obtain ⟨-, rfl⟩ := hwriting.prefix_free hrefused hsame
  exact reported_of_own hfatal related

/-- An error met while the row is looked up is what the update comes to. -/
lemma updateRow_eq_of_lookup {looking : List (Program.Exchange Effect)}
    {found : Except Failure (Option Value)}
    (hlooked : (session.selectField entity which entity.primary).run.Reaches looking (.done found))
    (hmem : exchange ∈ looking) (herror : FatalError exchange failure)
    (hrun : (session.updateRow rows entity which data).run.Reaches (looking ++ rest)
      (.done reply)) : reply = .error failure := by
  obtain rfl := (halting_selectField which entity.primary).of_mem hmem herror hlooked
  cases hfilter : which.expand entity with
  | error refused =>
    rw [selectField, hfilter] at hlooked
    rw [(Program.done_reaches_iff.mp hlooked).1] at hmem
    cases hmem
  | ok filter =>
    rw [session.updateRow_eq rows entity hfilter] at hrun
    exact (hrun.prefix_free hlooked.run_bind_error (List.append_nil (looking ++ rest))).2

end Errors

/-! ### No fatal failure is lost -/

/-- An error that a statement was answered with, in an operation of its own or in a call. -/
lemma surfaces_of_statement {request : RowRequest} {reply : request.Reply} {failure : Failure}
    {exchange : Program.Exchange Effect}
    (hcalls : ∀ (call : Program.Exchange Rows) (own : List (Program.Exchange Effect)),
      (session.rows depth call.request).Reaches own (.done call.reply) → exchange ∈ own →
      session.Surfaces depth call.request own call.reply failure)
    (hrun : (session.rows (depth + 1) request).Reaches trace (.done reply))
    (hmem : exchange ∈ trace) (herror : FatalError exchange failure) :
    session.Surfaces (depth + 1) request trace reply failure := by
  obtain ⟨hfatal, e, he, rfl⟩ := herror
  have hsent := isSome_text?_of_error? he
  have hcalled (h : session.Called (session.rows depth) request trace exchange) :
      session.Surfaces (depth + 1) request trace reply (.database e) := by
    obtain ⟨α, actions, front, rest, call, own, hstage, hcalling, rfl, hown⟩ := h
    exact surfaces_of_call hstage hrun hfatal hcalling (hcalls call own hcalling.reaches hown)
  have hends (heq : reply = request.failing (.database e)) :
      session.Surfaces (depth + 1) request trace reply (.database e) :=
    ⟨.database e, hfatal, heq, .inl rfl⟩
  cases request with
  | insert entity data =>
    obtain ⟨statement, answer, rfl, hown⟩ | hcall := insertRow_places hrun hmem hsent
    · cases answer with
      | ok set => cases he
      | error refusal =>
        cases he
        exact hends (insertRow_eq_of_refused hfatal hown hrun)
    · exact hcalled hcall
  | update entity which data =>
    obtain ⟨looking, found, rest, hlooked, rfl, hlooking⟩ | ⟨statement, answer, rfl, hown⟩ |
      hcall := updateRow_places hrun hmem hsent
    · exact hends (updateRow_eq_of_lookup hlooked hlooking ⟨hfatal, e, he, rfl⟩ hrun)
    · cases answer with
      | ok count => cases he
      | error refusal =>
        cases he
        exact hends (updateRow_eq_of_refused hfatal hown hrun)
    · exact hcalled hcall
  | delete entity which =>
    exact hends ((halting_deleteRow depth which).of_mem hmem ⟨hfatal, e, he, rfl⟩ hrun)
  | selectField entity which field =>
    exact hends ((halting_selectField which field).of_mem hmem ⟨hfatal, e, he, rfl⟩ hrun)
  | primaryValue entity which =>
    exact hends ((halting_selectField which _).of_mem hmem ⟨hfatal, e, he, rfl⟩ hrun)
  | connect owner relation ownerKey inversedKey =>
    exact hends ((halting_connect relation _ _).of_mem hmem ⟨hfatal, e, he, rfl⟩ hrun)
  | disconnect owner relation ownerKey inversedKey =>
    exact hends ((halting_disconnect relation _ _).of_mem hmem ⟨hfatal, e, he, rfl⟩ hrun)

lemma surfaces {request : RowRequest} {reply : request.Reply} {failure : Failure}
    (hrun : (session.rows depth request).Reaches trace (.done reply))
    (hraises : session.Raises depth request trace failure) (hfatal : failure.outcome? = none) :
    session.Surfaces depth request trace reply failure := by
  induction depth generalizing request trace reply with
  | zero =>
    obtain ⟨contra, -⟩ := Program.ask_reaches_done_iff.mp hrun
    cases contra
  | succ depth ih =>
    cases hraises with
    | statement hmem herror =>
      refine surfaces_of_statement (fun call own hcall hown => ?_) hrun hmem herror
      exact ih hcall (.statement hown herror)
    | turn hstage hturn => exact surfaces_of_turn hstage hrun hfatal hturn
    | nested hstage hcalling hnested =>
      exact surfaces_of_call hstage hrun hfatal hcalling (ih hcalling.reaches hnested)

/-- A fatal failure that was raised anywhere during an operation on rows makes it fail fatally. It
is what the operation comes to, or it is reported, unless the operations beside a row came to it in
an update whose own part had failed fatally, too. -/
theorem fatal_failure_told (session : Session) (depth : Nat) (request : RowRequest)
    (trace : List (Program.Exchange Effect)) (reply : request.Reply)
    (hrun : (session.rows depth request).Reaches trace (.done reply)) (failure : Failure)
    (hraises : session.Raises depth request trace failure) (hfatal : failure.outcome? = none) :
    ∃ first, first.outcome? = none ∧ reply = request.failing first ∧
      (¬ session.Eclipsed depth request trace failure → first = failure ∨
        (session.rows depth request).Notes (.laterFailure failure.message) trace) := by
  obtain ⟨first, hfirst, hreply, hlost⟩ := surfaces hrun hraises hfatal
  refine ⟨first, hfirst, hreply, fun hseen => ?_⟩
  exact hlost.imp_right fun hlater => hlater.resolve_right hseen

/-- Only where a row was looked up and found, something can be eclipsed beside it. -/
lemma Eclipsed.exists_lookup {request : RowRequest} {failure : Failure}
    (h : session.Eclipsed depth request trace failure) :
    ∃ select set, ⟨.query (.select select), .ok set⟩ ∈ trace := by
  induction h with
  | here hfound hplanned hwriting hfatal hbeside =>
    obtain ⟨filter, -, hlooked⟩ := liftExcept_bind_reaches_ok hfound
    obtain ⟨predicate, tree, column, set, -, -, rfl, -⟩ := selectColumn_reaches_ok hlooked
    exact ⟨_, set, List.mem_append_left _ (List.mem_cons_of_mem _ List.mem_cons_self)⟩
  | nested hstage hcalling heclipsed ih =>
    obtain ⟨select, set, hmem⟩ := ih
    exact ⟨select, set, List.mem_append_right _ (hcalling.subset hmem)⟩

/-- An author with two posts, which are created along with it. -/
def authorWithPosts : Data :=
  ⟨[("name", .value (.string "Ada")),
    ("posts", .many [⟨none, .create ⟨[("title", .value (.string "Notes"))]⟩⟩,
      ⟨none, .create ⟨[("title", .value (.string "Sketch"))]⟩⟩])]⟩

/-- The server gave up on a statement. -/
def cancelled : Database.ServerError :=
  ⟨"57014", "canceling statement due to user request", "ERROR", none, none, none, none⟩

def diskFull : Database.ServerError :=
  ⟨"53100", "could not extend file", "ERROR", none, none, none, none⟩

/-- A database that inserts an author, and then gives up on one row and has no space for the
next. -/
def failingWorld : Script.World :=
  { Script.World.empty with
    responses := [⟨"INSERT INTO \"author\"", false, .rows ⟨["id"], [[.int 1]], none⟩⟩,
      ⟨"INSERT", false, .fail cancelled⟩, ⟨"INSERT", false, .fail diskFull⟩] }

/-- A database that finds the author 7, but gives up on the update of it and has no space for what
is inserted beside it. -/
def refusingWorld : Script.World :=
  { Script.World.empty with
    responses := [⟨"SELECT", true, .rows ⟨["id"], [[.int 7]], none⟩⟩,
      ⟨"UPDATE", false, .fail cancelled⟩, ⟨"INSERT", false, .fail diskFull⟩] }

/-- Whether a run comes to the first error, and a statement of it was answered with the other. -/
def failsAfter (first other : Database.ServerError) (trace : List (Program.Exchange Effect)) :
    Except Failure (List Result) → Bool
  | .error (.database e) =>
    e = first.classified && trace.any fun exchange => exchange.error? = some other.classified
  | _ => false

lemma of_failsAfter {first other : Database.ServerError} {outcome : Except Failure (List Result)}
    (h : failsAfter first other trace outcome = true) :
    outcome = .error (.database first.classified) ∧
      ∃ exchange ∈ trace, exchange.error? = some other.classified := by
  unfold failsAfter at h
  split at h
  · obtain ⟨hfirst, hother⟩ := Bool.and_eq_true_iff.mp h
    obtain ⟨exchange, hmem, herror⟩ := List.any_eq_true.mp hother
    rw [of_decide_eq_true hfirst]
    exact ⟨rfl, exchange, hmem, of_decide_eq_true herror⟩
  · cases h

def looksUp : Effect.Request → Bool
  | .query (.select _) => true
  | _ => false

/-- Whether a run comes to the first error so, without a look-up. -/
def failsUnaided (first other : Database.ServerError) (trace : List (Program.Exchange Effect))
    (outcome : Except Failure (List Result)) : Bool :=
  failsAfter first other trace outcome && trace.all fun exchange => !looksUp exchange.request

/-- Two posts of a new author fail fatally. The author comes to the first failure, and the second
one is reported. -/
theorem fatal_failure_told_posts :
    ∃ trace,
      (blogSession.rows 3 (.insert author authorWithPosts)).Reaches trace
        (.done (.error (.database cancelled.classified))) ∧
      blogSession.Raises 3 (.insert author authorWithPosts) trace
        (.database diskFull.classified) ∧
      ¬ blogSession.Eclipsed 3 (.insert author authorWithPosts) trace
        (.database diskFull.classified) ∧
      (blogSession.rows 3 (.insert author authorWithPosts)).Notes
        (.laterFailure (Failure.database diskFull.classified).message) trace := by
  have htest : (Script.traced (blogSession.rows 3 (.insert author authorWithPosts))
      failingWorld).any (fun outcome =>
        failsUnaided cancelled diskFull outcome.1 outcome.2) = true := by decide +kernel
  obtain ⟨trace, outcome, htrace, htest⟩ := Script.exists_of_traced htest
  obtain ⟨hfails, hnone⟩ := Bool.and_eq_true_iff.mp htest
  obtain ⟨rfl, exchange, hmem, herror⟩ := of_failsAfter hfails
  have hrun := Script.reaches_of_traced htrace
  have hfatal : (Failure.database diskFull.classified).outcome? = none := rfl
  have hraises : blogSession.Raises 3 (.insert author authorWithPosts) trace
      (.database diskFull.classified) := .statement hmem ⟨hfatal, _, herror, rfl⟩
  have hseen : ¬ blogSession.Eclipsed 3 (.insert author authorWithPosts) trace
      (.database diskFull.classified) := by
    intro heclipsed
    obtain ⟨select, set, hlooked⟩ := heclipsed.exists_lookup
    cases List.all_eq_true.mp hnone _ hlooked
  obtain ⟨first, -, hreply, htold⟩ :=
    fatal_failure_told blogSession 3 _ trace _ hrun _ hraises hfatal
  refine ⟨trace, hrun, hraises, hseen, (htold hseen).resolve_left ?_⟩
  rintro rfl
  have hsame : cancelled.classified = diskFull.classified :=
    Failure.database.inj (Except.error.inj hreply)
  exact absurd hsame (by decide)

/-- An author is updated and gets a post. The database refuses both statements, and the update
forgets about the second one. -/
theorem related_failure_forgotten :
    ∃ trace,
      (blogSession.rows 3 (.update author (.single "id" (.int 7)) authorWithPost)).Reaches trace
        (.done (.error (.database cancelled.classified))) ∧
      blogSession.Raises 3 (.update author (.single "id" (.int 7)) authorWithPost) trace
        (.database diskFull.classified) ∧
      (Failure.database diskFull.classified).outcome? = none ∧
      ¬ (blogSession.rows 3 (.update author (.single "id" (.int 7)) authorWithPost)).Notes
        (.laterFailure (Failure.database diskFull.classified).message) trace := by
  have htest : (Script.traced (blogSession.rows 3 (.update author (.single "id" (.int 7))
      authorWithPost)) refusingWorld).any (fun outcome =>
        failsAfter cancelled diskFull outcome.1 outcome.2) = true := by decide +kernel
  have hsilent : Script.reported (blogSession.rows 3 (.update author (.single "id" (.int 7))
      authorWithPost)) refusingWorld = some [] := by decide +kernel
  obtain ⟨trace, outcome, htrace, htest⟩ := Script.exists_of_traced htest
  obtain ⟨rfl, exchange, hmem, herror⟩ := of_failsAfter htest
  have hfatal : (Failure.database diskFull.classified).outcome? = none := rfl
  refine ⟨trace, Script.reaches_of_traced htrace, .statement hmem ⟨hfatal, _, herror, rfl⟩, hfatal,
    fun hnotes => ?_⟩
  cases Script.mem_reported htrace hsilent hnotes

end Session

end EntityGraph.Mutation
