import EntityGraph.Proofs.Mutation.Plans
/-!
# The statement of the row itself

A write of a row resolves what its columns depend on, sends the statement of the row, and runs what
was left for after it. Here each part is said to ask for nothing else, and to fail only as it does.
-/
namespace EntityGraph.Mutation

variable {α : Type} {rows : RowAnswers} {entity : Entity} {primary : Value}
  {trace : List (Program.Exchange Effect)}

/-! ### Parts of a write -/

namespace Session

variable (session : Session) (rows : RowAnswers) (entity : Entity)

/-- An insertion up to its deferred values. -/
def opening (data : Data) : Action Effect (FieldValues Rows × List Pending) := do
  let (values, pending) ← liftExcept (planInsert session.schema entity data.fields)
  let keyed ← withKey entity values
  return (keyed, pending)

/-- An update of a row that was found, up to its deferred values. -/
def planning (primary : Value) (data : Data) : Action Effect
    (FieldValues Rows × List (Action Rows (List Result)) × Sql.ConditionTree) := do
  let (values, operations) ← liftExcept (planUpdate session.schema entity primary data.fields)
  let tree ← session.permitted entity (byPrimary entity primary).toFilter .update values.names
  return (values, operations, tree)

/-- What is resolved before a row is written, and the statement that is made of its columns. -/
def preparing {S : Type} (values : FieldValues Rows)
    (make : List (Sql.ColumnRef × Sql.Expr) → S) : Action Effect (RowValues Rows × S) := do
  let row ← answered rows values.resolve
  let columns ← liftExcept ((columnValues entity row.values).mapError .schema)
  return (row, make columns)

/-- What is resolved before a row is updated, and the statement that updates it. -/
def updating (values : FieldValues Rows) (tree : Sql.ConditionTree) :
    Action Effect (RowValues Rows × Sql.Update) :=
  preparing rows entity values fun columns => ⟨Sql.table entity.tableName, columns, some tree, []⟩

/-- The update of a row that was found, up to the statement of the row itself. -/
def ownUpdate (primary : Value) (data : Data) : Action Effect (RowValues Rows × Sql.Update) := do
  let (values, _, tree) ← session.planning entity primary data
  updating rows entity values tree

/-- On the trace the row was found, and the statement of the row itself was sent with something to
set, with that answer. -/
def OwnUpdate (which : UniqueWhere) (data : Data) (trace : List (Program.Exchange Effect))
    (reply : Except Database.Error Nat) : Prop :=
  ∃ looking primary before row statement after,
    (session.selectField entity which entity.primary).run.Reaches looking
      (.done (.ok (some primary))) ∧
    (session.ownUpdate rows entity primary data).run.Reaches before (.done (.ok (row, statement))) ∧
    statement.values ≠ [] ∧
    trace = looking ++ before ++ ⟨.execute (.update statement), reply⟩ :: after

/-- The statement of a row that was resolved, if there is anything to set, and what was left for
after it. -/
def writing (prepared : RowValues Rows × Sql.Update) : Action Effect Updated := do
  let count ← if prepared.2.values.isEmpty then pure none else do
    some <$> session.execute (.update prepared.2)
  let results ← answered rows prepared.1.finish
  return ⟨count, prepared.1.values, results⟩

lemma insertRow_eq (data : Data) : session.insertRow rows entity data =
    session.opening entity data >>= fun plan => do
      match ← attempt (session.insertValues rows entity plan.1) with
      | .error failure => liftExcept failure.classified
      | .ok ⟨none, _, results⟩ => return .atRoot .denied :: results
      | .ok ⟨some primary, values, results⟩ =>
        let operations ← liftExcept (afterInsert primary plan.2)
        let related ← answered rows (collectAll operations)
        return .atRoot (.created entity.name primary values) :: (results ++ related) := by
  simp only [opening, bind_assoc, pure_bind]
  rfl

lemma ownInsertion_eq (data : Data) : session.ownInsertion rows entity data =
    session.opening entity data >>= fun plan => insertion rows entity plan.1 := by
  simp only [ownInsertion, opening, bind_assoc, pure_bind]

lemma updateValues_eq (values : FieldValues Rows) (tree : Sql.ConditionTree) :
    session.updateValues rows entity values tree =
      updating rows entity values tree >>= session.writing rows := by
  simp only [updateValues, updating, preparing, bind_assoc, pure_bind]
  rfl

/-- What an update reports of its row and of what was run beside it. -/
def reported (primary : Value) (own : Except Failure Updated)
    (related : Except Failure (List Result)) : Except Failure (List Result) := do
  let results ← settledOutcome (updateResults entity primary) own
  let others ← related
  return results ++ others

lemma updateFound_eq (primary : Value) (data : Data) :
    session.updateFound rows entity primary data = session.planning entity primary data >>=
      fun plan => (do
        let own ← attempt (session.updateValues rows entity plan.1 plan.2.2)
        let related ← attempt (answered rows (collectAll plan.2.1))
        liftExcept (reported entity primary own related)) := by
  simp only [updateFound, planning, bind_assoc, pure_bind]
  refine bind_congr fun plan => bind_congr fun tree => bind_congr fun own =>
    bind_congr fun related => ?_
  cases own with
  | ok updated => cases related <;> rfl
  | error failure =>
    dsimp only [reported, settledOutcome]
    cases failure.classified with
    | ok results => cases related <;> rfl
    | error failure => rfl

/-- A row with a unique where that covers a key is looked up by it. -/
lemma updateRow_eq {which : UniqueWhere} {filter : Filter} (h : which.expand entity = .ok filter)
    (data : Data) : session.updateRow rows entity which data =
    session.selectField entity which entity.primary >>= fun found =>
      match found with
      | none => return missing which
      | some primary =>
        if data.isEmpty then return [.atRoot (.idle .noData)]
        else session.updateFound rows entity primary data := by
  have hfilter : liftExcept ((which.expand entity).mapError .nonUniqueWhere) =
      (pure filter : Action Effect Filter) := by
    rw [h]
    rfl
  rw [selectField, hfilter, pure_bind, updateRow]
  cases hexpand : which.expand entity with
  | error e => cases hexpand.symm.trans h
  | ok expanded =>
    cases hexpand.symm.trans h
    rfl

variable {session rows entity} {data : Data}

/-- A row that was found is updated, if there are data. -/
lemma updateRow_reaches_iff_of_found {which : UniqueWhere} {primary : Value}
    {looking : List (Program.Exchange Effect)} {outcome : Except Failure (List Result)}
    (hfound : (session.selectField entity which entity.primary).run.Reaches looking
      (.done (.ok (some primary)))) (hfields : data.fields ≠ []) :
    (session.updateRow rows entity which data).run.Reaches (looking ++ trace) (.done outcome) ↔
      (session.updateFound rows entity primary data).run.Reaches trace (.done outcome) := by
  cases hfilter : which.expand entity with
  | error e =>
    rw [selectField, hfilter] at hfound
    cases (Program.done_reaches_iff.mp hfound).2
  | ok filter =>
    have hsome : ¬ data.isEmpty = true := by
      rw [Data.isEmpty, List.isEmpty_iff]
      exact hfields
    rw [session.updateRow_eq rows entity hfilter]
    constructor
    · intro h
      have hrest := h.of_run_bind_prefix hfound
      dsimp only at hrest
      rwa [if_neg hsome] at hrest
    · intro h
      refine hfound.run_bind ?_
      dsimp only
      rwa [if_neg hsome]

/-- A planned update writes its row, then runs what is beside it, whatever the row came to. -/
lemma updateFound_reaches_iff_of_planned {primary : Value} {values : FieldValues Rows}
    {operations : List (Action Rows (List Result))} {tree : Sql.ConditionTree}
    {planned : List (Program.Exchange Effect)} {outcome : Except Failure (List Result)}
    (hplanned : (session.planning entity primary data).run.Reaches planned
      (.done (.ok (values, operations, tree)))) :
    (session.updateFound rows entity primary data).run.Reaches (planned ++ trace) (.done outcome) ↔
      ∃ writing own beside related,
        (session.updateValues rows entity values tree).run.Reaches writing (.done own) ∧
        (answered rows (collectAll operations)).run.Reaches beside (.done related) ∧
        writing ++ beside = trace ∧ outcome = reported entity primary own related := by
  rw [updateFound_eq]
  constructor
  · intro h
    have hrest := h.of_run_bind_prefix hplanned
    obtain ⟨_, hattempt, -⟩ | ⟨writing, own, after, hown, hafter, rfl⟩ :=
      Program.run_bind_reaches_done_iff.mp hrest
    · cases (attempt_reaches_iff.mp hattempt).choose_spec.2
    obtain ⟨_, hattempt, -⟩ | ⟨beside, related, last, hrelated, hlast, rfl⟩ :=
      Program.run_bind_reaches_done_iff.mp hafter
    · cases (attempt_reaches_iff.mp hattempt).choose_spec.2
    obtain ⟨rfl, hdone⟩ := Program.done_reaches_iff.mp hlast
    exact ⟨writing, own, beside, related, attempt_reaches_ok_iff.mp hown,
      attempt_reaches_ok_iff.mp hrelated, by rw [List.append_nil], (Program.done.inj hdone)⟩
  · rintro ⟨writing, own, beside, related, hown, hrelated, rfl, rfl⟩
    refine hplanned.run_bind ((attempt_reaches_ok_iff.mpr hown).run_bind ?_)
    exact (attempt_reaches_ok_iff.mpr hrelated).run_bind_done rfl

/-- Only an identifier is asked for to give a row its key. -/
lemma statements_withKey {values : FieldValues Rows}
    (h : (withKey entity values).run.Begins trace) : statements trace = [] := by
  rw [withKey] at h
  split at h
  · rw [Program.done_begins_iff.mp h]
    rfl
  · obtain h | ⟨first, column, second, hfirst, hsecond, rfl⟩ := h.of_run_bind
    · rw [Program.done_begins_iff.mp h]
      rfl
    · obtain ⟨rfl, -⟩ := Program.done_reaches_iff.mp hfirst
      split at hsecond
      · obtain rfl | ⟨id, rfl⟩ := hsecond.of_ask fun _ => Program.silent_done _
        · rfl
        · rfl
      · rw [Program.done_begins_iff.mp hsecond]
        rfl

/-- A key is added to the values unless they have one. -/
lemma withKey_reaches_ok {values keyed : FieldValues Rows}
    (h : (withKey entity values).run.Reaches trace (.done (.ok keyed))) :
    keyed = values ∨ entity.primary ∉ values.names ∧
      ∃ value, keyed = values ++ [(entity.primary, .value value)] := by
  rw [withKey] at h
  split at h
  · obtain ⟨-, hdone⟩ := Program.done_reaches_iff.mp h
    cases hdone
    exact .inl rfl
  · rename_i hkey
    obtain ⟨column, -, h⟩ := liftExcept_bind_reaches_ok h
    split at h
    · obtain ⟨id, tail, htail, -⟩ := Program.ask_reaches_done_iff.mp h
      obtain ⟨-, hdone⟩ := Program.done_reaches_iff.mp htail
      cases hdone
      exact .inr ⟨by simpa using hkey, .uuid id, rfl⟩
    · obtain ⟨-, hdone⟩ := Program.done_reaches_iff.mp h
      cases hdone
      exact .inl rfl

lemma statements_opening (h : (session.opening entity data).run.Begins trace) :
    statements trace = [] := by
  obtain h | ⟨first, plan, second, hfirst, hsecond, rfl⟩ := Program.Begins.of_run_bind h
  · rw [Program.done_begins_iff.mp h]
    rfl
  · obtain ⟨rfl, -⟩ := Program.done_reaches_iff.mp hfirst
    obtain h | ⟨keying, keyed, last, hkeying, hlast, rfl⟩ := Program.Begins.of_run_bind hsecond
    · exact statements_withKey h
    · rw [Program.done_begins_iff.mp hlast, List.append_nil]
      exact statements_withKey hkeying.begins

/-- What an insertion resolves, and what waits for its key. -/
lemma opening_reaches_ok {keyed : FieldValues Rows} {pending : List Pending}
    (h : (session.opening entity data).run.Reaches trace (.done (.ok (keyed, pending)))) :
    pending = data.fields.flatMap (createPending session.schema entity) ∧
      (keyed = data.fields.flatMap (createEntries session.schema entity) ∨
        ∃ value, entity.primary ∉
            FieldValues.names (data.fields.flatMap (createEntries session.schema entity)) ∧
          keyed = data.fields.flatMap (createEntries session.schema entity) ++
            [(entity.primary, .value value)]) := by
  obtain ⟨⟨values, waiting⟩, hplan, h⟩ := liftExcept_bind_reaches_ok h
  obtain ⟨keying, found, last, hkeying, hlast, rfl⟩ := h.of_run_bind_ok
  obtain ⟨-, hdone⟩ := Program.done_reaches_iff.mp hlast
  cases hdone
  obtain ⟨rfl, rfl⟩ := planInsert_eq_ok hplan
  refine ⟨rfl, ?_⟩
  obtain rfl | ⟨hkey, value, rfl⟩ := withKey_reaches_ok hkeying
  · exact .inl rfl
  · exact .inr ⟨value, hkey, rfl⟩

lemma deferred_of_opening {keyed : FieldValues Rows} {pending : List Pending}
    (h : (session.opening entity data).run.Reaches trace (.done (.ok (keyed, pending)))) :
    keyed.deferred = data.fields.flatMap fun entry =>
      (createEntries session.schema entity entry).deferred := by
  obtain ⟨-, rfl | ⟨value, -, rfl⟩⟩ := opening_reaches_ok h
  · exact FieldValues.deferred_flatMap _ _
  · rw [FieldValues.deferred_append, FieldValues.deferred_flatMap]
    exact List.append_nil _

lemma statements_planning (h : (session.planning entity primary data).run.Begins trace) :
    statements trace = [] := by
  obtain h | ⟨first, plan, second, hfirst, hsecond, rfl⟩ := Program.Begins.of_run_bind h
  · rw [Program.done_begins_iff.mp h]
    rfl
  · obtain ⟨rfl, -⟩ := Program.done_reaches_iff.mp hfirst
    have hpermitted {stretch : List (Program.Exchange Effect)}
        (h : (session.permitted entity (byPrimary entity primary).toFilter .update
          plan.1.names).run.Begins stretch) : statements stretch = [] := by
      obtain rfl | ⟨predicate, rfl⟩ := h.of_ask fun _ => Program.silent_done _
      · rfl
      · rfl
    obtain h | ⟨asking, tree, last, hasking, hlast, rfl⟩ := Program.Begins.of_run_bind hsecond
    · exact hpermitted h
    · rw [Program.done_begins_iff.mp hlast, List.append_nil]
      exact hpermitted hasking.begins

/-- What an update resolves, and what it runs beside the row. -/
lemma planning_reaches_ok {values : FieldValues Rows}
    {operations : List (Action Rows (List Result))} {tree : Sql.ConditionTree}
    (h : (session.planning entity primary data).run.Reaches trace
      (.done (.ok (values, operations, tree)))) :
    values = data.fields.flatMap (updateEntries session.schema entity primary) ∧
      operations = data.fields.flatMap (updateOperations session.schema entity primary) := by
  obtain ⟨⟨planned, asked⟩, hplan, h⟩ := liftExcept_bind_reaches_ok h
  obtain ⟨asking, found, last, hasking, hlast, rfl⟩ := h.of_run_bind_ok
  obtain ⟨-, hdone⟩ := Program.done_reaches_iff.mp hlast
  cases hdone
  exact planUpdate_eq_ok hplan

/-- Before its values are resolved, an update asks which rows it may write. -/
lemma exists_predicate_of_planning {values : FieldValues Rows}
    {operations : List (Action Rows (List Result))} {tree : Sql.ConditionTree}
    (h : (session.planning entity primary data).run.Reaches trace
      (.done (.ok (values, operations, tree)))) :
    ∃ predicate, trace = [⟨.predicate entity .update values.names, predicate⟩] ∧
      ((byPrimary entity primary).toFilter.andWith predicate).toTree session.schema entity =
        .ok tree := by
  obtain ⟨⟨planned, asked⟩, -, h⟩ := liftExcept_bind_reaches_ok h
  obtain ⟨asking, found, last, hasking, hlast, rfl⟩ := h.of_run_bind_ok
  obtain ⟨rfl, hdone⟩ := Program.done_reaches_iff.mp hlast
  cases hdone
  rw [List.append_nil]
  exact permitted_reaches_ok hasking

lemma deferred_of_planning {values : FieldValues Rows}
    {operations : List (Action Rows (List Result))} {tree : Sql.ConditionTree}
    (h : (session.planning entity primary data).run.Reaches trace
      (.done (.ok (values, operations, tree)))) :
    values.deferred = data.fields.flatMap fun entry =>
      (updateEntries session.schema entity primary entry).deferred := by
  rw [(planning_reaches_ok h).1]
  exact FieldValues.deferred_flatMap _ _

/-! ### Before and after the statement -/

variable {values : FieldValues Rows} {tree : Sql.ConditionTree}

/-- What is attempted is run before what goes on with its outcome. -/
lemma begins_of_attempt_bind {β : Type} {action : Action Effect α}
    {next : Except Failure α → Action Effect β} (h : (attempt action >>= next).run.Begins trace) :
    action.run.Begins trace ∨ ∃ first outcome second,
      action.run.Reaches first (.done outcome) ∧ (next outcome).run.Begins second ∧
      trace = first ++ second := by
  have hrun : (attempt action >>= next).run = action.run >>= fun outcome => (next outcome).run := by
    rw [ExceptT.run_bind]
    exact Program.bind_assoc ..
  rw [hrun] at h
  exact h.of_bind

lemma begins_of_logged {text : String} {action : Action Effect α}
    (h : (session.logged text >>= fun _ => action).run.Begins trace) : action.run.Begins trace := by
  rw [logged] at h
  split at h
  · obtain ⟨rest, hrest⟩ := h
    cases hrest with
    | here => exact Program.begins_nil _
    | note tail => exact tail.begins
  · exact h

/-- A statement is sent once, whether its answer has come or not. -/
lemma begins_of_query {query : Sql.Query} (h : (session.query query).run.Begins trace) :
    trace = [] ∨ ∃ reply, trace = [⟨.query query, reply⟩] :=
  Program.Begins.of_ask (fun _ => Program.silent_done _) (begins_of_logged h)

lemma begins_of_execute {query : Sql.Query} (h : (session.execute query).run.Begins trace) :
    trace = [] ∨ ∃ reply, trace = [⟨.execute query, reply⟩] :=
  Program.Begins.of_ask (fun _ => Program.silent_done _) (begins_of_logged h)

lemma execute_reaches_iff {query : Sql.Query} {outcome : Except Failure Nat} :
    (session.execute query).run.Reaches trace (.done outcome) ↔
      ∃ reply, trace = [⟨.execute query, reply⟩] ∧ outcome = reply.mapError .database := by
  have hsent : ((Effect.execute query).adapt Failure.database :
      Action Effect Nat).run.Reaches trace (.done outcome) ↔
      ∃ reply, trace = [⟨.execute query, reply⟩] ∧ outcome = reply.mapError .database := by
    refine Program.ask_reaches_done_iff.trans ⟨?_, ?_⟩
    · rintro ⟨reply, tail, htail, rfl⟩
      obtain ⟨rfl, hdone⟩ := Program.done_reaches_iff.mp htail
      exact ⟨reply, rfl, Program.done.inj hdone⟩
    · rintro ⟨reply, rfl, rfl⟩
      exact ⟨reply, [], .here _, rfl⟩
  rw [Session.execute, logged]
  split
  · exact Program.note_reaches_done_iff.trans hsent
  · exact hsent

section Preparing

variable {S : Type} {make : List (Sql.ColumnRef × Sql.Expr) → S}

/-- Before the statement of a row only its deferred values are resolved. -/
lemma begins_of_preparing (h : (preparing rows entity values make).run.Begins trace) :
    (runAll rows values.deferred).Begins trace := by
  obtain h | ⟨first, row, second, hfirst, hsecond, rfl⟩ := Program.Begins.of_run_bind h
  · exact FieldValues.begins_of_resolve h
  · have hsilent : second = [] := by
      obtain h | ⟨naming, columns, last, hnaming, hlast, rfl⟩ := hsecond.of_run_bind
      · exact Program.done_begins_iff.mp h
      · obtain ⟨rfl, -⟩ := Program.done_reaches_iff.mp hnaming
        exact Program.done_begins_iff.mp hlast
    rw [hsilent, List.append_nil]
    exact FieldValues.begins_of_resolve hfirst.begins

/-- The row behind a statement is the one that was resolved. -/
lemma preparing_reaches_ok {row : RowValues Rows} {statement : S}
    (h : (preparing rows entity values make).run.Reaches trace (.done (.ok (row, statement)))) :
    (answered rows values.resolve).run.Reaches trace (.done (.ok row)) ∧
      ∃ columns, columnValues entity row.values = .ok columns ∧ statement = make columns := by
  obtain ⟨first, own, second, hfirst, hsecond, rfl⟩ := h.of_run_bind_ok
  obtain ⟨columns, hcolumns, hlast⟩ := liftExcept_bind_reaches_ok hsecond
  obtain ⟨rfl, hdone⟩ := Program.done_reaches_iff.mp hlast
  cases hdone
  rw [List.append_nil]
  exact ⟨hfirst, columns, Except.eq_ok_of_mapError hcolumns, rfl⟩

/-- What the statement is made of fails only with what is fatal. -/
lemma fatal_of_preparing {failure : Failure}
    (h : (preparing rows entity values make).run.Reaches trace (.done (.error failure))) :
    failure.outcome? = none := by
  obtain ⟨_, hresolve, heq⟩ | ⟨first, own, second, -, hsecond, -⟩ :=
    Program.run_bind_reaches_done_iff.mp h
  · cases heq
    exact fatal_of_resolve hresolve
  cases hcolumns : columnValues entity own.values with
  | ok columns =>
    rw [hcolumns] at hsecond
    cases (Program.done_reaches_iff.mp hsecond).2
  | error e =>
    rw [hcolumns] at hsecond
    cases (Program.done_reaches_iff.mp hsecond).2
    rfl

end Preparing

/-- Where no deferred value leaves something for after the statement, nothing is left. -/
lemma after_eq_nil {row : RowValues Rows}
    (hvalues : ∀ resolve ∈ values.deferred,
      Returns .any (fun resolved => resolved.after = none) (fun _ => True) resolve)
    (h : (answered rows values.resolve).run.Reaches trace (.done (.ok row))) : row.after = [] := by
  obtain ⟨outcomes, hrun, -, rfl⟩ := FieldValues.resolve_reaches_ok h
  rw [FieldValues.rowOf, filterMap_afterOf?]
  refine List.flatMap_eq_nil_iff.mpr fun outcome hmem => ?_
  obtain ⟨resolve, calls, hturn⟩ := exists_turn hrun hmem
  obtain ⟨sent, hsent⟩ := hturn.exists_run
  have hafter := (hvalues resolve hturn.mem_actions).of_answered hsent
  cases outcome with
  | ok resolved =>
    rw [leftOf, show resolved.after = none from hafter]
    rfl
  | error failure => rfl

/-- Nothing that an insertion resolves leaves something for after its statement. -/
lemma after_of_insertion {pending : List Pending} {opened : List (Program.Exchange Effect)}
    {row : RowValues Rows}
    (hopened : (session.opening entity data).run.Reaches opened (.done (.ok (values, pending))))
    (h : (answered rows values.resolve).run.Reaches trace (.done (.ok row))) : row.after = [] := by
  refine after_eq_nil (fun resolve hresolve => ?_) h
  rw [deferred_of_opening hopened] at hresolve
  obtain ⟨entry, -, hresolve⟩ := List.mem_flatMap.mp hresolve
  obtain hnil | ⟨field, input, sides, inner, rfl, -, -, hjoins, -, hentries⟩ :=
    deferred_createEntries session.schema entity entry
  · rw [hnil] at hresolve
    cases hresolve
  · rw [hentries] at hresolve
    obtain rfl := List.mem_singleton.mp hresolve
    exact after_of_resolvingUnder (hjoins.after_eq_none hjoins.operation_ne_delete)

/-- Where there is nothing to set, nothing was left for after the statement. -/
lemma after_of_nothing_set {operations : List (Action Rows (List Result))}
    {planned : List (Program.Exchange Effect)} {row : RowValues Rows} {statement : Sql.Update}
    (hplanned : (session.planning entity primary data).run.Reaches planned
      (.done (.ok (values, operations, tree))))
    (h : (updating rows entity values tree).run.Reaches trace (.done (.ok (row, statement))))
    (hnothing : statement.values = []) : row.after = [] := by
  obtain ⟨hresolve, columns, hcolumns, rfl⟩ := preparing_reaches_ok h
  have hnil : row.values = [] := by
    rw [show columns = [] from hnothing] at hcolumns
    exact columnValues_eq_nil hcolumns
  obtain ⟨outcomes, hrun, hfatal, rfl⟩ := FieldValues.resolve_reaches_ok hresolve
  have hleft : ∀ outcome ∈ outcomes, leftOf outcome = [] := by
    intro outcome hmem
    cases outcome with
    | error failure => rfl
    | ok resolved =>
      obtain ⟨field, hslot⟩ := FieldValues.exists_slot_of_ok (length_of_runAll hrun) hfatal hmem
      have hvalue : resolved.value = none := by
        cases hvalue : resolved.value with
        | none => rfl
        | some value =>
          rw [hvalue] at hslot
          exact absurd hnil (FieldValues.present_ne_nil hslot)
      obtain ⟨action, calls, hturn⟩ := exists_turn hrun hmem
      have haction := hturn.mem_actions
      rw [deferred_of_planning hplanned] at haction
      obtain ⟨sent, hsent⟩ := hturn.exists_run
      have hfollows := (follows_of_mem_updateEntries haction).of_answered hsent
      have hafter : resolved.after = none := by
        by_contra hsome
        exact hfollows hsome hvalue
      rw [leftOf, hafter]
      rfl
  rw [FieldValues.rowOf, filterMap_afterOf?]
  exact List.flatMap_eq_nil_iff.mpr hleft

lemma ownInsertion_reaches {pending : List Pending} {opened : List (Program.Exchange Effect)}
    {row : RowValues Rows} {statement : Sql.Insert}
    (hopened : (session.opening entity data).run.Reaches opened (.done (.ok (values, pending))))
    (h : (insertion rows entity values).run.Reaches trace (.done (.ok (row, statement)))) :
    (session.ownInsertion rows entity data).run.Reaches (opened ++ trace)
      (.done (.ok (row, statement))) := by
  rw [ownInsertion_eq]
  exact hopened.run_bind h

lemma ownUpdate_reaches {operations : List (Action Rows (List Result))}
    {planned : List (Program.Exchange Effect)}
    {outcome : Except Failure (RowValues Rows × Sql.Update)}
    (hplanned : (session.planning entity primary data).run.Reaches planned
      (.done (.ok (values, operations, tree))))
    (h : (updating rows entity values tree).run.Reaches trace (.done outcome)) :
    (session.ownUpdate rows entity primary data).run.Reaches (planned ++ trace) (.done outcome) :=
  hplanned.run_bind h

/-- What goes on after the statement of a row, or in its place. -/
lemma begins_of_finishing {β : Type} {row : RowValues Rows} {f : List Result → β}
    (h : (do return f (← answered rows row.finish) : Action Effect β).run.Begins trace) :
    (runAll rows row.after).Begins trace := by
  obtain h | ⟨finishing, results, last, hfinishing, hlast, rfl⟩ := Program.Begins.of_run_bind h
  · exact begins_of_finish h
  · rw [Program.done_begins_iff.mp hlast, List.append_nil]
    exact begins_of_finish hfinishing.begins

/-- The statement of a new row follows its values, and what they left follows the statement. -/
lemma begins_of_insertValues (h : (session.insertValues rows entity values).run.Begins trace) :
    (insertion rows entity values).run.Begins trace ∨ ∃ before row statement reply finishing,
      (insertion rows entity values).run.Reaches before (.done (.ok (row, statement))) ∧
      (runAll rows row.after).Begins finishing ∧
      trace = before ++ ⟨.query (.insert statement), reply⟩ :: finishing := by
  rw [insertValues_eq] at h
  obtain h | ⟨before, ⟨row, statement⟩, rest, hprepared, hrest, rfl⟩ :=
    Program.Begins.of_run_bind h
  · exact .inl h
  obtain h | ⟨sent, set, after, hsent, hafter, rfl⟩ := Program.Begins.of_run_bind hrest
  · obtain rfl | ⟨reply, rfl⟩ := begins_of_query h
    · rw [List.append_nil]
      exact .inl hprepared.begins
    · exact .inr ⟨before, row, statement, reply, [], hprepared, Program.begins_nil _, rfl⟩
  · obtain ⟨reply, rfl, -⟩ := session.query_reaches_iff.mp hsent
    exact .inr ⟨before, row, statement, reply, after, hprepared, begins_of_finishing hafter, rfl⟩

lemma insertValues_reaches_ok {inserted : Inserted}
    (h : (session.insertValues rows entity values).run.Reaches trace (.done (.ok inserted))) :
    ∃ before row statement set finishing,
      (insertion rows entity values).run.Reaches before (.done (.ok (row, statement))) ∧
      (answered rows row.finish).run.Reaches finishing (.done (.ok inserted.results)) ∧
      inserted.primary = set.valueAt? 0 0 ∧
      trace = before ++ ⟨.query (.insert statement), .ok set⟩ :: finishing := by
  rw [insertValues_eq] at h
  obtain ⟨before, ⟨row, statement⟩, rest, hprepared, hrest, rfl⟩ := h.of_run_bind_ok
  obtain ⟨sent, set, after, hsent, hafter, rfl⟩ := hrest.of_run_bind_ok
  obtain ⟨reply, rfl, hreply⟩ := session.query_reaches_iff.mp hsent
  have hset : reply = .ok set := Except.eq_ok_of_mapError hreply.symm
  obtain ⟨finishing, results, last, hfinishing, hlast, rfl⟩ := hafter.of_run_bind_ok
  obtain ⟨rfl, hdone⟩ := Program.done_reaches_iff.mp hlast
  cases hdone
  refine ⟨before, row, statement, set, finishing, hprepared, hfinishing, rfl, ?_⟩
  rw [hset, List.append_nil]
  rfl

/-- A row whose statement the database answers with an error comes to that error, be it a result or
fatal. -/
lemma insertRow_reaches_of_error {row : RowValues Rows} {statement : Sql.Insert}
    {e : Database.Error} (h : (session.ownInsertion rows entity data).run.Reaches trace
      (.done (.ok (row, statement)))) :
    (session.insertRow rows entity data).run.Reaches
      (trace ++ [⟨.query (.insert statement), .error e⟩]) (.done (Failure.database e).classified) := by
  rw [ownInsertion_eq] at h
  obtain ⟨opened, ⟨values, pending⟩, preparing, hopened, hprepared, rfl⟩ := h.of_run_bind_ok
  have hinsert : (session.insertValues rows entity values).run.Reaches
      (preparing ++ [⟨.query (.insert statement), .error e⟩])
      (.done (.error (.database e))) := by
    rw [insertValues_eq]
    refine hprepared.run_bind ?_
    exact (session.query_reaches_iff.mpr ⟨.error e, rfl, rfl⟩).run_bind_error
  rw [insertRow_eq, List.append_assoc]
  exact hopened.run_bind ((attempt_reaches_ok_iff.mpr hinsert).run_bind_done rfl)

/-- The values of a new row fail with what is fatal, or with the answer to its statement. -/
lemma insertValues_reaches_error {failure : Failure}
    (h : (session.insertValues rows entity values).run.Reaches trace (.done (.error failure))) :
    failure.outcome? = none ∨ ∃ e, Sends (insertion rows entity values) trace (.error e) := by
  rw [insertValues_eq] at h
  obtain ⟨_, hprepared, heq⟩ | ⟨before, ⟨row, statement⟩, rest, hprepared, hrest, rfl⟩ :=
    Program.run_bind_reaches_done_iff.mp h
  · cases heq
    exact .inl (fatal_of_preparing hprepared)
  obtain ⟨_, hsent, heq⟩ | ⟨sent, set, after, hsent, hafter, rfl⟩ :=
    Program.run_bind_reaches_done_iff.mp hrest
  · cases heq
    obtain ⟨e | set, rfl, hreply⟩ := session.query_reaches_iff.mp hsent
    · exact .inr ⟨e, before, row, statement, [], hprepared, rfl⟩
    · cases hreply
  · obtain ⟨_, hfinishing, heq⟩ | ⟨_, _, _, _, hlast, _⟩ :=
      Program.run_bind_reaches_done_iff.mp hafter
    · cases heq
      exact .inl (fatal_of_finish hfinishing)
    · cases (Program.done_reaches_iff.mp hlast).2

section Writing

variable {row : RowValues Rows} {statement : Sql.Update}

lemma writing_eq_of_nil (h : statement.values = []) :
    session.writing rows (row, statement) = (do
      let results ← answered rows row.finish
      return ⟨none, row.values, results⟩) := by
  simp only [writing, h, List.isEmpty_nil, if_true, pure_bind]

lemma writing_eq_of_ne_nil (h : statement.values ≠ []) :
    session.writing rows (row, statement) = session.execute (.update statement) >>= fun count => do
      let results ← answered rows row.finish
      return ⟨some count, row.values, results⟩ := by
  have hne : statement.values.isEmpty = false := List.isEmpty_eq_false_iff.mpr h
  simp only [writing, hne, Bool.false_eq_true, if_false, map_eq_pure_bind, bind_assoc, pure_bind]

/-- What was left for after the statement follows it, unless the statement failed. -/
lemma begins_of_writing (hset : statement.values ≠ [])
    (h : (session.writing rows (row, statement)).run.Begins trace) :
    trace = [] ∨ ∃ reply finishing, (runAll rows row.after).Begins finishing ∧
      (finishing ≠ [] → ∃ count, reply = .ok count) ∧
      trace = ⟨.execute (.update statement), reply⟩ :: finishing := by
  rw [writing_eq_of_ne_nil hset] at h
  obtain h | ⟨sent, count, after, hsent, hafter, rfl⟩ := Program.Begins.of_run_bind h
  · obtain rfl | ⟨reply, rfl⟩ := begins_of_execute h
    · exact .inl rfl
    · exact .inr ⟨reply, [], Program.begins_nil _, fun hne => absurd rfl hne, rfl⟩
  · obtain ⟨reply, rfl, hreply⟩ := execute_reaches_iff.mp hsent
    exact .inr ⟨reply, after, begins_of_finishing hafter,
      fun _ => ⟨count, Except.eq_ok_of_mapError hreply.symm⟩, rfl⟩

/-- What the row comes to once what was left for after the statement is done. -/
lemma finishing_reaches_ok {count : Option Nat} {updated : Updated}
    (h : (do return ⟨count, row.values, ← answered rows row.finish⟩ :
      Action Effect Updated).run.Reaches trace (.done (.ok updated))) :
    (answered rows row.finish).run.Reaches trace (.done (.ok updated.results)) ∧
      updated.rows = count := by
  obtain ⟨finishing, results, last, hfinishing, hlast, rfl⟩ := h.of_run_bind_ok
  obtain ⟨rfl, hdone⟩ := Program.done_reaches_iff.mp hlast
  cases hdone
  rw [List.append_nil]
  exact ⟨hfinishing, rfl⟩

lemma fatal_of_finishing {count : Option Nat} {failure : Failure}
    (h : (do return ⟨count, row.values, ← answered rows row.finish⟩ :
      Action Effect Updated).run.Reaches trace (.done (.error failure))) :
    failure.outcome? = none := by
  obtain ⟨_, hfinishing, heq⟩ | ⟨_, _, _, _, hlast, _⟩ := Program.run_bind_reaches_done_iff.mp h
  · cases heq
    exact fatal_of_finish hfinishing
  · cases (Program.done_reaches_iff.mp hlast).2

/-- How the update of a row that was resolved ends, by the answer to its statement. -/
lemma writing_reaches_of_set {outcome : Except Failure Updated} (hset : statement.values ≠ [])
    (h : (session.writing rows (row, statement)).run.Reaches trace (.done outcome)) :
    ∃ reply finishing, trace = ⟨.execute (.update statement), reply⟩ :: finishing ∧
      Satisfies (fun updated => (answered rows row.finish).run.Reaches finishing
          (.done (.ok updated.results)) ∧ ∃ count, reply = .ok count ∧ updated.rows = some count)
        (fun failure => failure.outcome? = none ∨ ∃ e, reply = .error e) outcome := by
  rw [writing_eq_of_ne_nil hset] at h
  obtain ⟨failure, hsent, rfl⟩ | ⟨sent, count, finishing, hsent, hfinishing, rfl⟩ :=
    Program.run_bind_reaches_done_iff.mp h
  · obtain ⟨e | count, rfl, hreply⟩ := execute_reaches_iff.mp hsent
    · exact ⟨_, [], rfl, .inr ⟨e, rfl⟩⟩
    · cases hreply
  · obtain ⟨reply, rfl, hreply⟩ := execute_reaches_iff.mp hsent
    refine ⟨reply, finishing, rfl, ?_⟩
    cases outcome with
    | ok updated =>
      obtain ⟨hfinished, hrows⟩ := finishing_reaches_ok hfinishing
      exact ⟨hfinished, count, Except.eq_ok_of_mapError hreply.symm, hrows⟩
    | error failure => exact .inl (fatal_of_finishing hfinishing)

lemma writing_reaches_of_nothing_set {outcome : Except Failure Updated}
    (hnothing : statement.values = [])
    (h : (session.writing rows (row, statement)).run.Reaches trace (.done outcome)) :
    Satisfies (fun updated => (answered rows row.finish).run.Reaches trace
        (.done (.ok updated.results))) (fun failure => failure.outcome? = none) outcome := by
  rw [writing_eq_of_nil hnothing] at h
  cases outcome with
  | ok updated => exact (finishing_reaches_ok h).1
  | error failure => exact fatal_of_finishing h

end Writing

end Session

end EntityGraph.Mutation
