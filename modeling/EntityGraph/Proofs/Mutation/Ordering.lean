import EntityGraph.Proofs.Mutation.OwnStatement
/-!
# The order of the statements of a write

The statements of a nested write come in the order of their dependencies. What the columns of a row
depend on is run ahead of the statement of the row, in the order of the inputs; what depends on the
row is run behind it. This holds of a run that breaks off anywhere, and at every depth.
-/
namespace EntityGraph.Mutation

variable {rows : RowAnswers} {schema : Schema} {entity : Entity} {primary key : Value}
  {trace : List (Program.Exchange Effect)}

/-! ### Stretches -/

section Stretches

variable {α β γ : Type}

lemma forall₂_of_nothing {R : α → List β → Prop} (h : ∀ a, R a []) (items : List α) :
    ∃ stretches, List.Forall₂ R items stretches ∧ stretches.flatten = [] := by
  induction items with
  | nil => exact ⟨[], .nil, rfl⟩
  | cons item rest ih =>
    obtain ⟨stretches, hrest, hflat⟩ := ih
    exact ⟨[] :: stretches, .cons (h item) hrest, hflat⟩

/-- Two lists in a row, the second one related to the first. -/
lemma exists_forall₂_pairs {R : α → β → Prop} {S : β → γ → Prop} {as : List α} {bs : List β}
    {cs : List γ} (h : List.Forall₂ R as bs) (hnext : List.Forall₂ S bs cs) :
    ∃ pairs : List (β × γ), pairs.map Prod.fst = bs ∧ pairs.map Prod.snd = cs ∧
      List.Forall₂ (fun a pair => R a pair.1 ∧ S pair.1 pair.2) as pairs := by
  induction h generalizing cs with
  | nil =>
    cases hnext
    exact ⟨[], rfl, rfl, .nil⟩
  | @cons a b as bs hhead htail ih =>
    cases hnext with
    | @cons _ c _ cs hown hrest =>
      obtain ⟨pairs, hfirst, hsecond, hpairs⟩ := ih hrest
      exact ⟨(b, c) :: pairs, by simp [hfirst], by simp [hsecond], .cons ⟨hhead, hown⟩ hpairs⟩

end Stretches

/-! ### Inputs of a new row -/

/-- What is run for an input of a new row ahead of the row: only a relation with a joining column
has something to resolve. -/
inductive AheadOfRow (rows : RowAnswers) (schema : Schema) (entity : Entity) :
    String × FieldInput → List (Program.Exchange Effect) → Prop
  | nothing (entry : String × FieldInput) : AheadOfRow rows schema entity entry []
  | owning {field : String} {input : ToOneInput} {sides : RelationSides}
      {resolve : Action Rows (Resolved Rows)} {stretch : List (Program.Exchange Effect)}
      (hsides : RelationSides.ofField schema entity field = .ok sides)
      (hjoining : sides.kind.hasJoiningColumn = true)
      (hcolumn : createColumn sides input = .ok (.deferred resolve))
      (hrun : (answered rows resolve).run.Begins stretch) :
      AheadOfRow rows schema entity (field, .one input) stretch

/-- What is run for an input of a new row behind the row with that key: only a relation without a
joining column has something to run. -/
inductive BehindRow (rows : RowAnswers) (schema : Schema) (entity : Entity) (key : Value) :
    String × FieldInput → List (Program.Exchange Effect) → Prop
  | nothing (entry : String × FieldInput) : BehindRow rows schema entity key entry []
  | inverse {field : String} {input : ToOneInput} {sides : RelationSides}
      {operation : Action Rows (List Result)} {stretch : List (Program.Exchange Effect)}
      (hsides : RelationSides.ofField schema entity field = .ok sides)
      (hjoining : sides.kind.hasJoiningColumn = false)
      (hoperation : RelatedRow.createToOne ⟨sides, key⟩ input = .ok operation)
      (hrun : (answered rows operation).run.Begins stretch) :
      BehindRow rows schema entity key (field, .one input) stretch
  | many {field : String} {items : List ToManyItem} {sides : RelationSides}
      {operations : List (Action Rows (List Result))} {stretch : List (Program.Exchange Effect)}
      (hsides : RelationSides.ofField schema entity field = .ok sides)
      (hoperations : RelatedRow.createToMany ⟨sides, key⟩ items = .ok operations)
      (hrun : (runAll rows operations).Begins stretch) :
      BehindRow rows schema entity key (field, .many items) stretch

lemma AheadOfRow.of_begins {entry : String × FieldInput}
    (h : (runAll rows (createEntries schema entity entry).deferred).Begins trace) :
    AheadOfRow rows schema entity entry trace := by
  obtain hnone | ⟨field, input, sides, resolve, rfl, hsides, hjoining, -, hcolumn, hentries⟩ :=
    deferred_createEntries schema entity entry
  · rw [hnone] at h
    rw [runAll_nil_begins_iff.mp h]
    exact .nothing entry
  · rw [hentries] at h
    exact .owning hsides hjoining hcolumn (begins_of_runAll_singleton h)

lemma BehindRow.of_begins {entry : String × FieldInput}
    (h : (runAll rows ((createPending schema entity entry).flatMap
      (pendingOperations key))).Begins trace) : BehindRow rows schema entity key entry trace := by
  have hnothing (h : (runAll rows ([] : List (Action Rows (List Result)))).Begins trace) :
      BehindRow rows schema entity key entry trace := by
    rw [runAll_nil_begins_iff.mp h]
    exact .nothing entry
  obtain ⟨field, value | input | items⟩ := entry
  · exact hnothing h
  · cases hsides : RelationSides.ofField schema entity field with
    | error failure =>
      simp only [createPending, hsides] at h
      exact hnothing h
    | ok sides =>
      cases hjoining : sides.kind.hasJoiningColumn with
      | true =>
        simp only [createPending, hsides, hjoining, if_true] at h
        exact hnothing h
      | false =>
        simp only [createPending, hsides, hjoining, Bool.false_eq_true, if_false,
          List.flatMap_singleton, pendingOperations] at h
        cases hoperation : RelatedRow.createToOne ⟨sides, key⟩ input with
        | error failure =>
          rw [hoperation] at h
          exact hnothing h
        | ok operation =>
          rw [hoperation] at h
          exact .inverse hsides hjoining hoperation (begins_of_runAll_singleton h)
  · cases hsides : RelationSides.ofField schema entity field with
    | error failure =>
      simp only [createPending, hsides] at h
      exact hnothing h
    | ok sides =>
      simp only [createPending, hsides, List.flatMap_singleton, pendingOperations] at h
      cases hoperations : RelatedRow.createToMany ⟨sides, key⟩ items with
      | error failure =>
        rw [hoperations] at h
        exact hnothing h
      | ok operations =>
        rw [hoperations] at h
        exact .many hsides hoperations h

/-! ### Inputs of an existing row -/

/-- What is run for the column of an input of the row with that key: ahead of the statement of the
row, and behind the statement. Only a deletion has something behind it, the deletion of the target
that the column was found to hold. -/
inductive ColumnTurn (rows : RowAnswers) (schema : Schema) (entity : Entity) (primary : Value) :
    String × FieldInput → List (Program.Exchange Effect) × List (Program.Exchange Effect) → Prop
  | nothing (entry : String × FieldInput) : ColumnTurn rows schema entity primary entry ([], [])
  | resolving {field : String} {input : ToOneInput} {resolve : Action Rows (Resolved Rows)}
      {column : List (Program.Exchange Effect)}
      (hstep : stepOf schema entity primary field input = .ok (.column (.deferred resolve)))
      (hrun : (answered rows resolve).run.Begins column) :
      ColumnTurn rows schema entity primary (field, .one input) (column, [])
  | deleting {field : String} {sides : RelationSides} {target : Value}
      {column deletion : List (Program.Exchange Effect)}
      (hsides : RelationSides.ofField schema entity field = .ok sides)
      (hjoining : sides.kind.hasJoiningColumn = true)
      (hfound : (rows (.selectField entity (byPrimary entity primary) sides.relation.name)).Reaches
        column (.done (.ok (some target))))
      (hrun : (rows (.delete sides.target (byPrimary sides.target target))).Begins deletion) :
      ColumnTurn rows schema entity primary (field, .one .delete) (column, deletion)

/-- What is run for an input beside the row with that key. -/
inductive BesideRow (rows : RowAnswers) (schema : Schema) (entity : Entity) (primary : Value) :
    String × FieldInput → List (Program.Exchange Effect) → Prop
  | nothing (entry : String × FieldInput) : BesideRow rows schema entity primary entry []
  | one {field : String} {input : ToOneInput} {operation : Action Rows (List Result)}
      {stretch : List (Program.Exchange Effect)}
      (hstep : stepOf schema entity primary field input = .ok (.run operation))
      (hrun : (answered rows operation).run.Begins stretch) :
      BesideRow rows schema entity primary (field, .one input) stretch
  | many {field : String} {items : List ToManyItem} {sides : RelationSides}
      {operations : List (Action Rows (List Result))} {stretch : List (Program.Exchange Effect)}
      (hsides : RelationSides.ofField schema entity field = .ok sides)
      (hoperations : RelatedRow.toManyOperations ⟨sides, primary⟩ items = .ok operations)
      (hrun : (runAll rows operations).Begins stretch) :
      BesideRow rows schema entity primary (field, .many items) stretch

lemma ColumnTurn.of_begins {entry : String × FieldInput}
    (h : (runAll rows (updateEntries schema entity primary entry).deferred).Begins trace) :
    ColumnTurn rows schema entity primary entry (trace, []) := by
  obtain hnone | ⟨field, input, sides, resolve, rfl, -, -, -, hstep, hentries⟩ :=
    deferred_updateEntries schema entity primary entry
  · rw [hnone] at h
    rw [runAll_nil_begins_iff.mp h]
    exact .nothing entry
  · rw [hentries] at h
    exact .resolving hstep (begins_of_runAll_singleton h)

/-- The target of a deletion is the one that the column held. -/
lemma deleteTarget_reaches {sides : RelationSides} {resolved : Resolved Rows}
    {operation : Action Rows (List Result)}
    (h : (answered rows (RelatedRow.deleteTarget ⟨sides, primary⟩)).run.Reaches trace
      (.done (.ok resolved))) (hafter : resolved.after = some operation) :
    ∃ target, (rows (.selectField sides.entity (byPrimary sides.entity primary)
        sides.relation.name)).Reaches trace (.done (.ok (some target))) ∧
      operation = Rows.delete sides.target (byPrimary sides.target target) := by
  rw [RelatedRow.deleteTarget, answered_bind] at h
  obtain ⟨first, found, second, hfirst, hsecond, rfl⟩ := h.of_run_bind_ok
  cases found with
  | none =>
    obtain ⟨-, hdone⟩ := Program.done_reaches_iff.mp hsecond
    cases hdone
    cases hafter
  | some target =>
    obtain ⟨rfl, hdone⟩ := Program.done_reaches_iff.mp hsecond
    cases hdone
    cases hafter
    refine ⟨target, ?_, rfl⟩
    have hasked := answered_ask rows
      (.selectField sides.entity (byPrimary sides.entity primary) sides.relation.name)
    rw [List.append_nil, ← hasked]
    exact hfirst

lemma ColumnTurn.of_reaches {entry : String × FieldInput}
    {outcomes : List (Except Failure (Resolved Rows))}
    {deletion : List (Program.Exchange Effect)}
    (h : (runAll rows (updateEntries schema entity primary entry).deferred).Reaches trace
      (.done outcomes))
    (hdeletion : (runAll rows (outcomes.flatMap leftOf)).Begins deletion) :
    ColumnTurn rows schema entity primary entry (trace, deletion) := by
  by_cases hleft : outcomes.flatMap leftOf = []
  · rw [hleft] at hdeletion
    rw [runAll_nil_begins_iff.mp hdeletion]
    exact .of_begins h.begins
  obtain hnone | ⟨field, input, sides, resolve, rfl, hsides, hjoining, hjoins, hstep, hentries⟩ :=
    deferred_updateEntries schema entity primary entry
  · rw [hnone] at h
    obtain ⟨-, hdone⟩ := Program.done_reaches_iff.mp h
    cases hdone
    exact absurd rfl hleft
  rw [hentries] at h
  obtain ⟨outcome, hrun, rfl⟩ := runAll_singleton_reaches_iff.mp h
  obtain ⟨own, hown, rfl⟩ := resolvingUnder_reaches_iff.mp hrun
  rw [List.flatMap_singleton, leftOf_resolvedUnder] at hdeletion hleft
  cases own with
  | error failure => exact absurd rfl hleft
  | ok resolved =>
    cases hafter : resolved.after with
    | none =>
      rw [leftOf, hafter] at hleft
      exact absurd rfl hleft
    | some operation =>
      rw [leftOf, hafter] at hdeletion
      have hbegins := begins_of_underPath (begins_of_runAll_singleton hdeletion)
      by_cases hdelete : input.operation = .delete
      · cases hjoins with
        | delete primary =>
          obtain ⟨target, hfound, rfl⟩ := deleteTarget_reaches hown hafter
          rw [(RelationSides.relation_of_ofField hsides).1] at hfound
          refine .deleting hsides hjoining hfound ?_
          rwa [← answered_ask rows (.delete sides.target (byPrimary sides.target target))]
        | connect => cases hdelete
        | create => cases hdelete
        | upsert => cases hdelete
      · have hnone : resolved.after = none := (hjoins.after_eq_none hdelete).of_answered hown
        rw [hnone] at hafter
        cases hafter

lemma BesideRow.of_begins {entry : String × FieldInput}
    (h : (runAll rows (updateOperations schema entity primary entry)).Begins trace) :
    BesideRow rows schema entity primary entry trace := by
  have hnothing (h : (runAll rows ([] : List (Action Rows (List Result)))).Begins trace) :
      BesideRow rows schema entity primary entry trace := by
    rw [runAll_nil_begins_iff.mp h]
    exact .nothing entry
  obtain ⟨field, value | input | items⟩ := entry
  · exact hnothing h
  · rw [updateOperations] at h
    split at h
    · exact .one ‹_› (begins_of_runAll_singleton h)
    · exact hnothing h
  · rw [updateOperations] at h
    split at h
    · split at h
      · exact .many ‹_› ‹_› h
      · exact hnothing h
    · exact hnothing h

/-! ### Insertions -/

namespace Session

/-- A run of an insertion, complete or not: what the columns of the row depend on, the statement of
the row, and once that has returned a row with a key, what depends on the row. -/
inductive InsertsInOrder (session : Session) (rows : RowAnswers) (entity : Entity) (data : Data) :
    List (Program.Exchange Effect) → Prop
  | resolving {opened : List (Program.Exchange Effect)}
      {ahead : List (List (Program.Exchange Effect))} (hopened : statements opened = [])
      (hahead : List.Forall₂ (AheadOfRow rows session.schema entity) data.fields ahead) :
      InsertsInOrder session rows entity data (opened ++ ahead.flatten)
  | sent {opened : List (Program.Exchange Effect)}
      {ahead : List (List (Program.Exchange Effect))} {row : RowValues Rows}
      {statement : Sql.Insert} {reply : Except Database.Error Database.ResultSet}
      (hopened : statements opened = [])
      (hahead : List.Forall₂ (AheadOfRow rows session.schema entity) data.fields ahead)
      (hown : (session.ownInsertion rows entity data).run.Reaches (opened ++ ahead.flatten)
        (.done (.ok (row, statement)))) :
      InsertsInOrder session rows entity data
        (opened ++ ahead.flatten ++ [⟨.query (.insert statement), reply⟩])
  | inserted {opened : List (Program.Exchange Effect)}
      {ahead behind : List (List (Program.Exchange Effect))} {row : RowValues Rows}
      {statement : Sql.Insert} {set : Database.ResultSet} {key : Value}
      (hopened : statements opened = [])
      (hahead : List.Forall₂ (AheadOfRow rows session.schema entity) data.fields ahead)
      (hown : (session.ownInsertion rows entity data).run.Reaches (opened ++ ahead.flatten)
        (.done (.ok (row, statement))))
      (hkey : set.valueAt? 0 0 = some key)
      (hbehind : List.Forall₂ (BehindRow rows session.schema entity key) data.fields behind) :
      InsertsInOrder session rows entity data
        (opened ++ ahead.flatten ++ ⟨.query (.insert statement), .ok set⟩ :: behind.flatten)

section Insertions

variable {session : Session} {data : Data} {values : FieldValues Rows} {pending : List Pending}
  {opened : List (Program.Exchange Effect)}
  (hopened : (session.opening entity data).run.Reaches opened (.done (.ok (values, pending))))
include hopened

lemma ahead_of_resolving (h : (runAll rows values.deferred).Begins trace) :
    ∃ ahead, List.Forall₂ (AheadOfRow rows session.schema entity) data.fields ahead ∧
      trace = ahead.flatten := by
  rw [deferred_of_opening hopened, runAll_flatMap] at h
  obtain ⟨ahead, hahead, rfl⟩ := h.of_sequence_flatMap
  exact ⟨ahead, hahead.imp fun entry stretch => AheadOfRow.of_begins, rfl⟩

lemma behind_of_collecting {operations : List (Action Rows (List Result))}
    (hoperations : afterInsert key pending = .ok operations)
    (h : (runAll rows operations).Begins trace) :
    ∃ behind, List.Forall₂ (BehindRow rows session.schema entity key) data.fields behind ∧
      trace = behind.flatten := by
  have hall : operations = data.fields.flatMap fun entry =>
      (createPending session.schema entity entry).flatMap (pendingOperations key) := by
    rw [afterInsert_eq_ok hoperations, (opening_reaches_ok hopened).1, List.flatMap_assoc]
  rw [hall, runAll_flatMap] at h
  obtain ⟨behind, hbehind, rfl⟩ := h.of_sequence_flatMap
  exact ⟨behind, hbehind.imp fun entry stretch => BehindRow.of_begins, rfl⟩

/-- The values of a new row, up to the answer to its statement. -/
lemma order_of_insertValues (h : (session.insertValues rows entity values).run.Begins trace) :
    InsertsInOrder session rows entity data (opened ++ trace) := by
  have hsilent := statements_opening hopened.begins
  obtain h | ⟨before, row, statement, reply, finishing, hprepared, hfinishing, rfl⟩ :=
    begins_of_insertValues h
  · obtain ⟨ahead, hahead, rfl⟩ := ahead_of_resolving hopened (begins_of_preparing h)
    exact .resolving hsilent hahead
  · obtain ⟨ahead, hahead, rfl⟩ :=
      ahead_of_resolving hopened (begins_of_preparing hprepared.begins)
    have hafter := after_of_insertion hopened (preparing_reaches_ok hprepared).1
    rw [hafter] at hfinishing
    rw [runAll_nil_begins_iff.mp hfinishing, ← List.append_assoc]
    exact .sent hsilent hahead (ownInsertion_reaches hopened hprepared)

/-- What is run for the inputs that waited for the key of the row. -/
lemma order_of_inserted {own : List (Program.Exchange Effect)} {inserted : Inserted}
    {operations : List (Action Rows (List Result))}
    (hown : (session.insertValues rows entity values).run.Reaches own (.done (.ok inserted)))
    (hkey : inserted.primary = some key) (hoperations : afterInsert key pending = .ok operations)
    (h : (runAll rows operations).Begins trace) :
    InsertsInOrder session rows entity data (opened ++ (own ++ trace)) := by
  obtain ⟨before, row, statement, set, finishing, hprepared, hfinishing, hprimary, rfl⟩ :=
    insertValues_reaches_ok hown
  obtain ⟨ahead, hahead, rfl⟩ :=
    ahead_of_resolving hopened (begins_of_preparing hprepared.begins)
  obtain ⟨behind, hbehind, rfl⟩ := behind_of_collecting hopened hoperations h
  have hfinished := begins_of_finish hfinishing.begins
  rw [after_of_insertion hopened (preparing_reaches_ok hprepared).1] at hfinished
  have hshape : opened ++ ((ahead.flatten ++ ⟨.query (.insert statement), .ok set⟩ :: finishing) ++
      behind.flatten) =
      opened ++ ahead.flatten ++ ⟨.query (.insert statement), .ok set⟩ :: behind.flatten := by
    rw [runAll_nil_begins_iff.mp hfinished]
    simp
  rw [hshape]
  exact .inserted (statements_opening hopened.begins) hahead
    (ownInsertion_reaches hopened hprepared) (hprimary.symm.trans hkey) hbehind

end Insertions

/-- Every run of an insertion keeps the order, also one that breaks off. -/
theorem insertsInOrder_of_begins {session : Session} {data : Data}
    (h : (session.insertRow rows entity data).run.Begins trace) :
    InsertsInOrder session rows entity data trace := by
  rw [insertRow_eq] at h
  obtain h | ⟨opened, ⟨values, pending⟩, rest, hopened, hrest, rfl⟩ := Program.Begins.of_run_bind h
  · obtain ⟨ahead, hahead, hflat⟩ := forall₂_of_nothing (R := AheadOfRow rows session.schema entity)
      .nothing data.fields
    have horder := InsertsInOrder.resolving (statements_opening h) hahead
    rwa [hflat, List.append_nil] at horder
  obtain h | ⟨own, outcome, rest, hown, hrest, rfl⟩ := begins_of_attempt_bind hrest
  · exact order_of_insertValues hopened h
  have hidle (hnil : rest = []) :
      InsertsInOrder session rows entity data (opened ++ (own ++ rest)) := by
    rw [hnil, List.append_nil]
    exact order_of_insertValues hopened hown.begins
  obtain failure | ⟨_ | key, columns, results⟩ := outcome
  · exact hidle (Program.done_begins_iff.mp hrest)
  · exact hidle (Program.done_begins_iff.mp hrest)
  · obtain h | ⟨first, operations, second, hfirst, hsecond, rfl⟩ :=
      Program.Begins.of_run_bind hrest
    · exact hidle (Program.done_begins_iff.mp h)
    obtain ⟨rfl, hdone⟩ := Program.done_reaches_iff.mp hfirst
    have hoperations : afterInsert key pending = .ok operations := (Program.done.inj hdone).symm
    refine order_of_inserted hopened hown rfl hoperations ?_
    obtain h | ⟨collecting, related, last, hcollecting, hlast, rfl⟩ :=
      Program.Begins.of_run_bind hsecond
    · exact begins_of_collectAll h
    · rw [Program.done_begins_iff.mp hlast, List.append_nil]
      exact begins_of_collectAll hcollecting.begins

/-! ### Updates -/

/-- A run of an update, complete or not: the look-up of the row, what its columns depend on, the
statement of the row if there is anything to set, then the deletions of targets that its columns
held, and what is run beside the row. A statement that failed has no deletions behind it. -/
inductive UpdatesInOrder (session : Session) (rows : RowAnswers) (entity : Entity)
    (which : UniqueWhere) (data : Data) : List (Program.Exchange Effect) → Prop
  | lookingUp {looking : List (Program.Exchange Effect)}
      (hlooking : (session.selectField entity which entity.primary).run.Begins looking) :
      UpdatesInOrder session rows entity which data looking
  | resolving {looking planned : List (Program.Exchange Effect)} {primary : Value}
      {columns : List (List (Program.Exchange Effect))}
      (hfound : (session.selectField entity which entity.primary).run.Reaches looking
        (.done (.ok (some primary))))
      (hplanned : statements planned = [])
      (hcolumns : List.Forall₂ (fun entry column =>
        ColumnTurn rows session.schema entity primary entry (column, [])) data.fields columns) :
      UpdatesInOrder session rows entity which data (looking ++ (planned ++ columns.flatten))
  | unwritten {looking planned : List (Program.Exchange Effect)} {primary : Value}
      {columns beside : List (List (Program.Exchange Effect))}
      {outcome : Except Failure (RowValues Rows × Sql.Update)}
      (hfound : (session.selectField entity which entity.primary).run.Reaches looking
        (.done (.ok (some primary))))
      (hplanned : statements planned = [])
      (hcolumns : List.Forall₂ (fun entry column =>
        ColumnTurn rows session.schema entity primary entry (column, [])) data.fields columns)
      (hown : (session.ownUpdate rows entity primary data).run.Reaches (planned ++ columns.flatten)
        (.done outcome))
      (hidle : ∀ row statement, outcome = .ok (row, statement) → statement.values = [])
      (hbeside : List.Forall₂ (BesideRow rows session.schema entity primary) data.fields beside) :
      UpdatesInOrder session rows entity which data
        (looking ++ (planned ++ columns.flatten) ++ beside.flatten)
  | written {looking planned : List (Program.Exchange Effect)} {primary : Value}
      {turns : List (List (Program.Exchange Effect) × List (Program.Exchange Effect))}
      {beside : List (List (Program.Exchange Effect))} {row : RowValues Rows}
      {statement : Sql.Update} {reply : Except Database.Error Nat}
      (hfound : (session.selectField entity which entity.primary).run.Reaches looking
        (.done (.ok (some primary))))
      (hplanned : statements planned = [])
      (hturns : List.Forall₂ (ColumnTurn rows session.schema entity primary) data.fields turns)
      (hown : (session.ownUpdate rows entity primary data).run.Reaches
        (planned ++ turns.flatMap Prod.fst) (.done (.ok (row, statement))))
      (hset : statement.values ≠ [])
      (hdeletions : turns.flatMap Prod.snd ≠ [] → ∃ count, reply = .ok count)
      (hbeside : List.Forall₂ (BesideRow rows session.schema entity primary) data.fields beside) :
      UpdatesInOrder session rows entity which data
        (looking ++ (planned ++ turns.flatMap Prod.fst) ++
          ⟨.execute (.update statement), reply⟩ :: (turns.flatMap Prod.snd ++ beside.flatten))

section Updates

variable {session : Session} {data : Data} {values : FieldValues Rows}
  {operations : List (Action Rows (List Result))} {tree : Sql.ConditionTree}
  {planned : List (Program.Exchange Effect)}
  (hplanned : (session.planning entity primary data).run.Reaches planned
    (.done (.ok (values, operations, tree))))
include hplanned

lemma columns_of_resolving (h : (runAll rows values.deferred).Begins trace) :
    ∃ columns, List.Forall₂ (fun entry column =>
        ColumnTurn rows session.schema entity primary entry (column, [])) data.fields columns ∧
      trace = columns.flatten := by
  rw [deferred_of_planning hplanned, runAll_flatMap] at h
  obtain ⟨columns, hcolumns, rfl⟩ := h.of_sequence_flatMap
  exact ⟨columns, hcolumns.imp fun entry column => ColumnTurn.of_begins, rfl⟩

/-- What the columns left for after the statement belongs to the inputs that left it. -/
lemma turns_of_resolved {row : RowValues Rows} {finishing : List (Program.Exchange Effect)}
    (h : (answered rows values.resolve).run.Reaches trace (.done (.ok row)))
    (hfinishing : (runAll rows row.after).Begins finishing) :
    ∃ turns, List.Forall₂ (ColumnTurn rows session.schema entity primary) data.fields turns ∧
      trace = turns.flatMap Prod.fst ∧ finishing = turns.flatMap Prod.snd := by
  obtain ⟨outcomes, hrun, -, rfl⟩ := FieldValues.resolve_reaches_ok h
  rw [deferred_of_planning hplanned, runAll_flatMap] at hrun
  obtain ⟨resolved, hresolved, rfl, rfl⟩ := Program.sequence_flatMap_reaches_done_iff.mp hrun
  rw [FieldValues.rowOf, filterMap_afterOf?, List.flatMap_assoc, runAll_flatMap] at hfinishing
  obtain ⟨deletions, hdeletions, rfl⟩ := hfinishing.of_sequence_flatMap
  obtain ⟨pairs, rfl, rfl, hpairs⟩ := exists_forall₂_pairs hresolved hdeletions
  refine ⟨pairs.map fun pair => (pair.1.1, pair.2), ?_, ?_, ?_⟩
  · rw [List.forall₂_map_right_iff]
    exact hpairs.imp fun entry pair hpair => ColumnTurn.of_reaches hpair.1 hpair.2
  · rw [List.flatMap_map, List.flatMap_map]
  · rw [List.flatMap_def, List.map_map]
    rfl

lemma beside_of_collecting (h : (runAll rows operations).Begins trace) :
    ∃ beside, List.Forall₂ (BesideRow rows session.schema entity primary) data.fields beside ∧
      trace = beside.flatten := by
  rw [(planning_reaches_ok hplanned).2, runAll_flatMap] at h
  obtain ⟨beside, hbeside, rfl⟩ := h.of_sequence_flatMap
  exact ⟨beside, hbeside.imp fun entry stretch => BesideRow.of_begins, rfl⟩

variable {which : UniqueWhere} {looking beside : List (Program.Exchange Effect)}
  (hfound : (session.selectField entity which entity.primary).run.Reaches looking
    (.done (.ok (some primary))))
include hfound

/-- A statement with something to set that was sent. -/
lemma order_of_written {row : RowValues Rows} {statement : Sql.Update}
    {reply : Except Database.Error Nat} {finishing : List (Program.Exchange Effect)}
    (hupdating : (updating rows entity values tree).run.Reaches trace
      (.done (.ok (row, statement))))
    (hset : statement.values ≠ []) (hfinishing : (runAll rows row.after).Begins finishing)
    (hreply : finishing ≠ [] → ∃ count, reply = .ok count)
    (hbeside : (runAll rows operations).Begins beside) :
    UpdatesInOrder session rows entity which data (looking ++ (planned ++
      (trace ++ ⟨.execute (.update statement), reply⟩ :: finishing ++ beside))) := by
  obtain ⟨turns, hturns, rfl, rfl⟩ :=
    turns_of_resolved hplanned (preparing_reaches_ok hupdating).1 hfinishing
  obtain ⟨stretches, hstretches, rfl⟩ := beside_of_collecting hplanned hbeside
  have horder := UpdatesInOrder.written hfound (statements_planning hplanned.begins) hturns
    (ownUpdate_reaches hplanned hupdating) hset hreply hstretches
  simpa only [List.append_assoc, List.cons_append] using horder

/-- A statement that was not sent, since there is nothing to set or its values failed. -/
lemma order_of_unwritten {outcome : Except Failure (RowValues Rows × Sql.Update)}
    (hupdating : (updating rows entity values tree).run.Reaches trace (.done outcome))
    (hidle : ∀ row statement, outcome = .ok (row, statement) → statement.values = [])
    (hbeside : (runAll rows operations).Begins beside) :
    UpdatesInOrder session rows entity which data
      (looking ++ (planned ++ (trace ++ beside))) := by
  obtain ⟨columns, hcolumns, rfl⟩ :=
    columns_of_resolving hplanned (begins_of_preparing hupdating.begins)
  obtain ⟨stretches, hstretches, rfl⟩ := beside_of_collecting hplanned hbeside
  have horder := UpdatesInOrder.unwritten hfound (statements_planning hplanned.begins) hcolumns
    (ownUpdate_reaches hplanned hupdating) hidle hstretches
  simpa only [List.append_assoc] using horder

/-- The values of the row, up to what was left for after the statement. -/
lemma order_of_begins_updateValues
    (h : (session.updateValues rows entity values tree).run.Begins trace) :
    UpdatesInOrder session rows entity which data (looking ++ (planned ++ trace)) := by
  have hresolving {trace : List (Program.Exchange Effect)}
      (h : (updating rows entity values tree).run.Begins trace) :
      UpdatesInOrder session rows entity which data (looking ++ (planned ++ trace)) := by
    obtain ⟨columns, hcolumns, rfl⟩ := columns_of_resolving hplanned (begins_of_preparing h)
    exact .resolving hfound (statements_planning hplanned.begins) hcolumns
  rw [updateValues_eq] at h
  obtain h | ⟨before, ⟨row, statement⟩, rest, hupdating, hrest, rfl⟩ :=
    Program.Begins.of_run_bind h
  · exact hresolving h
  by_cases hset : statement.values = []
  · rw [writing_eq_of_nil hset] at hrest
    have hnone := begins_of_finishing hrest
    rw [after_of_nothing_set hplanned hupdating hset] at hnone
    rw [runAll_nil_begins_iff.mp hnone, List.append_nil]
    exact hresolving hupdating.begins
  · obtain rfl | ⟨reply, finishing, hfinishing, hreply, rfl⟩ := begins_of_writing hset hrest
    · rw [List.append_nil]
      exact hresolving hupdating.begins
    · have horder := order_of_written hplanned hfound hupdating hset hfinishing hreply
        (Program.begins_nil _)
      rwa [List.append_nil] at horder

/-- What is run beside the row follows its values, whatever these came to. -/
lemma order_of_updateValues {outcome : Except Failure Updated}
    (h : (session.updateValues rows entity values tree).run.Reaches trace (.done outcome))
    (hbeside : (runAll rows operations).Begins beside) :
    UpdatesInOrder session rows entity which data
      (looking ++ (planned ++ (trace ++ beside))) := by
  rw [updateValues_eq] at h
  obtain ⟨failure, hupdating, rfl⟩ | ⟨before, ⟨row, statement⟩, rest, hupdating, hrest, rfl⟩ :=
    Program.run_bind_reaches_done_iff.mp h
  · exact order_of_unwritten hplanned hfound hupdating (fun _ _ hcontra => nomatch hcontra) hbeside
  by_cases hset : statement.values = []
  · rw [writing_eq_of_nil hset] at hrest
    have hnone := begins_of_finishing hrest.begins
    rw [after_of_nothing_set hplanned hupdating hset] at hnone
    rw [runAll_nil_begins_iff.mp hnone, List.append_nil]
    refine order_of_unwritten hplanned hfound hupdating ?_ hbeside
    rintro _ _ ⟨⟩
    exact hset
  · obtain rfl | ⟨reply, finishing, hfinishing, hreply, rfl⟩ :=
      begins_of_writing hset hrest.begins
    · obtain ⟨_, _, hcontra, -⟩ := writing_reaches_of_set hset hrest
      cases hcontra
    · exact order_of_written hplanned hfound hupdating hset hfinishing hreply hbeside

end Updates

/-- Every run of an update keeps the order, also one that breaks off. -/
theorem updatesInOrder_of_begins {session : Session} {which : UniqueWhere} {data : Data}
    (h : (session.updateRow rows entity which data).run.Begins trace) :
    UpdatesInOrder session rows entity which data trace := by
  cases hfilter : which.expand entity with
  | error e =>
    rw [updateRow, hfilter] at h
    rw [Program.done_begins_iff.mp h]
    exact .lookingUp (Program.begins_nil _)
  | ok filter =>
    rw [session.updateRow_eq rows entity hfilter] at h
    obtain h | ⟨looking, found, rest, hfound, hrest, rfl⟩ := Program.Begins.of_run_bind h
    · exact .lookingUp h
    have hdone (hnil : rest = []) :
        UpdatesInOrder session rows entity which data (looking ++ rest) := by
      rw [hnil, List.append_nil]
      exact .lookingUp hfound.begins
    cases found with
    | none => exact hdone (Program.done_begins_iff.mp hrest)
    | some primary =>
      dsimp only at hrest
      split at hrest
      · exact hdone (Program.done_begins_iff.mp hrest)
      · rw [updateFound_eq] at hrest
        obtain h | ⟨planned, ⟨values, operations, tree⟩, after, hplanned, hafter, rfl⟩ :=
          Program.Begins.of_run_bind hrest
        · obtain ⟨columns, hcolumns, hflat⟩ := forall₂_of_nothing
            (R := fun entry column =>
              ColumnTurn rows session.schema entity primary entry (column, []))
            .nothing data.fields
          have horder := UpdatesInOrder.resolving hfound (statements_planning h) hcolumns
          rwa [hflat, List.append_nil] at horder
        obtain h | ⟨own, outcome, last, hown, hlast, rfl⟩ := begins_of_attempt_bind hafter
        · exact order_of_begins_updateValues hplanned hfound h
        obtain h | ⟨beside, related, ending, hbeside, hending, rfl⟩ := begins_of_attempt_bind hlast
        · exact order_of_updateValues hplanned hfound hown (begins_of_collectAll h)
        · rw [Program.done_begins_iff.mp hending, List.append_nil]
          exact order_of_updateValues hplanned hfound hown (begins_of_collectAll hbeside.begins)

def post : Entity := .ofSteps "Post" Filter.postSteps

/-- A post with an author, who is created along with it. -/
def postWithAuthor : Data :=
  ⟨[("title", .value (.string "Notes")),
    ("author", .one (.create ⟨[("name", .value (.string "Ada"))]⟩))]⟩

/-- A database in which every row that is looked up has the key 7, and one row is there to
delete. -/
def lookupWorld : Script.World :=
  { Script.World.empty with
    responses := [⟨"SELECT", true, .rows ⟨["id"], [[.int 7]], none⟩⟩,
      ⟨"DELETE", false, .rows ⟨["id"], [[.int 7]], none⟩⟩] }

end Session

end EntityGraph.Mutation
