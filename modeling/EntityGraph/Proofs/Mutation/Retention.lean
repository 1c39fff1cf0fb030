import EntityGraph.Proofs.Mutation.OwnStatement
import EntityGraph.Proofs.Mutation.Telling
/-!
# No nested result is lost

While the joining columns of a row are resolved, other rows are looked up and written, and what
became of them is told in the answers. Every result told there is among the results of the write,
under the path of the relation, unless the database answers the statement of the row itself with an
error: the results that were there before are then forgotten, and only the failure is reported.
-/
namespace EntityGraph.Mutation

variable {rows : RowAnswers} {trace : List (Program.Exchange Effect)}

/-! ### What writes keep -/

namespace Session

variable {session : Session} {entity : Entity} {which : UniqueWhere} {data : Data}
  {results : List Result} {result : Result} {sides : RelationSides} {input : ToOneInput}
  {calls : List (Program.Exchange Rows)}

/-- On the trace of an insertion, the calls that an input on a relation with a joining column made
in its turn. -/
inductive InsertCalls (session : Session) (rows : RowAnswers) (entity : Entity) (data : Data)
    (sides : RelationSides) (input : ToOneInput) :
    List (Program.Exchange Effect) → List (Program.Exchange Rows) → Prop
  | column {field : String} {resolve : Action Rows (Resolved Rows)} {values : FieldValues Rows}
      {pending : List Pending} {opened rest : List (Program.Exchange Effect)}
      {calls : List (Program.Exchange Rows)} {outcome : Except Failure (Resolved Rows)}
      (hfield : (field, .one input) ∈ data.fields)
      (hsides : RelationSides.ofField session.schema entity field = .ok sides)
      (hcolumn : createColumn sides input = .ok (.deferred resolve))
      (hopened : (session.opening entity data).run.Reaches opened (.done (.ok (values, pending))))
      (hturn : Turn rows values.deferred resolve rest calls outcome) :
      InsertCalls session rows entity data sides input (opened ++ rest) calls

/-- On the trace of an update, the calls that an input on a relation with a joining column made in
its turn: for the column, for the deletion of the target after the statement, or beside the row. -/
inductive UpdateCalls (session : Session) (rows : RowAnswers) (entity : Entity)
    (which : UniqueWhere) (data : Data) (sides : RelationSides) (input : ToOneInput) :
    List (Program.Exchange Effect) → List (Program.Exchange Rows) → Prop
  | column {field : String} {primary : Value} {resolve : Action Rows (Resolved Rows)}
      {values : FieldValues Rows} {operations : List (Action Rows (List Result))}
      {tree : Sql.ConditionTree} {looking planned rest : List (Program.Exchange Effect)}
      {calls : List (Program.Exchange Rows)} {outcome : Except Failure (Resolved Rows)}
      (hfield : (field, .one input) ∈ data.fields)
      (hsides : RelationSides.ofField session.schema entity field = .ok sides)
      (hstep : RelatedRow.toOneStep ⟨sides, primary⟩ input = .ok (.column (.deferred resolve)))
      (hfound : (session.selectField entity which entity.primary).run.Reaches looking
        (.done (.ok (some primary))))
      (hplanned : (session.planning entity primary data).run.Reaches planned
        (.done (.ok (values, operations, tree))))
      (hturn : Turn rows values.deferred resolve rest calls outcome) :
      UpdateCalls session rows entity which data sides input (looking ++ (planned ++ rest)) calls
  | deletion {field : String} {primary target : Value} {values : FieldValues Rows}
      {operations : List (Action Rows (List Result))} {tree : Sql.ConditionTree}
      {row : RowValues Rows} {statement : Sql.Update} {reply : Except Database.Error Nat}
      {looking planned before rest : List (Program.Exchange Effect)}
      {calls : List (Program.Exchange Rows)} {outcome : Except Failure (List Result)}
      (hinput : input = .delete) (hfield : (field, .one input) ∈ data.fields)
      (hsides : RelationSides.ofField session.schema entity field = .ok sides)
      (hfound : (session.selectField entity which entity.primary).run.Reaches looking
        (.done (.ok (some primary))))
      (hplanned : (session.planning entity primary data).run.Reaches planned
        (.done (.ok (values, operations, tree))))
      (hupdating : (updating rows entity values tree).run.Reaches before
        (.done (.ok (row, statement))))
      (hset : statement.values ≠ [])
      (hturn : Turn rows row.after (underPath sides.path
        (Rows.delete sides.target (byPrimary sides.target target))) rest calls outcome) :
      UpdateCalls session rows entity which data sides input
        (looking ++ (planned ++ (before ++ ⟨.execute (.update statement), reply⟩ :: rest))) calls
  | beside {field : String} {primary : Value} {operation : Action Rows (List Result)}
      {values : FieldValues Rows} {operations : List (Action Rows (List Result))}
      {tree : Sql.ConditionTree} {own : Except Failure Updated}
      {looking planned writing rest : List (Program.Exchange Effect)}
      {calls : List (Program.Exchange Rows)} {outcome : Except Failure (List Result)}
      (hfield : (field, .one input) ∈ data.fields)
      (hsides : RelationSides.ofField session.schema entity field = .ok sides)
      (hjoining : sides.kind.hasJoiningColumn = true)
      (hstep : RelatedRow.toOneStep ⟨sides, primary⟩ input = .ok (.run operation))
      (hfound : (session.selectField entity which entity.primary).run.Reaches looking
        (.done (.ok (some primary))))
      (hplanned : (session.planning entity primary data).run.Reaches planned
        (.done (.ok (values, operations, tree))))
      (hwriting : (session.updateValues rows entity values tree).run.Reaches writing (.done own))
      (hturn : Turn rows operations operation rest calls outcome) :
      UpdateCalls session rows entity which data sides input
        (looking ++ (planned ++ (writing ++ rest))) calls

/-- The calls of an insertion are answered along its trace. -/
lemma InsertCalls.exists_stretch
    (h : InsertCalls session rows entity data sides input trace calls)
    {call : Program.Exchange Rows} (hcall : call ∈ calls) :
    ∃ front own back, (rows call.request).Reaches own (.done call.reply) ∧
      trace = front ++ own ++ back := by
  cases h with
  | column _ _ _ _ hturn => exact Program.exists_stretch_append _ (hturn.exists_stretch hcall)

/-- The calls of an update are answered along its trace. -/
lemma UpdateCalls.exists_stretch
    (h : UpdateCalls session rows entity which data sides input trace calls)
    {call : Program.Exchange Rows} (hcall : call ∈ calls) :
    ∃ front own back, (rows call.request).Reaches own (.done call.reply) ∧
      trace = front ++ own ++ back := by
  cases h with
  | column _ _ _ _ _ hturn =>
    refine Program.exists_stretch_append _ (Program.exists_stretch_append _ ?_)
    exact hturn.exists_stretch hcall
  | deletion _ _ _ _ _ _ _ hturn =>
    refine Program.exists_stretch_append _ (Program.exists_stretch_append _
      (Program.exists_stretch_append _ ?_))
    exact Program.exists_stretch_append [_] (hturn.exists_stretch hcall)
  | beside _ _ _ _ _ _ _ hturn =>
    refine Program.exists_stretch_append _ (Program.exists_stretch_append _
      (Program.exists_stretch_append _ ?_))
    exact hturn.exists_stretch hcall

/-- The results before the statement of a new row are among those that are reported, unless the
statement fails. -/
lemma exists_row_of_insertRow {values : FieldValues Rows} {pending : List Pending}
    {opened rest : List (Program.Exchange Effect)}
    (hopened : (session.opening entity data).run.Reaches opened (.done (.ok (values, pending))))
    (hrun : (session.insertRow rows entity data).run.Reaches (opened ++ rest)
      (.done (.ok results)))
    (hanswered : ∀ e, ¬ session.OwnInsert rows entity data (opened ++ rest) (.error e)) :
    ∃ before row more, (answered rows values.resolve).run.Reaches before (.done (.ok row)) ∧
      before ++ more = rest ∧ row.results ⊆ results := by
  rw [insertRow_eq] at hrun
  have hrest := hrun.of_run_bind_prefix hopened
  obtain ⟨own, outcome, last, hattempt, hlast, rfl⟩ := hrest.of_run_bind_ok
  have hown := attempt_reaches_ok_iff.mp hattempt
  cases outcome with
  | error failure =>
    -- a failure is reported only if it is the answer to the statement
    obtain ⟨-, hdone⟩ := Program.done_reaches_iff.mp hlast
    obtain ⟨reported, hreported, -⟩ := classified_eq_ok (Program.done.inj hdone).symm
    obtain hfatal | ⟨e, hsent⟩ := insertValues_reaches_error hown
    · rw [result?_eq_none_iff.mpr hfatal] at hreported
      cases hreported
    · refine absurd ?_ (hanswered e)
      rw [OwnInsert, ownInsertion_eq]
      exact (sends_bind_iff hopened).mpr (hsent.append last)
  | ok inserted =>
    obtain ⟨before, row, statement, set, finishing, hprepared, hfinishing, -, rfl⟩ :=
      insertValues_reaches_ok hown
    obtain ⟨others, -, hothers⟩ := finish_reaches_ok hfinishing
    refine ⟨before, row, _, (preparing_reaches_ok hprepared).1, (List.append_assoc _ _ _).symm, ?_⟩
    have hinserted : inserted.results ⊆ results := by
      obtain ⟨_ | key, columns, told⟩ := inserted
      · obtain ⟨-, hdone⟩ := Program.done_reaches_iff.mp hlast
        cases hdone
        exact List.subset_cons_self _ _
      · obtain ⟨operations, -, hlast⟩ := liftExcept_bind_reaches_ok hlast
        obtain ⟨_, related, _, -, hdone, -⟩ := hlast.of_run_bind_ok
        obtain ⟨-, hdone⟩ := Program.done_reaches_iff.mp hdone
        cases hdone
        exact List.Subset.trans (List.subset_append_left told related) (List.subset_cons_self _ _)
    rw [hothers] at hinserted
    exact List.Subset.trans (List.subset_append_left _ _) hinserted

lemma results_subset_updateResults {primary : Value} (updated : Updated) :
    updated.results ⊆ updateResults entity primary updated := by
  unfold updateResults
  split <;> exact List.subset_cons_self _ _

/-- A failure that is reported is not fatal. -/
lemma not_fatal {failure : Failure} (h : ∃ result ∈ results, failure.result? = some result) :
    failure.outcome? ≠ none := by
  obtain ⟨result, -, hresult⟩ := h
  intro hfatal
  rw [result?_eq_none_iff.mpr hfatal] at hresult
  cases hresult

section Updates

variable {primary : Value} {values : FieldValues Rows}
  {operations : List (Action Rows (List Result))} {tree : Sql.ConditionTree}
  {looking planned rest : List (Program.Exchange Effect)}
  (hfound : (session.selectField entity which entity.primary).run.Reaches looking
    (.done (.ok (some primary))))
  (hplanned : (session.planning entity primary data).run.Reaches planned
    (.done (.ok (values, operations, tree))))
include hfound hplanned

/-- What an update reports of the row and beside it. -/
lemma exists_own_of_updateRow (hfields : data.fields ≠ [])
    (hrun : (session.updateRow rows entity which data).run.Reaches (looking ++ (planned ++ rest))
      (.done (.ok results))) :
    ∃ writing own beside related,
      (session.updateValues rows entity values tree).run.Reaches writing (.done own) ∧
      (answered rows (collectAll operations)).run.Reaches beside (.done (.ok related)) ∧
      writing ++ beside = rest ∧ related ⊆ results ∧
      Satisfies (fun updated => updateResults entity primary updated ⊆ results)
        (fun failure => ∃ result ∈ results, failure.result? = some result) own := by
  rw [updateRow_reaches_iff_of_found hfound hfields,
    updateFound_reaches_iff_of_planned hplanned] at hrun
  obtain ⟨writing, own, beside, related, hown, hrelated, rfl, htogether⟩ := hrun
  obtain ⟨reports, hreports, htogether⟩ := Except.bind_eq_ok.mp htogether.symm
  obtain ⟨others, hothers, htogether⟩ := Except.bind_eq_ok.mp htogether
  cases htogether
  subst hothers
  refine ⟨writing, own, beside, others, hown, hrelated, rfl, List.subset_append_right _ _, ?_⟩
  cases own with
  | ok updated =>
    obtain rfl := Except.ok.inj hreports
    exact List.subset_append_left _ _
  | error failure =>
    obtain ⟨reported, hreported, rfl⟩ := classified_eq_ok hreports
    exact ⟨reported, List.mem_append_left _ List.mem_cons_self, hreported⟩

/-- The results before the statement of an existing row, and what was left for after it, are among
those that are reported, unless the statement fails. -/
lemma exists_row_of_updateRow (hfields : data.fields ≠ [])
    (hrun : (session.updateRow rows entity which data).run.Reaches (looking ++ (planned ++ rest))
      (.done (.ok results)))
    (hanswered : ∀ e, ¬ session.OwnUpdate rows entity which data
      (looking ++ (planned ++ rest)) (.error e)) :
    ∃ before row statement sent finishing more told,
      (updating rows entity values tree).run.Reaches before (.done (.ok (row, statement))) ∧
      (answered rows row.finish).run.Reaches finishing (.done (.ok told)) ∧ told ⊆ results ∧
      before ++ (sent ++ (finishing ++ more)) = rest ∧
      (statement.values ≠ [] → ∃ reply, sent = [⟨.execute (.update statement), reply⟩]) := by
  obtain ⟨writing, own, beside, related, hown, -, rfl, -, hreports⟩ :=
    exists_own_of_updateRow hfound hplanned hfields hrun
  rw [updateValues_eq] at hown
  obtain ⟨failure, hfailed, rfl⟩ | ⟨before, ⟨row, statement⟩, rest, hupdating, hwriting, rfl⟩ :=
    Program.run_bind_reaches_done_iff.mp hown
  · exact absurd (fatal_of_preparing hfailed) (not_fatal hreports)
  by_cases hset : statement.values = []
  · have hends := writing_reaches_of_nothing_set hset hwriting
    cases own with
    | error failure => exact absurd hends (not_fatal hreports)
    | ok updated => exact ⟨before, row, statement, [], rest, beside, _, hupdating, hends,
        List.Subset.trans (results_subset_updateResults updated) hreports, by simp,
        fun hne => absurd hset hne⟩
  · obtain ⟨reply, finishing, rfl, hends⟩ := writing_reaches_of_set hset hwriting
    cases own with
    | error failure =>
      obtain hfatal | ⟨e, rfl⟩ := hends
      · exact absurd hfatal (not_fatal hreports)
      · refine absurd ?_ (hanswered e)
        exact ⟨looking, primary, planned ++ before, row, statement, finishing ++ beside, hfound,
          ownUpdate_reaches hplanned hupdating, hset, by simp⟩
    | ok updated => exact ⟨before, row, statement, _, finishing, beside, _, hupdating, hends.1,
        List.Subset.trans (results_subset_updateResults updated) hreports, by simp,
        fun _ => ⟨reply, rfl⟩⟩

end Updates

/-- What a deferred value was told in its turn is among the results of the row. -/
lemma mem_of_deferred_turn {own : Option Value} {values : FieldValues Rows}
    {resolve : Action Rows (Resolved Rows)} {row : RowValues Rows}
    {outcome : Except Failure (Resolved Rows)} {before more rest : List (Program.Exchange Effect)}
    (hjoins : Joins sides own input resolve)
    (hturn : Turn rows values.deferred (resolvingUnder sides.path resolve) rest calls outcome)
    (hresolve : (answered rows values.resolve).run.Reaches before (.done (.ok row)))
    (htrace : before ++ more = rest) (htells : Tells sides input calls result) :
    result.under sides.path ∈ row.results := by
  obtain ⟨resolved, hresolved, rfl⟩ := Program.map_reaches_done_iff.mp hturn.reaches
  exact hturn.mem_resolved htrace hresolve
    (mem_toldBy_resolvedUnder ((hjoins.tells_iff hresolved).mp htells))

/-- The values of a new row keep what was told while they were resolved. -/
lemma mem_of_ownInsertion {row : RowValues Rows} {statement : Sql.Insert}
    (h : (session.ownInsertion rows entity data).run.Reaches trace (.done (.ok (row, statement))))
    (hcalls : InsertCalls session rows entity data sides input trace calls)
    (htells : Tells sides input calls result) : result.under sides.path ∈ row.results := by
  cases hcalls with
  | column hfield hsides hcolumn hopened hturn =>
    obtain ⟨resolve, heq, hjoins⟩ := createColumn_eq_ok hcolumn
    cases heq
    rw [ownInsertion_eq] at h
    have hprepared := h.of_run_bind_prefix hopened
    exact mem_of_deferred_turn hjoins hturn (preparing_reaches_ok hprepared).1
      (List.append_nil _) htells

/-- An insertion keeps what is told while its columns are resolved. -/
lemma mem_of_insertCalls {trace : List (Program.Exchange Effect)}
    (hrun : (session.insertRow rows entity data).run.Reaches trace (.done (.ok results)))
    (hanswered : ∀ e, ¬ session.OwnInsert rows entity data trace (.error e))
    (hcalls : InsertCalls session rows entity data sides input trace calls)
    (htells : Tells sides input calls result) : result.under sides.path ∈ results := by
  cases hcalls with
  | column hfield hsides hcolumn hopened hturn =>
    obtain ⟨resolve, heq, hjoins⟩ := createColumn_eq_ok hcolumn
    cases heq
    obtain ⟨before, row, more, hresolve, htrace, hreported⟩ :=
      exists_row_of_insertRow hopened hrun hanswered
    exact hreported (mem_of_deferred_turn hjoins hturn hresolve htrace htells)

/-- An update keeps what is told for the inputs on relations with a joining column. -/
lemma mem_of_updateCalls {trace : List (Program.Exchange Effect)}
    (hrun : (session.updateRow rows entity which data).run.Reaches trace (.done (.ok results)))
    (hanswered : ∀ e, ¬ session.OwnUpdate rows entity which data trace (.error e))
    (hcalls : UpdateCalls session rows entity which data sides input trace calls)
    (htells : Tells sides input calls result) : result.under sides.path ∈ results := by
  cases hcalls with
  | column hfield hsides hstep hfound hplanned hturn =>
    obtain ⟨resolve, rfl, hjoins⟩ := owningStep_eq_deferred (toOneStep_eq_column hstep).2
    obtain ⟨before, row, statement, sent, finishing, more, told, hupdating, hfinishing, hreported,
      htrace, -⟩ := exists_row_of_updateRow hfound hplanned (List.ne_nil_of_mem hfield) hrun
        hanswered
    have hmem := mem_of_deferred_turn hjoins hturn (preparing_reaches_ok hupdating).1 htrace htells
    obtain ⟨others, -, rfl⟩ := finish_reaches_ok hfinishing
    exact hreported (List.mem_append_left _ hmem)
  | deletion hinput hfield hsides hfound hplanned hupdating hset hturn =>
    subst hinput
    obtain ⟨before, row, statement, sent, finishing, more, told, hown, hfinishing, hreported,
      htrace, hsent⟩ := exists_row_of_updateRow hfound hplanned (List.ne_nil_of_mem hfield) hrun
        hanswered
    obtain ⟨rfl, heq⟩ := hown.prefix_free hupdating htrace
    cases heq
    obtain ⟨reply, rfl⟩ := hsent hset
    obtain ⟨others, hcollected, rfl⟩ := finish_reaches_ok hfinishing
    have hafter : finishing ++ more = _ := (List.cons.inj (List.append_cancel_left htrace)).2
    refine hreported (List.mem_append_right _ (hturn.mem_collected hafter hcollected ?_))
    exact keeps_underPath hturn.reaches fun own hown => keeps_delete hown htells
  | beside hfield hsides hjoining hstep hfound hplanned hwriting hturn =>
    obtain ⟨writing, own, beside, related, hown, hbeside, htrace, hreported, -⟩ :=
      exists_own_of_updateRow hfound hplanned (List.ne_nil_of_mem hfield) hrun
    obtain ⟨rfl, -⟩ := hown.prefix_free hwriting htrace
    have hafter : beside ++ [] = _ := (List.append_nil beside).trans
      (List.append_cancel_left htrace)
    refine hreported (hturn.mem_collected hafter hbeside ?_)
    exact keeps_owningStep (owningStep_of_toOneStep hjoining hstep) hturn.reaches htells

section Converse

variable {values : FieldValues Rows} {row : RowValues Rows}
  {before rest : List (Program.Exchange Effect)}

/-- Every result of a row was told in the turn of one of its deferred values. -/
lemma exists_turn_of_result
    (hrun : (answered rows values.resolve).run.Reaches trace (.done (.ok row)))
    (h : result ∈ row.results) :
    ∃ resolve calls outcome, Turn rows values.deferred resolve trace calls outcome ∧
      result ∈ toldBy Resolved.results outcome := by
  obtain ⟨outcomes, hall, -, rfl⟩ := FieldValues.resolve_reaches_ok hrun
  obtain ⟨outcome, hmem, htold⟩ := exists_told_of_mem h
  obtain ⟨resolve, calls, hturn⟩ := exists_turn hall hmem
  exact ⟨resolve, calls, outcome, hturn, htold⟩

/-- What a deferred value told in its turn under the path of its relation, the calls tell. -/
lemma exists_tells {own : Option Value} {resolve : Action Rows (Resolved Rows)}
    {outcome : Except Failure (Resolved Rows)} (hjoins : Joins sides own input resolve)
    (hrun : (resolvingUnder sides.path resolve).run.Reaches calls (.done outcome))
    (htold : result ∈ toldBy Resolved.results outcome) :
    ∃ own, Tells sides input calls own ∧ own.under sides.path = result := by
  obtain ⟨resolved, hresolved, rfl⟩ := Program.map_reaches_done_iff.mp hrun
  obtain ⟨own, hown, hunder⟩ := exists_told_of_resolvedUnder htold
  exact ⟨own, (hjoins.tells_iff hresolved).mpr hown, hunder⟩

/-- The results of a new row are told of related rows, in the turns of its inputs. -/
lemma exists_insertCalls {statement : Sql.Insert}
    (h : (session.ownInsertion rows entity data).run.Reaches before (.done (.ok (row, statement))))
    (hresult : result ∈ row.results) (rest : List (Program.Exchange Effect)) :
    ∃ sides input calls told,
      InsertCalls session rows entity data sides input (before ++ rest) calls ∧
      Tells sides input calls told ∧ told.under sides.path = result := by
  rw [ownInsertion_eq] at h
  obtain ⟨opened, ⟨values, pending⟩, preparing, hopened, hprepared, rfl⟩ := h.of_run_bind_ok
  obtain ⟨resolve, calls, outcome, hturn, htold⟩ :=
    exists_turn_of_result (preparing_reaches_ok hprepared).1 hresult
  have hmem := hturn.mem_actions
  rw [deferred_of_opening hopened] at hmem
  obtain ⟨entry, hentry, hmem⟩ := List.mem_flatMap.mp hmem
  obtain hnil | ⟨field, input, sides, inner, rfl, hsides, -, hjoins, hcolumn, hentries⟩ :=
    deferred_createEntries session.schema entity entry
  · rw [hnil] at hmem
    cases hmem
  · rw [hentries] at hmem
    obtain rfl := List.mem_singleton.mp hmem
    obtain ⟨told, htells, hunder⟩ := exists_tells hjoins hturn.reaches htold
    refine ⟨sides, input, calls, told, ?_, htells, hunder⟩
    rw [List.append_assoc]
    exact .column hentry hsides hcolumn hopened (hturn.append rest)

/-- The results of the columns of an existing row are told of related rows, in the turns of its
inputs. -/
lemma exists_updateCalls {primary : Value} {statement : Sql.Update}
    {looking : List (Program.Exchange Effect)}
    (hfound : (session.selectField entity which entity.primary).run.Reaches looking
      (.done (.ok (some primary))))
    (h : (session.ownUpdate rows entity primary data).run.Reaches before
      (.done (.ok (row, statement))))
    (hresult : result ∈ row.results) (rest : List (Program.Exchange Effect)) :
    ∃ sides input calls told,
      UpdateCalls session rows entity which data sides input (looking ++ (before ++ rest)) calls ∧
      Tells sides input calls told ∧ told.under sides.path = result := by
  obtain ⟨planned, ⟨values, operations, tree⟩, updating, hplanned, hupdating, rfl⟩ :=
    h.of_run_bind_ok
  obtain ⟨resolve, calls, outcome, hturn, htold⟩ :=
    exists_turn_of_result (preparing_reaches_ok hupdating).1 hresult
  have hmem := hturn.mem_actions
  rw [deferred_of_planning hplanned] at hmem
  obtain ⟨entry, hentry, hmem⟩ := List.mem_flatMap.mp hmem
  obtain hnil | ⟨field, input, sides, inner, rfl, hsides, -, hjoins, hstep, hentries⟩ :=
    deferred_updateEntries session.schema entity primary entry
  · rw [hnil] at hmem
    cases hmem
  · rw [hentries] at hmem
    obtain rfl := List.mem_singleton.mp hmem
    obtain ⟨told, htells, hunder⟩ := exists_tells hjoins hturn.reaches htold
    obtain ⟨_, hof, hrow⟩ := Except.bind_eq_ok.mp hstep
    cases hsides.symm.trans hof
    refine ⟨sides, input, calls, told, ?_, htells, hunder⟩
    rw [List.append_assoc]
    exact .column hentry hsides hrow hfound hplanned (hturn.append rest)

end Converse

/-- A row whose statement the database answers with an error is reported as that error alone. -/
lemma insertRow_reaches_of_refused {row : RowValues Rows} {statement : Sql.Insert}
    {e : Database.Error} (h : (session.ownInsertion rows entity data).run.Reaches trace
      (.done (.ok (row, statement)))) (hresult : (Failure.database e).result? = some result) :
    (session.insertRow rows entity data).run.Reaches
      (trace ++ [⟨.query (.insert statement), .error e⟩]) (.done (.ok [result])) := by
  have hrow := insertRow_reaches_of_error (e := e) h
  rwa [Failure.classified, hresult] at hrow

/-- A row has its results where nothing was left for after its statement. -/
lemma finish_reaches_of_nothing_left {row : RowValues Rows} (h : row.after = []) :
    (answered rows row.finish).run.Reaches [] (.done (.ok row.results)) := by
  have hfinish : (answered rows row.finish).run = .done (.ok (row.results ++ flatten [])) := by
    rw [RowValues.finish, h]
    rfl
  rw [hfinish, flatten, List.append_nil]
  exact .here _

/-- A row that was not written is reported as denied, along with its results. -/
lemma insertRow_reaches_of_denied {row : RowValues Rows} {statement : Sql.Insert}
    {set : Database.ResultSet} (h : (session.ownInsertion rows entity data).run.Reaches trace
      (.done (.ok (row, statement)))) (hset : set.valueAt? 0 0 = none) :
    (session.insertRow rows entity data).run.Reaches
      (trace ++ [⟨.query (.insert statement), .ok set⟩])
      (.done (.ok (.atRoot .denied :: row.results))) := by
  rw [ownInsertion_eq] at h
  obtain ⟨opened, ⟨values, pending⟩, preparing, hopened, hprepared, rfl⟩ := h.of_run_bind_ok
  have hinsert : (session.insertValues rows entity values).run.Reaches
      (preparing ++ [⟨.query (.insert statement), .ok set⟩])
      (.done (.ok ⟨none, row.values, row.results⟩)) := by
    have hleft := after_of_insertion hopened (preparing_reaches_ok hprepared).1
    rw [insertValues_eq]
    refine hprepared.run_bind ?_
    have hsent : (session.query (.insert statement)).run.Reaches
        [⟨.query (.insert statement), .ok set⟩] (.done (.ok set)) :=
      session.query_reaches_iff.mpr ⟨.ok set, rfl, rfl⟩
    refine hsent.run_bind ((finish_reaches_of_nothing_left hleft).run_bind_done ?_)
    rw [hset]
    rfl
  rw [insertRow_eq, List.append_assoc]
  exact hopened.run_bind ((attempt_reaches_ok_iff.mpr hinsert).run_bind_done rfl)

/-- A row with nothing to set is reported as updated, along with its results and with what was run
beside it. -/
lemma updateRow_reaches_of_nothing_set {primary : Value} {row : RowValues Rows}
    {statement : Sql.Update} {related : List Result}
    {looking beside : List (Program.Exchange Effect)} (hfields : data.fields ≠ [])
    (hfound : (session.selectField entity which entity.primary).run.Reaches looking
      (.done (.ok (some primary))))
    (h : (session.ownUpdate rows entity primary data).run.Reaches trace
      (.done (.ok (row, statement)))) (hnothing : statement.values = [])
    (hbeside : (answered rows (collectAll (data.fields.flatMap
      (updateOperations session.schema entity primary)))).run.Reaches beside
        (.done (.ok related))) :
    (session.updateRow rows entity which data).run.Reaches (looking ++ (trace ++ beside))
      (.done (.ok (.atRoot (.updated entity.name primary row.values) ::
        (row.results ++ related)))) := by
  obtain ⟨planned, ⟨values, operations, tree⟩, before, hplanned, hupdating, rfl⟩ := h.of_run_bind_ok
  rw [← (planning_reaches_ok hplanned).2] at hbeside
  have hwriting : (session.updateValues rows entity values tree).run.Reaches before
      (.done (.ok ⟨none, row.values, row.results⟩)) := by
    have hleft := after_of_nothing_set hplanned hupdating hnothing
    rw [updateValues_eq, ← List.append_nil before]
    refine hupdating.run_bind ?_
    rw [writing_eq_of_nil hnothing]
    exact (finish_reaches_of_nothing_left hleft).run_bind_done rfl
  rw [updateRow_reaches_iff_of_found hfound hfields, List.append_assoc,
    updateFound_reaches_iff_of_planned hplanned]
  exact ⟨_, _, _, _, hwriting, hbeside, rfl, rfl⟩

/-- Without anything to set, no statement of the row itself is sent. -/
lemma not_ownUpdate_of_nothing_set {primary : Value} {row : RowValues Rows}
    {statement : Sql.Update} {looking : List (Program.Exchange Effect)}
    (hfound : (session.selectField entity which entity.primary).run.Reaches looking
      (.done (.ok (some primary))))
    (h : (session.ownUpdate rows entity primary data).run.Reaches trace
      (.done (.ok (row, statement)))) (hnothing : statement.values = [])
    (rest : List (Program.Exchange Effect)) (reply : Except Database.Error Nat) :
    ¬ session.OwnUpdate rows entity which data (looking ++ (trace ++ rest)) reply := by
  rintro ⟨_, _, _, own, other, after, hlooked, hown, hset, heq⟩
  rw [List.append_assoc] at heq
  obtain ⟨rfl, hsame⟩ := hfound.prefix_free hlooked heq
  cases hsame
  obtain ⟨-, hsame⟩ := h.prefix_free hown (List.append_cancel_left heq)
  cases hsame
  exact hset hnothing

/-- No nested result is lost. Whatever the database answers, as long as it does not answer the
statement of the row itself with an error, the results of a write contain whatever was told of
related rows while the inputs on relations with a joining column had their turns, under the path of
the relation; whether the statement wrote the row or not. -/
theorem nested_results_kept (session : Session) (depth : Nat)
    (trace : List (Program.Exchange Effect)) (results : List Result) :
    (∀ entity data,
      (session.rows (depth + 1) (.insert entity data)).Reaches trace (.done (.ok results)) →
      (∀ e, ¬ session.OwnInsert (session.rows depth) entity data trace (.error e)) →
      ∀ sides input calls result,
        InsertCalls session (session.rows depth) entity data sides input trace calls →
        Tells sides input calls result → result.under sides.path ∈ results) ∧
    ∀ entity which data,
      (session.rows (depth + 1) (.update entity which data)).Reaches trace (.done (.ok results)) →
      (∀ e, ¬ session.OwnUpdate (session.rows depth) entity which data trace (.error e)) →
      ∀ sides input calls result,
        UpdateCalls session (session.rows depth) entity which data sides input trace calls →
        Tells sides input calls result → result.under sides.path ∈ results :=
  ⟨fun _ _ hrun hanswered _ _ _ _ => mem_of_insertCalls hrun hanswered,
    fun _ _ _ hrun hanswered _ _ _ _ => mem_of_updateCalls hrun hanswered⟩

def signedPostSteps : List EntityStep :=
  [.column "title" .string, .manyHasOne "author" "Author" { nullable := false }]

/-- Authors, and posts that must have an author. -/
def signedBlog : Schema :=
  .ofDefinitions [("Author", [.column "name" .string]), ("Post", signedPostSteps)]

def signedSession : Session := ⟨signedBlog, .standard⟩

def signedPost : Entity := .ofSteps "Post" signedPostSteps

/-- A post of the author with the key 7. -/
def postOfSeven : Data :=
  ⟨[("title", .value (.string "Notes")), ("author", .one (.connect (.single "id" (.int 7))))]⟩

/-- The author of a post becomes the one with the key 7. -/
def authorSeven : Data := ⟨[("author", .one (.connect (.single "id" (.int 7))))]⟩

/-- A database in which a row is found under every key. -/
def foundWorld : Script.World :=
  { Script.World.empty with
    responses := [⟨"SELECT", true, .rows ⟨["id"], [[.int 1]], none⟩⟩] }

/-- Whether one result was told before the statement of a new row. -/
def tellsOnce : Except Failure (RowValues Rows × Sql.Insert) → Bool
  | .ok (row, _) => row.results.length = 1
  | .error _ => false

/-- Whether one result was told before the statement of an existing row, and there is nothing to
set. -/
def tellsOnly : Except Failure (RowValues Rows × Sql.Update) → Bool
  | .ok (row, statement) => row.results.length = 1 && statement.values.isEmpty
  | .error _ => false

/-- In an empty database there is no author with the key 7. -/
lemma exists_postOfSeven : ∃ trace row statement result,
    (signedSession.ownInsertion (signedSession.rows 1) signedPost postOfSeven).run.Reaches trace
      (.done (.ok (row, statement))) ∧ result ∈ row.results := by
  have htest : (Script.run (signedSession.ownInsertion (signedSession.rows 1) signedPost
      postOfSeven).run Script.World.empty).any (fun outcome => tellsOnce outcome.1) = true := by
    decide +kernel
  obtain ⟨trace, failure | ⟨row, statement⟩, hrun, htest⟩ := Program.exists_reaches_of_run htest
  · cases htest
  obtain ⟨result, hresult⟩ := List.length_eq_one_iff.mp (of_decide_eq_true htest)
  exact ⟨trace, row, statement, result, hrun, by simp [hresult]⟩

lemma exists_authorSeven : ∃ trace row statement result,
    (signedSession.ownUpdate (signedSession.rows 1) signedPost (.int 1) authorSeven).run.Reaches
      trace (.done (.ok (row, statement))) ∧ result ∈ row.results ∧ statement.values = [] := by
  have htest : (Script.run (signedSession.ownUpdate (signedSession.rows 1) signedPost (.int 1)
      authorSeven).run Script.World.empty).any (fun outcome => tellsOnly outcome.1) = true := by
    decide +kernel
  obtain ⟨trace, failure | ⟨row, statement⟩, hrun, htest⟩ := Program.exists_reaches_of_run htest
  · cases htest
  obtain ⟨hlength, hnothing⟩ := Bool.and_eq_true_iff.mp htest
  obtain ⟨result, hresult⟩ := List.length_eq_one_iff.mp (of_decide_eq_true hlength)
  exact ⟨trace, row, statement, result, hrun, by simp [hresult], List.isEmpty_iff.mp hnothing⟩

/-- The database rejects a post without an author, and that the author to connect is missing is not
reported. -/
theorem missing_author_forgotten :
    Schema.build [("Author", [.column "name" .string]), ("Post", signedPostSteps)] =
      .ok signedBlog ∧
    ∃ trace results sides input calls told,
      (signedSession.rows 2 (.insert signedPost postOfSeven)).Reaches trace (.done (.ok results)) ∧
      InsertCalls signedSession (signedSession.rows 1) signedPost postOfSeven sides input trace
        calls ∧
      Tells sides input calls told ∧ told.under sides.path ∉ results := by
  refine ⟨by decide +kernel, ?_⟩
  obtain ⟨trace, row, statement, result, hrun, hmem⟩ := exists_postOfSeven
  let refusal : Database.Error := .ofFault (.nullViolation (.fields ["author_id"]))
  obtain ⟨sides, input, calls, told, hcalls, htells, -⟩ :=
    exists_insertCalls hrun hmem [⟨.query (.insert statement), .error refusal⟩]
  refine ⟨_, _, sides, input, calls, told, insertRow_reaches_of_refused hrun rfl, hcalls, htells,
    ?_⟩
  intro hsame
  have hpath := congrArg Result.path (List.mem_singleton.mp hsame)
  cases hpath

/-- A post is not written and its author is missing; then a post is updated without anything to set,
since its author is missing. Both are reported. -/
theorem nested_results_kept_post :
    (∃ trace results sides input calls told,
      (signedSession.rows 2 (.insert signedPost postOfSeven)).Reaches trace (.done (.ok results)) ∧
      InsertCalls signedSession (signedSession.rows 1) signedPost postOfSeven sides input trace
        calls ∧
      Tells sides input calls told ∧ told.under sides.path ∈ results) ∧
    ∃ trace results sides input calls told,
      (signedSession.rows 2 (.update signedPost (.single "id" (.int 1)) authorSeven)).Reaches trace
        (.done (.ok results)) ∧
      UpdateCalls signedSession (signedSession.rows 1) signedPost (.single "id" (.int 1))
        authorSeven sides input trace calls ∧
      Tells sides input calls told ∧ told.under sides.path ∈ results := by
  constructor
  · obtain ⟨trace, row, statement, result, hrun, hmem⟩ := exists_postOfSeven
    let sent : List (Program.Exchange Effect) :=
      trace ++ [⟨.query (.insert statement), .ok ⟨["id"], [], none⟩⟩]
    have hrow : (signedSession.rows 2 (.insert signedPost postOfSeven)).Reaches sent
        (.done (.ok (.atRoot .denied :: row.results))) := insertRow_reaches_of_denied hrun rfl
    have hanswered (e : Database.Error) : ¬ signedSession.OwnInsert (signedSession.rows 1)
        signedPost postOfSeven sent (.error e) := by
      intro hfailed
      have hsent : signedSession.OwnInsert (signedSession.rows 1) signedPost postOfSeven sent
          (.ok ⟨["id"], [], none⟩) := ⟨trace, row, statement, [], hrun, rfl⟩
      cases hfailed.unique hsent
    obtain ⟨sides, input, calls, told, hcalls, htells, -⟩ := exists_insertCalls hrun hmem _
    exact ⟨sent, _, sides, input, calls, told, hrow, hcalls, htells,
      (nested_results_kept signedSession 1 sent _).1 signedPost postOfSeven hrow hanswered sides
        input calls told hcalls htells⟩
  · obtain ⟨trace, row, statement, result, hrun, hmem, hnothing⟩ := exists_authorSeven
    obtain ⟨looking, hlooking⟩ : ∃ looking, (signedSession.selectField signedPost
        (.single "id" (.int 1)) signedPost.primary).run.trace? Script.answer foundWorld =
          some (looking, .ok (some (.int 1))) := ⟨_, rfl⟩
    have hfound := Program.reaches_of_trace? hlooking
    have hrow : (signedSession.rows 2 (.update signedPost (.single "id" (.int 1))
        authorSeven)).Reaches (looking ++ (trace ++ []))
          (.done (.ok (.atRoot (.updated _ _ row.values) :: (row.results ++ [])))) :=
      updateRow_reaches_of_nothing_set (by simp [authorSeven]) hfound hrun hnothing (.here _)
    obtain ⟨sides, input, calls, told, hcalls, htells, -⟩ := exists_updateCalls hfound hrun hmem []
    exact ⟨_, _, sides, input, calls, told, hrow, hcalls, htells,
      (nested_results_kept signedSession 1 _ _).2 signedPost _ authorSeven hrow
        (fun e => not_ownUpdate_of_nothing_set hfound hrun hnothing [] (.error e)) sides input
        calls told hcalls htells⟩

end Session

end EntityGraph.Mutation
