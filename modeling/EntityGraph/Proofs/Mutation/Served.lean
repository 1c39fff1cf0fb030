import EntityGraph.Proofs.Mutation.Lookups
/-!
# Updates on a server

The parts of an update run one after another, each on the rows that the part before it left. Where
an update reports no error, its row was found, every value came to something, the statement of the
row touched it, and every operation beside it came to results.
-/
namespace EntityGraph.Mutation

variable {α : Type} {server : Server} {allowed : Effect.Request → Prop} {store next : Store}
  {rows : RowAnswers}

/-- Whether nothing was reported as an error. -/
def NoErrors (results : List Result) : Prop := ∀ result ∈ results, result.isError = false

lemma noErrors_nil : NoErrors [] := fun _ hmem => absurd hmem List.not_mem_nil

lemma noErrors_append {results others : List Result} :
    NoErrors (results ++ others) ↔ NoErrors results ∧ NoErrors others := List.forall_mem_append

lemma noErrors_cons {result : Result} {others : List Result} :
    NoErrors (result :: others) ↔ result.isError = false ∧ NoErrors others := List.forall_mem_cons

lemma noErrors_allUnder {path : Path} {results : List Result} :
    NoErrors (allUnder path results) ↔ NoErrors results := List.forall_mem_map

/-- A failure that is reported is an error. -/
lemma not_noErrors_of_result? {failure : Failure} {result : Result}
    (h : failure.result? = some result) {others : List Result} : ¬ NoErrors (result :: others) := by
  rw [noErrors_cons, Session.isError_of_result? h]
  rintro ⟨⟨⟩, -⟩

/-! ### One after another -/

lemma runs_attempt_iff {action : Action Effect α} {outcome : Except Failure α} :
    server.Runs allowed (attempt action).run store (.ok outcome) next ↔
      server.Runs allowed action.run store outcome next :=
  exists_congr fun _ => and_congr_left' attempt_reaches_ok_iff

section Siblings

variable {action : Action Rows α} {actions others : List (Action Rows α)}
  {outcomes : List (Except Failure α)}

lemma runs_runAll_nil_iff : server.Runs allowed (runAll rows ([] : List (Action Rows α))) store
    outcomes next ↔ outcomes = [] ∧ next = store := Server.runs_done_iff

lemma runs_runAll_cons_iff : server.Runs allowed (runAll rows (action :: actions)) store outcomes
    next ↔ ∃ outcome middle rest, server.Runs allowed (answered rows action).run store outcome
      middle ∧ server.Runs allowed (runAll rows actions) middle rest next ∧
        outcomes = outcome :: rest := by
  rw [runAll, List.map_cons, Program.sequence, Server.runs_bind_iff]
  refine exists_congr fun outcome => exists_congr fun middle => ?_
  rw [Server.runs_bind_iff]
  constructor
  · rintro ⟨hown, rest, last, hrest, hdone⟩
    obtain ⟨rfl, rfl⟩ := Server.runs_done_iff.mp hdone
    exact ⟨rest, hown, hrest, rfl⟩
  · rintro ⟨rest, hown, hrest, rfl⟩
    exact ⟨hown, rest, next, hrest, Server.runs_done_iff.mpr ⟨rfl, rfl⟩⟩

lemma runs_runAll_append_iff : server.Runs allowed (runAll rows (actions ++ others)) store outcomes
    next ↔ ∃ first middle second, server.Runs allowed (runAll rows actions) store first middle ∧
      server.Runs allowed (runAll rows others) middle second next ∧
        outcomes = first ++ second := by
  induction actions generalizing store outcomes with
  | nil =>
    constructor
    · exact fun h => ⟨[], store, outcomes, runs_runAll_nil_iff.mpr ⟨rfl, rfl⟩, h, rfl⟩
    · rintro ⟨first, middle, second, hfirst, hsecond, rfl⟩
      obtain ⟨rfl, rfl⟩ := runs_runAll_nil_iff.mp hfirst
      exact hsecond
  | cons action rest ih =>
    rw [List.cons_append, runs_runAll_cons_iff]
    constructor
    · rintro ⟨outcome, middle, later, hown, hlater, rfl⟩
      obtain ⟨first, last, second, hfirst, hsecond, rfl⟩ := ih.mp hlater
      exact ⟨outcome :: first, last, second,
        runs_runAll_cons_iff.mpr ⟨outcome, middle, first, hown, hfirst, rfl⟩, hsecond, rfl⟩
    · rintro ⟨_, last, second, hfirst, hsecond, rfl⟩
      obtain ⟨outcome, middle, later, hown, hlater, rfl⟩ := runs_runAll_cons_iff.mp hfirst
      exact ⟨outcome, middle, later ++ second, hown,
        ih.mpr ⟨later, last, second, hlater, hsecond, rfl⟩, rfl⟩

lemma split_map_ok (values : List α) : split (values.map .ok) = (values.map .ok, []) := by
  induction values with
  | nil => rfl
  | cons value rest ih => rw [List.map_cons, split, ih]; rfl

lemma classify_map_ok (values : List α) :
    classify (values.map .ok) = (.ok (values.map .ok), []) := by
  rw [classify, split_map_ok]

/-- Where nothing is fatal and no failure is reported, all came to something. -/
lemma exists_eq_map_ok (hfatal : (split outcomes).2 = [])
    (hclean : ∀ result, .error result ∈ (split outcomes).1 → result.isError = false) :
    ∃ values : List α, outcomes = values.map .ok := by
  induction outcomes with
  | nil => exact ⟨[], rfl⟩
  | cons outcome rest ih =>
    cases outcome with
    | ok value =>
      obtain ⟨values, rfl⟩ :=
        ih hfatal fun result hmem => hclean result (List.mem_cons_of_mem _ hmem)
      exact ⟨value :: values, rfl⟩
    | error failure =>
      cases hresult : failure.result? with
      | none => simp [split, hresult] at hfatal
      | some result =>
        have hmem := error_mem_split_iff.mpr ⟨failure, List.mem_cons_self (l := rest), hresult⟩
        cases (Session.isError_of_result? hresult).symm.trans (hclean result hmem)

end Siblings

/-- What the siblings came to, where none of it is an error. -/
lemma exists_of_classify {outcomes : List (Except Failure α)} {kept : List (Except Result α)}
    (h : (classify outcomes).1 = .ok kept)
    (hclean : ∀ result, .error result ∈ kept → result.isError = false) :
    ∃ values : List α, outcomes = values.map .ok ∧ kept = values.map .ok := by
  obtain ⟨hfatal, rfl⟩ := classify_eq_ok h
  obtain ⟨values, rfl⟩ := exists_eq_map_ok hfatal hclean
  exact ⟨values, rfl, by rw [split_map_ok]⟩

lemma flatten_map_ok (lists : List (List Result)) : flatten (lists.map .ok) = lists.flatten := by
  induction lists with
  | nil => rfl
  | cons results rest ih => rw [List.map_cons, flatten, ih, List.flatten_cons]

/-- Operations that report no error came to their results in turn. -/
lemma runs_collectAll_iff {operations : List (Action Rows (List Result))} {results : List Result}
    (hclean : NoErrors results) :
    server.Runs allowed (answered rows (collectAll operations)).run store (.ok results) next ↔
      ∃ lists : List (List Result),
        server.Runs allowed (runAll rows operations) store (lists.map .ok) next ∧
          results = lists.flatten := by
  rw [Server.runs_iff_of_reaches_iff fun _ => collectAll_reaches_iff]
  constructor
  · rintro ⟨outcomes, hrun, houtcome⟩
    cases hkept : (classify outcomes).1 with
    | error failure =>
      rw [hkept] at houtcome
      cases houtcome
    | ok kept =>
      rw [hkept] at houtcome
      cases houtcome
      obtain ⟨lists, rfl, rfl⟩ :=
        exists_of_classify hkept fun result hmem => hclean result (mem_flatten_of_error hmem)
      exact ⟨lists, hrun, flatten_map_ok lists⟩
  · rintro ⟨lists, hrun, rfl⟩
    refine ⟨_, hrun, ?_⟩
    rw [classify_map_ok, ← flatten_map_ok]
    rfl

/-- Values that report no error came to something in turn. -/
lemma FieldValues.runs_resolve_iff {values : FieldValues Rows} {row : RowValues Rows}
    (hclean : NoErrors row.results) :
    server.Runs allowed (answered rows values.resolve).run store (.ok row) next ↔
      ∃ resolved : List (Resolved Rows),
        server.Runs allowed (runAll rows values.deferred) store (resolved.map .ok) next ∧
          row = values.rowOf (resolved.map .ok) := by
  rw [Server.runs_iff_of_reaches_iff fun _ => resolve_reaches_iff]
  constructor
  · rintro ⟨outcomes, hrun, houtcome⟩
    cases hkept : (classify outcomes).1 with
    | error failure =>
      rw [hkept] at houtcome
      cases houtcome
    | ok kept =>
      rw [hkept] at houtcome
      cases houtcome
      have hnone : ∀ result, .error result ∈ kept → result.isError = false := fun result hmem =>
        hclean result (List.mem_flatMap.mpr ⟨_, hmem, List.mem_singleton_self _⟩)
      obtain ⟨resolved, rfl, rfl⟩ := exists_of_classify hkept hnone
      exact ⟨resolved, hrun, rfl⟩
  · rintro ⟨resolved, hrun, rfl⟩
    refine ⟨_, hrun, ?_⟩
    rw [classify_map_ok]
    rfl

section Under

variable {path : Path}

lemma runs_underPath_iff {operation : Action Rows (List Result)} {results : List Result}
    (hclean : NoErrors results) :
    server.Runs allowed (answered rows (underPath path operation)).run store (.ok results) next ↔
      ∃ own, server.Runs allowed (answered rows operation).run store (.ok own) next ∧
        results = allUnder path own := by
  rw [Server.runs_iff_of_reaches_iff fun _ => underPath_reaches_iff]
  constructor
  · rintro ⟨own | own, hrun, houtcome⟩
    · rw [outcomeUnder, Failure.rescued] at houtcome
      cases hresult : own.result? with
      | none =>
        rw [hresult] at houtcome
        cases houtcome
      | some result =>
        rw [hresult] at houtcome
        cases houtcome
        have hown : NoErrors (allUnder path [result]) := hclean
        exact absurd (noErrors_allUnder.mp hown) (not_noErrors_of_result? hresult)
    · exact ⟨own, hrun, Except.ok.inj houtcome⟩
  · rintro ⟨own, hrun, rfl⟩
    exact ⟨_, hrun, rfl⟩

lemma runs_resolvingUnder_iff {resolve : Action Rows (Resolved Rows)} {resolved : Resolved Rows}
    (hclean : NoErrors resolved.results) :
    server.Runs allowed (answered rows (resolvingUnder path resolve)).run store (.ok resolved)
      next ↔ ∃ own, server.Runs allowed (answered rows resolve).run store (.ok own) next ∧
        resolved = own.under path := by
  rw [Server.runs_iff_of_reaches_iff fun _ => resolvingUnder_reaches_iff]
  constructor
  · rintro ⟨own | own, hrun, houtcome⟩
    · rw [resolvedUnder, Failure.rescued] at houtcome
      cases hresult : own.result? with
      | none =>
        rw [hresult] at houtcome
        cases houtcome
      | some result =>
        rw [hresult] at houtcome
        cases houtcome
        have hown : NoErrors (allUnder path [result]) := hclean
        exact absurd (noErrors_allUnder.mp hown) (not_noErrors_of_result? hresult)
    · exact ⟨own, hrun, Except.ok.inj houtcome⟩
  · rintro ⟨own, hrun, rfl⟩
    exact ⟨_, hrun, rfl⟩

end Under

/-! ### The row itself -/

/-- The columns of a row with the values that are set. -/
lemma exists_settings {entity : Entity} {values : Table Value}
    {columns : List (Sql.ColumnRef × Sql.Expr)} (h : columnValues entity values = .ok columns) :
    ∃ settings : List (String × Value),
      columns = settings.map (fun pair => (Sql.column pair.1, .param pair.2)) ∧
        ∀ column value, (column, value) ∈ settings ↔
          ∃ field, (field, value) ∈ values ∧ entity.columnName field = .ok column := by
  induction values generalizing columns with
  | nil =>
    cases h
    exact ⟨[], rfl, by simp⟩
  | cons pair rest ih =>
    obtain ⟨field, given⟩ := pair
    obtain ⟨name, hname, h⟩ := Except.bind_eq_ok.mp h
    obtain ⟨others, hothers, h⟩ := Except.bind_eq_ok.mp h
    cases h
    obtain ⟨settings, rfl, hsettings⟩ := ih hothers
    refine ⟨(name, given) :: settings, rfl, fun column value => ?_⟩
    rw [List.mem_cons, hsettings]
    constructor
    · rintro (heq | ⟨other, hmem, hcolumn⟩)
      · cases heq
        exact ⟨field, List.mem_cons_self, hname⟩
      · exact ⟨other, List.mem_cons_of_mem _ hmem, hcolumn⟩
    · rintro ⟨other, hmem, hcolumn⟩
      obtain heq | hmem := List.mem_cons.mp hmem
      · cases heq
        rw [Except.ok.inj (hcolumn.symm.trans hname)]
        exact .inl rfl
      · exact .inr ⟨other, hmem, hcolumn⟩

/-- What the statement of a row comes to on a server. With nothing to set it is not sent. -/
inductive OwnWrite (server : Server) (allowed : Effect.Request → Prop) (statement : Sql.Update)
    (store : Store) : Option Nat → Store → Prop
  | nothing (hvalues : statement.values = []) : OwnWrite server allowed statement store none store
  | sent {count : Nat} {next : Store} (hvalues : statement.values ≠ [])
      (hallowed : allowed (.execute (.update statement)))
      (hanswer : server.answer (.execute (.update statement)) store = some (.ok count, next)) :
      OwnWrite server allowed statement store (some count) next

namespace Session

variable {session : Session} {entity : Entity} {primary value : Value}
  {values : FieldValues Rows} {tree : Sql.ConditionTree} {data : Data} {results : List Result}

lemma runs_liftExcept_iff {outcome : Except Failure α} {a : α} :
    server.Runs allowed (liftExcept outcome : Action Effect α).run store (.ok a) next ↔
      outcome = .ok a ∧ next = store :=
  Server.runs_done_iff.trans (and_congr_left' eq_comm)

/-- The statement of a row, after what it sets was resolved. -/
lemma runs_writing_iff {row : RowValues Rows} {statement : Sql.Update} {updated : Updated} :
    server.Runs allowed (session.writing rows (row, statement)).run store (.ok updated) next ↔
      ∃ count written more, OwnWrite server allowed statement store count written ∧
        server.Runs allowed (answered rows (collectAll row.after)).run written (.ok more) next ∧
        updated = ⟨count, row.values, row.results ++ more⟩ := by
  have hfinish {count : Option Nat} {written : Store} :
      server.Runs allowed (do
        let results ← answered rows row.finish
        return ⟨count, row.values, results⟩ : Action Effect Updated).run written (.ok updated)
          next ↔ ∃ more, server.Runs allowed (answered rows (collectAll row.after)).run written
            (.ok more) next ∧ updated = ⟨count, row.values, row.results ++ more⟩ := by
    rw [RowValues.finish, answered_bind, bind_assoc, Server.runs_run_bind_ok_iff]
    constructor
    · rintro ⟨more, middle, hmore, hdone⟩
      obtain ⟨heq, rfl⟩ := Server.runs_done_iff.mp hdone
      exact ⟨more, hmore, Except.ok.inj heq⟩
    · rintro ⟨more, hmore, rfl⟩
      exact ⟨more, next, hmore, Server.runs_done_iff.mpr ⟨rfl, rfl⟩⟩
  rw [writing]
  dsimp only
  by_cases hvalues : statement.values = []
  · rw [if_pos (List.isEmpty_iff.mpr hvalues), Server.runs_run_bind_ok_iff]
    constructor
    · rintro ⟨count, middle, hdone, hrest⟩
      obtain ⟨heq, rfl⟩ := Server.runs_done_iff.mp hdone
      cases heq
      obtain ⟨more, hmore, rfl⟩ := hfinish.mp hrest
      exact ⟨none, _, more, .nothing hvalues, hmore, rfl⟩
    · rintro ⟨count, written, more, hwrites, hmore, rfl⟩
      cases hwrites with
      | nothing => exact ⟨none, store, Server.runs_done_iff.mpr ⟨rfl, rfl⟩,
          hfinish.mpr ⟨more, hmore, rfl⟩⟩
      | sent hset => exact absurd hvalues hset
  · rw [if_neg (mt List.isEmpty_iff.mp hvalues), Server.runs_run_bind_ok_iff]
    constructor
    · rintro ⟨count, middle, hsent, hrest⟩
      rw [map_eq_pure_bind, Server.runs_run_bind_ok_iff] at hsent
      obtain ⟨n, last, hexecute, hdone⟩ := hsent
      obtain ⟨heq, rfl⟩ := Server.runs_done_iff.mp hdone
      cases heq
      obtain ⟨hallowed, reply, hanswer, houtcome⟩ := runs_execute_iff.mp hexecute
      cases reply with
      | error e => cases houtcome
      | ok own =>
        cases houtcome
        obtain ⟨more, hmore, rfl⟩ := hfinish.mp hrest
        exact ⟨_, _, more, .sent hvalues hallowed hanswer, hmore, rfl⟩
    · rintro ⟨count, written, more, hwrites, hmore, rfl⟩
      cases hwrites with
      | nothing hnone => exact absurd hnone hvalues
      | @sent n _ _ hallowed hanswer =>
        refine ⟨some n, written, ?_, hfinish.mpr ⟨more, hmore, rfl⟩⟩
        rw [map_eq_pure_bind, Server.runs_run_bind_ok_iff]
        exact ⟨n, written, runs_execute_iff.mpr ⟨hallowed, _, hanswer, rfl⟩,
          Server.runs_done_iff.mpr ⟨rfl, rfl⟩⟩

/-- The values of a row are resolved, and then its statement is sent. -/
lemma runs_updateValues_iff {updated : Updated} :
    server.Runs allowed (session.updateValues rows entity values tree).run store (.ok updated)
      next ↔ ∃ row columns middle count written more,
        server.Runs allowed (answered rows values.resolve).run store (.ok row) middle ∧
        columnValues entity row.values = .ok columns ∧
        OwnWrite server allowed ⟨Sql.table entity.tableName, columns, some tree, []⟩ middle count
          written ∧
        server.Runs allowed (answered rows (collectAll row.after)).run written (.ok more) next ∧
        updated = ⟨count, row.values, row.results ++ more⟩ := by
  rw [updateValues_eq, Server.runs_run_bind_ok_iff]
  constructor
  · rintro ⟨⟨row, statement⟩, middle, hupdating, hwriting⟩
    obtain ⟨own, resolved, hresolve, hrest⟩ := Server.runs_run_bind_ok_iff.mp hupdating
    obtain ⟨columns, _, hnaming, hdone⟩ := Server.runs_run_bind_ok_iff.mp hrest
    obtain ⟨hcolumns, rfl⟩ := runs_liftExcept_iff.mp hnaming
    obtain ⟨heq, rfl⟩ := Server.runs_done_iff.mp hdone
    cases heq
    obtain ⟨count, written, more, hwrites, hmore, rfl⟩ := runs_writing_iff.mp hwriting
    exact ⟨row, columns, _, count, written, more, hresolve, Except.eq_ok_of_mapError hcolumns,
      hwrites, hmore, rfl⟩
  · rintro ⟨row, columns, middle, count, written, more, hresolve, hcolumns, hwrites, hmore, rfl⟩
    refine ⟨(row, _), middle, Server.runs_run_bind_ok_iff.mpr ⟨row, middle, hresolve, ?_⟩,
      runs_writing_iff.mpr ⟨count, written, more, hwrites, hmore, rfl⟩⟩
    refine Server.runs_run_bind_ok_iff.mpr ⟨columns, middle, ?_,
      Server.runs_done_iff.mpr ⟨rfl, rfl⟩⟩
    rw [hcolumns]
    exact runs_liftExcept_iff.mpr ⟨rfl, rfl⟩

/-- An update whose statement touched a row, or was not needed, reports the row. -/
lemma updateResults_of_touched (entity : Entity) (primary : Value) {updated : Updated}
    (h : updated.rows ≠ some 0) : updateResults entity primary updated =
      .atRoot (.updated entity.name primary updated.values) :: updated.results := by
  unfold updateResults
  split
  · exact absurd ‹_› h
  · rfl

/-- An update of a row that was found, with no error: the statement touches a row, if there is
anything to set. -/
lemma runs_updateFound_iff (hclean : NoErrors results) :
    server.Runs allowed (session.updateFound rows entity primary data).run store (.ok results)
      next ↔ ∃ values operations tree updated middle others,
        planUpdate session.schema entity primary data.fields = .ok (values, operations) ∧
        allowed (.predicate entity .update values.names) ∧
        (byPrimary entity primary).toFilter.toTree session.schema entity = .ok tree ∧
        server.Runs allowed (session.updateValues rows entity values tree).run store (.ok updated)
          middle ∧
        updated.rows ≠ some 0 ∧
        server.Runs allowed (answered rows (collectAll operations)).run middle (.ok others) next ∧
        results = .atRoot (.updated entity.name primary updated.values) ::
          (updated.results ++ others) := by
  rw [updateFound_eq, Server.runs_run_bind_ok_iff]
  constructor
  · rintro ⟨⟨values, operations, tree⟩, planned, hplanned, hrest⟩
    obtain ⟨⟨values, operations⟩, _, hlifted, hasking⟩ := Server.runs_run_bind_ok_iff.mp hplanned
    obtain ⟨hplan, rfl⟩ := runs_liftExcept_iff.mp hlifted
    obtain ⟨tree, _, hpermitted, hdone⟩ := Server.runs_run_bind_ok_iff.mp hasking
    obtain ⟨hallowed, rfl, htree⟩ := runs_permitted_iff.mp hpermitted
    obtain ⟨heq, rfl⟩ := Server.runs_done_iff.mp hdone
    cases heq
    obtain ⟨own, middle, hown, hrest⟩ := Server.runs_run_bind_ok_iff.mp hrest
    obtain ⟨related, last, hrelated, hdone⟩ := Server.runs_run_bind_ok_iff.mp hrest
    obtain ⟨hreported, rfl⟩ := runs_liftExcept_iff.mp hdone
    obtain ⟨first, hfirst, hreported⟩ := Except.bind_eq_ok.mp hreported
    obtain ⟨others, rfl, hreported⟩ := Except.bind_eq_ok.mp hreported
    cases hreported
    have hfirstClean := (noErrors_append.mp hclean).1
    cases own with
    | error failure =>
      obtain ⟨head, hhead, rfl⟩ := classified_eq_ok hfirst
      exact absurd hfirstClean (not_noErrors_of_result? hhead)
    | ok updated =>
      have hrows : updated.rows ≠ some 0 := by
        intro hzero
        cases hfirst
        rw [updateResults, hzero] at hfirstClean
        cases (noErrors_cons.mp hfirstClean).1
      cases hfirst
      exact ⟨values, operations, tree, updated, middle, others, hplan, hallowed,
        Except.eq_ok_of_mapError htree.symm, runs_attempt_iff.mp hown, hrows,
        runs_attempt_iff.mp hrelated, by rw [updateResults_of_touched entity primary hrows]; rfl⟩
  · rintro ⟨values, operations, tree, updated, middle, others, hplan, hallowed, htree, hown, hrows,
      hrelated, rfl⟩
    refine ⟨(values, operations, tree), store, ?_, ?_⟩
    · refine Server.runs_run_bind_ok_iff.mpr ⟨(values, operations), store, ?_, ?_⟩
      · rw [hplan]
        exact runs_liftExcept_iff.mpr ⟨rfl, rfl⟩
      · refine Server.runs_run_bind_ok_iff.mpr ⟨tree, store, runs_permitted_iff.mpr
          ⟨hallowed, rfl, by rw [htree]; rfl⟩, Server.runs_done_iff.mpr ⟨rfl, rfl⟩⟩
    · refine Server.runs_run_bind_ok_iff.mpr ⟨.ok updated, middle, runs_attempt_iff.mpr hown, ?_⟩
      refine Server.runs_run_bind_ok_iff.mpr ⟨.ok others, next, runs_attempt_iff.mpr hrelated, ?_⟩
      refine runs_liftExcept_iff.mpr ⟨?_, rfl⟩
      rw [reported, settledOutcome, updateResults_of_touched entity primary hrows]
      rfl

/-- A look-up among the operations on rows is one of the session. -/
lemma answered_primaryValue (session : Session) (depth : Nat) (entity : Entity)
    (which : UniqueWhere) : (answered (session.rows (depth + 1))
      (Rows.primaryValue entity which)).run =
        (session.selectField entity which entity.primary).run := answered_ask _ _

/-- So is an update, one level deeper. -/
lemma answered_update (session : Session) (depth : Nat) (entity : Entity) (which : UniqueWhere)
    (data : Data) : (answered (session.rows (depth + 1)) (Rows.update entity which data)).run =
      (session.updateRow (session.rows depth) entity which data).run := answered_ask _ _

/-- A key that leads to a row is looked up. -/
lemma runs_primaryValue_of_leadsTo {depth : Nat} {key : Value}
    (hprimary : entity.columnName entity.primary = .ok entity.primaryColumn)
    (h : store.LeadsTo entity.tableName entity.primaryColumn entity.primaryColumn value key) :
    server.Runs EffectRequest.SparesRows (answered (session.rows (depth + 1))
      (Rows.primaryValue entity (byPrimary entity value))).run store (.ok (some key)) store := by
  rw [answered_primaryValue, ← h.found_eq server]
  exact runs_ownKey hprimary h.holds value

section Rows

variable (hprimary : entity.columnName entity.primary = .ok entity.primaryColumn)
  (hholds : store.HasColumn entity.tableName entity.primaryColumn)
  (hallowed : ∀ request, EffectRequest.SparesRows request → allowed request)
include hprimary hholds hallowed

/-- An operation on rows that asks for the key of a row comes to what is found. -/
lemma runs_primaryValue_iff {depth : Nat} {outcome : Except Failure (Option Value)} :
    server.Runs allowed (answered (session.rows (depth + 1))
        (Rows.primaryValue entity (byPrimary entity value))).run store outcome next ↔
      outcome = .ok (server.found store entity.tableName entity.primaryColumn value
        entity.primaryColumn) ∧ next = store := by
  rw [answered_primaryValue]
  exact (runs_ownKey hprimary hholds value).iff hallowed

/-- An update that reports no error is the update of the row that is found, if there is any data. -/
lemma runs_updateRow_iff (hclean : NoErrors results) :
    server.Runs allowed (session.updateRow rows entity (byPrimary entity value) data).run store
      (.ok results) next ↔ ∃ key, server.found store entity.tableName entity.primaryColumn value
        entity.primaryColumn = some key ∧
      server.Runs allowed (if data.isEmpty then pure [.atRoot (.idle .noData)]
        else session.updateFound rows entity key data : Action Effect (List Result)).run store
          (.ok results) next := by
  rw [session.updateRow_eq rows entity (expand_byPrimary entity value),
    Server.runs_run_bind_ok_iff]
  constructor
  · rintro ⟨found, middle, hfound, hrest⟩
    obtain ⟨heq, rfl⟩ := ((runs_ownKey hprimary hholds value).iff hallowed).mp hfound
    cases found with
    | none =>
      obtain ⟨hmissing, -⟩ := Server.runs_done_iff.mp hrest
      cases hmissing
      cases (noErrors_cons.mp hclean).1
    | some key => exact ⟨key, (Except.ok.inj heq).symm, hrest⟩
  · rintro ⟨key, hfound, hrest⟩
    exact ⟨some key, store, ((runs_ownKey hprimary hholds value).iff hallowed).mpr
      ⟨by rw [hfound], rfl⟩, hrest⟩

end Rows

end Session

end EntityGraph.Mutation
