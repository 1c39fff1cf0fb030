import EntityGraph.Proofs.Mutation.Retention
/-!
# Claims are not written over

In a one-to-one relation a target belongs to one row at most. A row that is connected to a target
which another row claims takes it over: that row is disconnected first. Here the statement of the
row itself is shown to set the joining column only once the claim was given up, unless the update
that was to disconnect the other row reports an error: its results are handed on, but not looked at.
-/
namespace EntityGraph.Mutation

variable {α : Type} {rows : RowAnswers} {trace : List (Program.Exchange Effect)}

/-! ### Taking over -/

/-- The row that claims a target. -/
def claimOn (sides : RelationSides) (target : Value) : UniqueWhere :=
  UniqueWhere.empty.withRelation sides.relation.name (byPrimary sides.target target)

/-- The call that is to disconnect the row which claims a target, with the results of it. -/
def disconnectCall (sides : RelationSides) (owner : Value) (results : List Result) :
    Program.Exchange Rows :=
  ⟨RowRequest.update sides.entity (byPrimary sides.entity owner)
    (disconnecting sides.relation.name), Except.ok results⟩

/-- The calls of a connect on a one-to-one relation that comes to its target: no row claims the
target, or a row other than the own one does and is to be disconnected. -/
inductive TakesOver (sides : RelationSides) (which : UniqueWhere) (own : Option Value)
    (target : Value) : List (Program.Exchange Rows) → Prop
  | free : TakesOver sides which own target
      [⟨RowRequest.primaryValue sides.target which, Except.ok (some target)⟩,
        ⟨RowRequest.primaryValue sides.entity (claimOn sides target), Except.ok none⟩]
  | claimed {owner : Value} {results : List Result} (hother : isRow own owner = false) :
      TakesOver sides which own target
        [⟨RowRequest.primaryValue sides.target which, Except.ok (some target)⟩,
          ⟨RowRequest.primaryValue sides.entity (claimOn sides target), Except.ok (some owner)⟩,
          disconnectCall sides owner results]

section Connects

variable {sides : RelationSides} {which : UniqueWhere} {own : Option Value} {target : Value}
  {calls : List (Program.Exchange Rows)}

/-- A connect that comes to a target looked for a claim on it, and had it given up. -/
lemma takesOver_of_claimTarget {resolved : Resolved Rows} (hkind : sides.kind = .oneHasOneOwning)
    (hvalue : resolved.value = some target)
    (hrun : (claimTarget sides which own).run.Reaches calls (.done (.ok resolved))) :
    TakesOver sides which own target calls := by
  obtain ⟨_, -, hcontra⟩ | ⟨_ | found, later, rfl, hlater⟩ :=
    (makesCall_primaryValue _ _).of_bind hrun
  · cases hcontra
  · obtain ⟨-, hdone⟩ := Program.done_reaches_iff.mp hlater
    cases hdone
    cases hvalue
  dsimp only at hlater
  rw [if_neg (not_not.mpr hkind)] at hlater
  obtain ⟨_, -, hcontra⟩ | ⟨_ | owner, last, rfl, hlast⟩ :=
    (makesCall_primaryValue _ _).of_bind hlater
  · cases hcontra
  · obtain ⟨rfl, hdone⟩ := Program.done_reaches_iff.mp hlast
    cases hdone
    cases hvalue
    exact .free
  dsimp only at hlast
  cases hown : isRow own owner with
  | true =>
    rw [hown, if_pos rfl] at hlast
    obtain ⟨-, hdone⟩ := Program.done_reaches_iff.mp hlast
    cases hdone
    cases hvalue
  | false =>
    rw [hown, if_neg Bool.false_ne_true] at hlast
    obtain ⟨_, -, hcontra⟩ | ⟨results, ending, rfl, hending⟩ :=
      (makesCall_update _ _ _).of_bind hlast
    · cases hcontra
    · obtain ⟨rfl, hdone⟩ := Program.done_reaches_iff.mp hending
      cases hdone
      cases hvalue
      exact .claimed hown

/-- Where a row has the target, the connect on the field had its turn and took the target over. -/
lemma exists_takesOver {values : FieldValues Rows} {row : RowValues Rows} {field : String}
    (hkind : sides.kind = .oneHasOneOwning)
    (hentries : ∀ value, (field, value) ∈ values →
      value = .deferred (resolvingUnder sides.path (claimTarget sides which own)))
    (hresolve : (answered rows values.resolve).run.Reaches trace (.done (.ok row)))
    (hset : (field, target) ∈ row.values) :
    ∃ calls outcome, TakesOver sides which own target calls ∧ Turn rows values.deferred
      (resolvingUnder sides.path (claimTarget sides which own)) trace calls outcome := by
  obtain ⟨outcomes, hrun, hfatal, rfl⟩ := FieldValues.resolve_reaches_ok hresolve
  obtain hvalue | ⟨resolve, calls, resolved, hentry, hvalue, hturn⟩ :=
    FieldValues.exists_turn_of_slot hrun hfatal (FieldValues.mem_of_mem_present hset)
  · cases hentries _ hvalue
  cases hentries _ hentry
  obtain ⟨outcome, houtcome, hunder⟩ := Program.map_reaches_done_iff.mp hturn.reaches
  refine ⟨calls, .ok resolved, ?_, hturn⟩
  cases outcome with
  | ok inner =>
    obtain rfl := Except.ok.inj hunder
    have hinner : inner.value = some target := hvalue
    exact takesOver_of_claimTarget hkind hinner houtcome
  | error failure =>
    rw [resolvedUnder, Failure.rescued] at hunder
    cases hresult : failure.result? with
    | none =>
      rw [hresult] at hunder
      cases hunder
    | some result =>
      rw [hresult] at hunder
      cases hunder
      cases hvalue

end Connects

/-! ### Giving up a claim -/

namespace Session

variable {session : Session}

/-- Along the trace the row under a key was looked up, and then its joining column was set to null
by a statement that affected a row. -/
def GivesUp (session : Session) (sides : RelationSides) (owner : Value)
    (trace : List (Program.Exchange Effect)) : Prop :=
  ∃ front looking key predicate tree column count back,
    (session.selectField sides.entity (byPrimary sides.entity owner)
      sides.entity.primary).run.Reaches looking (.done (.ok (some key))) ∧
    ((byPrimary sides.entity key).toFilter.andWith predicate).toTree session.schema sides.entity =
      .ok tree ∧
    sides.entity.columnName sides.relation.name = .ok column ∧ count ≠ 0 ∧
    trace = front ++ looking ++
      ⟨.predicate sides.entity .update [sides.relation.name], predicate⟩ ::
      ⟨.execute (.update ⟨Sql.table sides.entity.tableName, [(Sql.column column, .param .null)],
        some tree, []⟩), .ok count⟩ :: back

lemma GivesUp.of_stretch {sides : RelationSides} {owner : Value}
    {front own back : List (Program.Exchange Effect)} (h : session.GivesUp sides owner own) :
    session.GivesUp sides owner (front ++ own ++ back) := by
  obtain ⟨before, looking, key, predicate, tree, column, count, after, hfound, htree, hcolumn,
    hcount, rfl⟩ := h
  exact ⟨front ++ before, looking, key, predicate, tree, column, count, after ++ back, hfound,
    htree, hcolumn, hcount, by simp⟩

section Disconnects

variable {sides : RelationSides} {owner key : Value} {results : List Result}

/-- A failure that is reported is reported as an error. -/
lemma isError_of_result? {failure : Failure} {result : Result} (h : failure.result? = some result) :
    result.isError = true := by
  obtain ⟨outcome, houtcome, rfl⟩ := Option.map_eq_some_iff.mp h
  cases failure with
  | database e =>
    rw [Failure.outcome?_database] at houtcome
    obtain ⟨kind, -, rfl⟩ := Option.map_eq_some_iff.mp houtcome
    rfl
  | denied =>
    cases houtcome
    rfl
  | nonUniqueWhere e =>
    cases houtcome
    rfl
  | _ => cases houtcome

/-- What disconnecting a row asks for: its column is set to null where it may be, and refused where
it may not. -/
lemma stepOf_disconnect
    (hsides : RelationSides.ofField session.schema sides.entity sides.relation.name = .ok sides)
    (hkind : sides.kind = .oneHasOneOwning) (key : Value) :
    stepOf session.schema sides.entity key sides.relation.name .disconnect =
      .ok (if sides.relation.isNullable then .column (.value .null)
        else refuseNull sides.path) := by
  refine Except.bind_eq_ok.mpr ⟨sides, hsides, ?_⟩
  rw [RelatedRow.toOneStep]
  simp only [hkind]
  rfl

/-- The column of a relation that must not be null is never set to null. -/
lemma refused_of_collecting (hnull : sides.relation.isNullable = false)
    (hsides : RelationSides.ofField session.schema sides.entity sides.relation.name = .ok sides)
    (hkind : sides.kind = .oneHasOneOwning)
    (hrun : (answered rows (collectAll ((disconnecting sides.relation.name).fields.flatMap
      (updateOperations session.schema sides.entity key)))).run.Reaches trace
        (.done (.ok results))) :
    ∃ result ∈ results, result.isError = true := by
  have hoperations : (disconnecting sides.relation.name).fields.flatMap
      (updateOperations session.schema sides.entity key) =
        [underPath sides.path (pure [.atRoot (.violation .notNull)])] := by
    have hstep := stepOf_disconnect hsides hkind key
    rw [hnull, if_neg Bool.false_ne_true] at hstep
    simp only [disconnecting, Data.empty, Data.withOne, Data.set, Table.put, List.flatMap_singleton,
      updateOperations, hstep]
    rfl
  rw [hoperations] at hrun
  obtain ⟨outcomes, hall, houtcome⟩ := collectAll_reaches_iff.mp hrun
  obtain ⟨outcome, hrefused, rfl⟩ := runAll_singleton_reaches_iff.mp hall
  obtain ⟨-, hdone⟩ := Program.done_reaches_iff.mp hrefused
  cases hdone
  cases houtcome
  exact ⟨_, List.mem_singleton_self _, rfl⟩

/-- A column that may be null is set to null by a statement of its own. -/
lemma nulled_of_updateValues {tree : Sql.ConditionTree} {outcome : Except Failure Updated}
    (hrun : (session.updateValues rows sides.entity [(sides.relation.name, .value .null)]
      tree).run.Reaches trace (.done outcome))
    (hreported : ∀ failure, outcome = .error failure → failure.outcome? ≠ none) :
    ∃ column reply, sides.entity.columnName sides.relation.name = .ok column ∧
      trace = [⟨.execute (.update ⟨Sql.table sides.entity.tableName,
        [(Sql.column column, .param .null)], some tree, []⟩), reply⟩] ∧
      ∀ updated, outcome = .ok updated → ∃ count, reply = .ok count ∧
        updated.rows = some count := by
  rw [updateValues_eq] at hrun
  obtain ⟨failure, hfailed, rfl⟩ | ⟨before, ⟨row, statement⟩, rest, hupdating, hwriting, rfl⟩ :=
    Program.run_bind_reaches_done_iff.mp hrun
  · exact absurd (fatal_of_preparing hfailed) (hreported failure rfl)
  obtain ⟨hresolve, columns, hcolumns, rfl⟩ := preparing_reaches_ok hupdating
  obtain ⟨outcomes, hall, -, rfl⟩ := FieldValues.resolve_reaches_ok hresolve
  obtain ⟨rfl, hdone⟩ := Program.done_reaches_iff.mp hall
  cases hdone
  obtain ⟨column, hcolumn, hrest⟩ := Except.bind_eq_ok.mp hcolumns
  cases hrest
  have hset : [(Sql.column column, Sql.Expr.param .null)] ≠ [] := List.cons_ne_nil _ _
  obtain ⟨reply, finishing, rfl, hends⟩ := writing_reaches_of_set hset hwriting
  obtain hnil | ⟨_, _, hafter, -, heq⟩ := begins_of_writing hset hwriting.begins
  · cases hnil
  cases heq
  refine ⟨column, reply, hcolumn, ?_, ?_⟩
  · rw [runAll_nil_begins_iff.mp hafter]
    rfl
  · rintro updated rfl
    exact hends.2

/-- An update that reports no error found its row. -/
lemma exists_planning_of_updateRow {entity : Entity} {which : UniqueWhere} {data : Data}
    (hfields : data.fields ≠ [])
    (hrun : (session.updateRow rows entity which data).run.Reaches trace (.done (.ok results)))
    (hclean : ∀ result ∈ results, result.isError = false) :
    ∃ looking key planned values operations tree rest,
      (session.selectField entity which entity.primary).run.Reaches looking
        (.done (.ok (some key))) ∧
      (session.planning entity key data).run.Reaches planned
        (.done (.ok (values, operations, tree))) ∧
      trace = looking ++ (planned ++ rest) := by
  cases hfilter : which.expand entity with
  | error e =>
    rw [updateRow, hfilter] at hrun
    obtain ⟨-, hdone⟩ := Program.done_reaches_iff.mp hrun
    obtain ⟨result, hresult, rfl⟩ := classified_eq_ok (Program.done.inj hdone).symm
    cases (isError_of_result? hresult).symm.trans (hclean result List.mem_cons_self)
  | ok filter =>
    rw [session.updateRow_eq rows entity hfilter] at hrun
    obtain ⟨looking, _ | key, rest, hfound, hrest, rfl⟩ := hrun.of_run_bind_ok
    · obtain ⟨-, hdone⟩ := Program.done_reaches_iff.mp hrest
      cases hdone
      cases hclean _ List.mem_cons_self
    have hsome : data.isEmpty = false := List.isEmpty_eq_false_iff.mpr hfields
    dsimp only at hrest
    rw [hsome, if_neg Bool.false_ne_true, updateFound_eq] at hrest
    obtain ⟨planned, ⟨values, operations, tree⟩, after, hplanned, -, rfl⟩ := hrest.of_run_bind_ok
    exact ⟨looking, key, planned, values, operations, tree, after, hfound, hplanned, rfl⟩

/-- A disconnecting update that reports no error gave the claim up. -/
lemma givesUp_of_rows {depth : Nat}
    (hsides : RelationSides.ofField session.schema sides.entity sides.relation.name = .ok sides)
    (hkind : sides.kind = .oneHasOneOwning)
    (hrun : (session.rows depth (.update sides.entity (byPrimary sides.entity owner)
      (disconnecting sides.relation.name))).Reaches trace (.done (.ok results)))
    (hclean : ∀ result ∈ results, result.isError = false) :
    session.GivesUp sides owner trace := by
  have hnone {result : Result} (hmem : result ∈ results) (herror : result.isError = true) :
      False := by
    rw [hclean result hmem] at herror
    cases herror
  obtain _ | depth := depth
  · obtain ⟨reply, -⟩ := Program.ask_reaches_done_iff.mp hrun
    exact reply.elim
  have hfields : (disconnecting sides.relation.name).fields ≠ [] := List.cons_ne_nil _ _
  obtain ⟨looking, key, planned, values, operations, tree, rest, hfound, hplanned, rfl⟩ :=
    exists_planning_of_updateRow hfields hrun hclean
  obtain ⟨writing, own, beside, related, hown, hbeside, rfl, hrelated, hreports⟩ :=
    exists_own_of_updateRow hfound hplanned hfields hrun
  obtain ⟨hvalues, hoperations⟩ := planning_reaches_ok hplanned
  have hstep := stepOf_disconnect hsides hkind key
  cases hnull : sides.relation.isNullable with
  | false =>
    rw [hoperations] at hbeside
    obtain ⟨result, hmem, herror⟩ := refused_of_collecting hnull hsides hkind hbeside
    exact (hnone (hrelated hmem) herror).elim
  | true =>
    rw [hnull, if_pos rfl] at hstep
    simp only [disconnecting, Data.empty, Data.withOne, Data.set, Table.put,
      List.flatMap_singleton, updateEntries, updateOperations, hstep] at hvalues hoperations
    subst hvalues hoperations
    obtain rfl := runAll_nil_begins_iff.mp (begins_of_collectAll hbeside.begins)
    obtain ⟨predicate, rfl, htree⟩ := exists_predicate_of_planning hplanned
    have hreported : ∀ failure, own = .error failure → failure.outcome? ≠ none := by
      rintro failure rfl
      exact not_fatal hreports
    obtain ⟨column, reply, hcolumn, rfl, hcount⟩ := nulled_of_updateValues hown hreported
    cases own with
    | error failure =>
      obtain ⟨result, hmem, hresult⟩ := hreports
      exact (hnone hmem (isError_of_result? hresult)).elim
    | ok updated =>
      obtain ⟨count, rfl, hrows⟩ := hcount updated rfl
      refine ⟨[], looking, key, predicate, tree, column, count, [], hfound, htree, hcolumn, ?_, rfl⟩
      rintro rfl
      have hdenied : updateResults sides.entity key updated =
          .atRoot .denied :: updated.results := by
        simp only [updateResults, hrows]
      have hsubset : updateResults sides.entity key updated ⊆ results := hreports
      rw [hdenied] at hsubset
      exact hnone (hsubset List.mem_cons_self) rfl

end Disconnects

/-! ### Connects -/

section Connects

variable {entity : Entity} {data : Data} {field : String} {which : UniqueWhere}
  {sides : RelationSides}

/-- What is asked for a field comes from the one input on it. -/
lemma mem_of_mem_flatMap {input : FieldInput} {entriesOf : String × FieldInput → FieldValues Rows}
    (hdata : (Table.keys data.fields).Nodup) (hfield : (field, input) ∈ data.fields)
    (hentriesOf : ∀ entry, ∀ value ∈ entriesOf entry, value.1 = entry.1) {value : FieldValue Rows}
    (h : (field, value) ∈ data.fields.flatMap entriesOf) :
    (field, value) ∈ entriesOf (field, input) := by
  obtain ⟨⟨other, given⟩, hentry, hmem⟩ := List.mem_flatMap.mp h
  obtain rfl : field = other := hentriesOf _ _ hmem
  have hfirst := (Table.find?_eq_some_iff hdata).mpr hfield
  have hsecond := (Table.find?_eq_some_iff hdata).mpr hentry
  cases hfirst.symm.trans hsecond
  exact hmem

/-- What is resolved for a field of a new row comes from the one input on it. -/
lemma mem_createEntries_of_opening {input : FieldInput} {keyed : FieldValues Rows}
    {pending : List Pending} (hdata : (Table.keys data.fields).Nodup)
    (hfield : (field, input) ∈ data.fields)
    (hentries : createEntries session.schema entity (field, input) ≠ [])
    (h : (session.opening entity data).run.Reaches trace (.done (.ok (keyed, pending))))
    {value : FieldValue Rows} (hvalue : (field, value) ∈ keyed) :
    (field, value) ∈ createEntries session.schema entity (field, input) := by
  obtain ⟨-, rfl | ⟨key, hkey, rfl⟩⟩ := opening_reaches_ok h
  · exact mem_of_mem_flatMap hdata hfield (fun _ _ => fst_of_mem_createEntries) hvalue
  · obtain hmem | hmem := List.mem_append.mp hvalue
    · exact mem_of_mem_flatMap hdata hfield (fun _ _ => fst_of_mem_createEntries) hmem
    · -- the key is only added where no input is on it
      cases List.mem_singleton.mp hmem
      obtain ⟨⟨name, own⟩, hown⟩ := List.exists_mem_of_ne_nil _ hentries
      obtain rfl : name = entity.primary := fst_of_mem_createEntries hown
      exact absurd (List.mem_map_of_mem (List.mem_flatMap.mpr ⟨_, hfield, hown⟩)) hkey

/-- In its turn, the disconnection of a row that claims the target gives the claim up. -/
lemma givesUp_of_turn {depth : Nat} {actions : List (Action Rows α)} {action : Action Rows α}
    {calls : List (Program.Exchange Rows)} {outcome : Except Failure α} {owner : Value}
    {results : List Result} (hentity : entity.WellFormed)
    (hsides : RelationSides.ofField session.schema entity field = .ok sides)
    (hkind : sides.kind = .oneHasOneOwning)
    (hturn : Turn (session.rows depth) actions action trace calls outcome)
    (hcall : disconnectCall sides owner results ∈ calls)
    (hclean : ∀ result ∈ results, result.isError = false) : session.GivesUp sides owner trace := by
  obtain ⟨hsame, hrelation⟩ := RelationSides.relation_of_ofField hsides
  have hown :
      RelationSides.ofField session.schema sides.entity sides.relation.name = .ok sides := by
    rw [hsame, hentity.relation_name hrelation, hsides]
  obtain ⟨front, own, back, hrun, rfl⟩ := hturn.exists_stretch hcall
  exact (givesUp_of_rows hown hkind hrun hclean).of_stretch

variable (hdata : (Table.keys data.fields).Nodup)
  (hfield : (field, .one (.connect which)) ∈ data.fields)
  (hsides : RelationSides.ofField session.schema entity field = .ok sides)
  (hkind : sides.kind = .oneHasOneOwning)
include hdata hfield hsides hkind

lemma entry_of_opening {keyed : FieldValues Rows} {pending : List Pending}
    (h : (session.opening entity data).run.Reaches trace (.done (.ok (keyed, pending))))
    (value : FieldValue Rows) (hvalue : (field, value) ∈ keyed) :
    value = .deferred (resolvingUnder sides.path (claimTarget sides which none)) := by
  have hjoining : sides.kind.hasJoiningColumn = true := by rw [hkind]; rfl
  have hown : createEntries session.schema entity (field, .one (.connect which)) =
      [(field, .deferred (resolvingUnder sides.path (claimTarget sides which none)))] := by
    simp only [createEntries, hsides, hjoining, if_true, createColumn_connect which hkind]
  have hmem := mem_createEntries_of_opening hdata hfield (by rw [hown]; exact List.cons_ne_nil _ _)
    h hvalue
  rw [hown] at hmem
  cases List.mem_singleton.mp hmem
  rfl

lemma entry_of_planning {primary : Value} {values : FieldValues Rows}
    {operations : List (Action Rows (List Result))} {tree : Sql.ConditionTree}
    (h : (session.planning entity primary data).run.Reaches trace
      (.done (.ok (values, operations, tree))))
    (value : FieldValue Rows) (hvalue : (field, value) ∈ values) :
    value = .deferred (resolvingUnder sides.path (claimTarget sides which (some primary))) := by
  have hown : updateEntries session.schema entity primary (field, .one (.connect which)) =
      [(field, .deferred (resolvingUnder sides.path
        (claimTarget sides which (some primary))))] := by
    have hstep : stepOf session.schema entity primary field (.connect which) =
        .ok (.column (.deferred (resolvingUnder sides.path
          (claimTarget sides which (some primary))))) :=
      Except.bind_eq_ok.mpr ⟨sides, hsides, toOneStep_connect which primary hkind⟩
    simp only [updateEntries, hstep]
  rw [(planning_reaches_ok h).1] at hvalue
  have hmem := mem_of_mem_flatMap hdata hfield (fun _ _ => fst_of_mem_updateEntries) hvalue
  rw [hown] at hmem
  cases List.mem_singleton.mp hmem
  rfl

variable {target : Value} {row : RowValues Rows} {depth : Nat}

/-- A new row has the target of a connect once no other row claims it. -/
lemma claim_of_ownInsertion (hentity : entity.WellFormed) {statement : Sql.Insert}
    (h : (session.ownInsertion (session.rows depth) entity data).run.Reaches trace
      (.done (.ok (row, statement)))) (hset : (field, target) ∈ row.values) :
    ∃ calls, InsertCalls session (session.rows depth) entity data sides (.connect which) trace
        calls ∧ TakesOver sides which none target calls ∧
      ∀ owner results, disconnectCall sides owner results ∈ calls →
        (∀ result ∈ results, result.isError = false) → session.GivesUp sides owner trace := by
  rw [ownInsertion_eq] at h
  obtain ⟨opened, ⟨values, pending⟩, preparing, hopened, hprepared, rfl⟩ := h.of_run_bind_ok
  obtain ⟨calls, outcome, htakes, hturn⟩ := exists_takesOver hkind
    (entry_of_opening hdata hfield hsides hkind hopened) (preparing_reaches_ok hprepared).1 hset
  have hcolumn := createColumn_connect which hkind
  refine ⟨calls, .column hfield hsides hcolumn hopened hturn, htakes, ?_⟩
  intro owner results hcall hclean
  have hgiven := givesUp_of_turn hentity hsides hkind hturn hcall hclean
  rw [← List.append_nil (opened ++ preparing)]
  exact hgiven.of_stretch

/-- An existing row gets the target of a connect once no other row claims it. -/
lemma claim_of_ownUpdate (hentity : entity.WellFormed) {statement : Sql.Update} {own : UniqueWhere}
    {primary : Value} {looking : List (Program.Exchange Effect)}
    (hfound : (session.selectField entity own entity.primary).run.Reaches looking
      (.done (.ok (some primary))))
    (h : (session.ownUpdate (session.rows depth) entity primary data).run.Reaches trace
      (.done (.ok (row, statement)))) (hset : (field, target) ∈ row.values) :
    ∃ calls, UpdateCalls session (session.rows depth) entity own data sides (.connect which)
        (looking ++ trace) calls ∧ TakesOver sides which (some primary) target calls ∧
      ∀ owner results, disconnectCall sides owner results ∈ calls →
        (∀ result ∈ results, result.isError = false) → session.GivesUp sides owner trace := by
  obtain ⟨planned, ⟨values, operations, tree⟩, preparing, hplanned, hupdating, rfl⟩ :=
    h.of_run_bind_ok
  obtain ⟨calls, outcome, htakes, hturn⟩ := exists_takesOver hkind
    (entry_of_planning hdata hfield hsides hkind hplanned) (preparing_reaches_ok hupdating).1 hset
  have hstep := toOneStep_connect which primary hkind
  refine ⟨calls, .column hfield hsides hstep hfound hplanned hturn, htakes, ?_⟩
  intro owner results hcall hclean
  have hgiven := givesUp_of_turn hentity hsides hkind hturn hcall hclean
  rw [← List.append_nil (planned ++ preparing)]
  exact hgiven.of_stretch

end Connects

/-- The values of an existing row keep what was told for a connect while they were resolved. -/
lemma mem_of_ownUpdate {entity : Entity} {own which : UniqueWhere} {data : Data}
    {sides : RelationSides} {calls : List (Program.Exchange Rows)} {row : RowValues Rows}
    {primary : Value} {statement : Sql.Update} {looking : List (Program.Exchange Effect)}
    {result : Result} (hkind : sides.kind = .oneHasOneOwning)
    (hfound : (session.selectField entity own entity.primary).run.Reaches looking
      (.done (.ok (some primary))))
    (h : (session.ownUpdate rows entity primary data).run.Reaches trace
      (.done (.ok (row, statement))))
    (hcalls : UpdateCalls session rows entity own data sides (.connect which) (looking ++ trace)
      calls) (htells : Tells sides (.connect which) calls result) :
    result.under sides.path ∈ row.results := by
  generalize hwhole : looking ++ trace = whole at hcalls
  cases hcalls with
  | column hfield hsides hstep hlooked hplanned hturn =>
    obtain ⟨resolve, rfl, hjoins⟩ := owningStep_eq_deferred (toOneStep_eq_column hstep).2
    obtain ⟨rfl, hsame⟩ := hfound.prefix_free hlooked hwhole
    cases hsame
    rw [List.append_cancel_left hwhole] at h
    have hupdating := h.of_run_bind_prefix hplanned
    exact mem_of_deferred_turn hjoins hturn (preparing_reaches_ok hupdating).1
      (List.append_nil _) htells
  | deletion hinput => cases hinput
  | beside hfield hsides hjoining hstep =>
    cases (toOneStep_connect which _ hkind).symm.trans hstep

/-- A claim is not written over. Whatever the database answers: where a row is written with a target
under a one-to-one relation that the data connects, no other row claimed the target when it was
looked for; or another row did, and before the statement of the row itself the claim was given up by
an update that set the joining column to null, in the row that its key led to, and affected a row,
as long as the disconnection reported no error. -/
theorem claim_given_up_first (session : Session) {entity : Entity} (hentity : entity.WellFormed)
    {data : Data} (hdata : (Table.keys data.fields).Nodup) {field : String} {which : UniqueWhere}
    (hfield : (field, .one (.connect which)) ∈ data.fields) {sides : RelationSides}
    (hsides : RelationSides.ofField session.schema entity field = .ok sides)
    (hkind : sides.kind = .oneHasOneOwning) (depth : Nat) (trace : List (Program.Exchange Effect))
    {row : RowValues Rows} {target : Value} (hset : (field, target) ∈ row.values) :
    (∀ statement,
      (session.ownInsertion (session.rows depth) entity data).run.Reaches trace
        (.done (.ok (row, statement))) →
      ∃ calls, InsertCalls session (session.rows depth) entity data sides (.connect which) trace
          calls ∧ TakesOver sides which none target calls ∧
        ∀ owner results, disconnectCall sides owner results ∈ calls →
          (∀ result ∈ results, result.isError = false) → session.GivesUp sides owner trace) ∧
    ∀ own looking primary statement,
      (session.selectField entity own entity.primary).run.Reaches looking
        (.done (.ok (some primary))) →
      (session.ownUpdate (session.rows depth) entity primary data).run.Reaches trace
        (.done (.ok (row, statement))) →
      ∃ calls, UpdateCalls session (session.rows depth) entity own data sides (.connect which)
          (looking ++ trace) calls ∧ TakesOver sides which (some primary) target calls ∧
        ∀ owner results, disconnectCall sides owner results ∈ calls →
          (∀ result ∈ results, result.isError = false) → session.GivesUp sides owner trace :=
  ⟨fun _ hrun => claim_of_ownInsertion hdata hfield hsides hkind hentity hrun hset,
    fun _ _ _ _ hfound hrun =>
      claim_of_ownUpdate hdata hfield hsides hkind hentity hfound hrun hset⟩

/-- Whether a look-up found a key. -/
def findsKey : Program.Exchange Effect → Bool
  | ⟨.query _, .ok set⟩ => (set.valueAt? 0 0).any fun value => !value.isNull
  | _ => true

/-- Where every look-up finds a key, a claim is found. -/
lemma exists_owner_of_takesOver {sides : RelationSides} {which : UniqueWhere} {own : Option Value}
    {target : Value} {calls : List (Program.Exchange Rows)} {session : Session} {depth : Nat}
    (h : TakesOver sides which own target calls)
    (hstretch : ∀ call ∈ calls, ∃ front sent back,
      (session.rows depth call.request).Reaches sent (.done call.reply) ∧
        trace = front ++ sent ++ back)
    (hfinds : trace.all findsKey = true) :
    ∃ owner results, isRow own owner = false ∧ disconnectCall sides owner results ∈ calls ∧
      ⟨RowRequest.primaryValue sides.entity (claimOn sides target), Except.ok (some owner)⟩ ∈
        calls := by
  cases h with
  | @claimed owner results hother => exact ⟨owner, results, hother, by simp, by simp⟩
  | free =>
    obtain ⟨front, sent, back, hrun, rfl⟩ := hstretch
      ⟨RowRequest.primaryValue sides.entity (claimOn sides target), Except.ok none⟩ (by simp)
    obtain _ | depth := depth
    · obtain ⟨reply, -⟩ := Program.ask_reaches_done_iff.mp hrun
      exact reply.elim
    · obtain ⟨filter, -, hselect⟩ := liftExcept_bind_reaches_ok hrun
      obtain ⟨predicate, tree, column, set, -, -, rfl, hnone⟩ := selectColumn_reaches_ok hselect
      have hkey := List.all_eq_true.mp hfinds ⟨.query (.select
        { Filter.selection sides.entity.tableName column tree with limit := some 1 }), .ok set⟩
          (by simp)
      obtain ⟨value, hvalue, hsome⟩ := (Option.any_eq_true _ _).mp hkey
      rw [hnone.mp rfl value hvalue] at hsome
      cases hsome

def profileSteps (nullable : Bool) : List EntityStep := [.oneHasOne "author" "Author" { nullable }]

/-- Authors, and profiles that may or must have an author of their own. -/
def profiles (nullable : Bool) : Schema :=
  .ofDefinitions [("Author", [.column "name" .string]), ("Profile", profileSteps nullable)]

def profile (nullable : Bool) : Entity := .ofSteps "Profile" (profileSteps nullable)

def profileSession (nullable : Bool) : Session := ⟨profiles nullable, .standard⟩

/-- The profile gets the author with the key 1. -/
def profileOfOne : Data := ⟨[("author", .one (.connect (.single "id" (.int 1))))]⟩

/-- A database in which the profile 11 has the author 1. -/
def ownedWorld : Script.World :=
  { Script.World.empty with
    responses := [⟨"SELECT \"id\" FROM \"author\"", true, .rows ⟨["id"], [[.int 1]], none⟩⟩,
      ⟨"SELECT \"id\" FROM \"profile\"", true, .rows ⟨["id"], [[.int 11]], none⟩⟩] }

/-- Whether the first value of a row is the author with the key 1. -/
def isAuthorOne : Table Value → Bool
  | ("author", .int key) :: _ => key = 1
  | _ => false

lemma mem_of_isAuthorOne {values : Table Value} (h : isAuthorOne values = true) :
    ("author", .int 1) ∈ values := by
  unfold isAuthorOne at h
  split at h
  · rw [of_decide_eq_true h]
    exact List.mem_cons_self
  · cases h

/-- Whether a statement was sent that returns no rows. -/
def isExecute (exchange : Program.Exchange Effect) : Bool :=
  match exchange.request with
  | .execute _ => true
  | _ => false

/-- Whether a row gets the author with the key 1 though another profile is found that has it; after
an update without an error, or without any update. -/
def takesOver {S : Type} (updates : Bool) (trace : List (Program.Exchange Effect)) :
    Except Failure (RowValues Rows × S) → Bool
  | .ok (row, _) => isAuthorOne row.values && trace.all findsKey &&
    if updates then row.results.all fun result => !result.isError
    else trace.all fun exchange => !isExecute exchange
  | .error _ => false

/-- The profile with the key 1 is found. -/
lemma exists_looking (nullable : Bool) : ∃ looking, ((profileSession nullable).selectField
    (profile nullable) (.single "id" (.int 1)) (profile nullable).primary).run.Reaches looking
      (.done (.ok (some (.int 1)))) ∧ looking.all findsKey = true := by
  have hrun : ∃ looking, ((profileSession nullable).selectField (profile nullable)
      (.single "id" (.int 1)) (profile nullable).primary).run.trace? Script.answer foundWorld =
        some (looking, .ok (some (.int 1))) ∧ looking.all findsKey = true := by
    cases nullable
    · exact ⟨_, rfl, rfl⟩
    · exact ⟨_, rfl, rfl⟩
  obtain ⟨looking, hlooking, hfinds⟩ := hrun
  exact ⟨looking, Program.reaches_of_trace? hlooking, hfinds⟩

section Profiles

variable (nullable : Bool)

lemma exists_sides : ∃ sides, RelationSides.ofField (profileSession nullable).schema
    (profile nullable) "author" = .ok sides ∧ sides.kind = .oneHasOneOwning := by
  cases nullable
  · exact ⟨_, rfl, rfl⟩
  · exact ⟨_, rfl, rfl⟩

lemma wellFormed_profile : (profile nullable).WellFormed :=
  (Entity.building_ofSteps "Profile" (profileSteps nullable)).toWellFormed

lemma nodup_profileOfOne : (Table.keys profileOfOne.fields).Nodup := List.nodup_singleton _

lemma mem_profileOfOne :
    ("author", .one (.connect (.single "id" (.int 1)))) ∈ profileOfOne.fields :=
  List.mem_singleton_self _

end Profiles

/-- A profile must have an author, and is not disconnected from it; still the author is set for
another profile, by which no update was asked for before. -/
theorem required_claim_written_over :
    Schema.build [("Author", [.column "name" .string]), ("Profile", profileSteps false)] =
      .ok (profiles false) ∧
    ∃ looking trace row statement sides calls owner,
      ((profileSession false).selectField (profile false) (.single "id" (.int 1))
        (profile false).primary).run.Reaches looking (.done (.ok (some (.int 1)))) ∧
      ((profileSession false).ownUpdate ((profileSession false).rows 2) (profile false) (.int 1)
        profileOfOne).run.Reaches trace (.done (.ok (row, statement))) ∧
      UpdateCalls (profileSession false) ((profileSession false).rows 2) (profile false)
        (.single "id" (.int 1)) profileOfOne sides (.connect (.single "id" (.int 1)))
        (looking ++ trace) calls ∧
      ⟨RowRequest.primaryValue sides.entity (claimOn sides (.int 1)), Except.ok (some owner)⟩ ∈
        calls ∧
      isRow (some (.int 1)) owner = false ∧ ("author", .int 1) ∈ row.values ∧
      ∀ exchange ∈ trace, isExecute exchange = false := by
  refine ⟨by decide +kernel, ?_⟩
  have htest : (((profileSession false).ownUpdate ((profileSession false).rows 2) (profile false)
      (.int 1) profileOfOne).run.trace? Script.answer ownedWorld).any (fun outcome =>
        takesOver false outcome.1 outcome.2) = true := by decide +kernel
  obtain ⟨trace, failure | ⟨row, statement⟩, hrun, htest⟩ :=
    Program.exists_reaches_of_trace? htest
  · cases htest
  simp only [takesOver, Bool.false_eq_true, if_false, Bool.and_eq_true] at htest
  obtain ⟨⟨hauthor, hfinds⟩, hidle⟩ := htest
  have hset := mem_of_isAuthorOne hauthor
  obtain ⟨looking, hfound, hlooking⟩ := exists_looking false
  obtain ⟨sides, hsides, hkind⟩ := exists_sides false
  obtain ⟨calls, hcalls, htakes, -⟩ := claim_of_ownUpdate nodup_profileOfOne mem_profileOfOne
    hsides hkind (wellFormed_profile false) hfound hrun hset
  have hall : (looking ++ trace).all findsKey = true := by
    rw [List.all_append, hlooking, hfinds]
    rfl
  obtain ⟨owner, results, hother, -, hclaim⟩ :=
    exists_owner_of_takesOver htakes (fun _ => hcalls.exists_stretch) hall
  exact ⟨looking, trace, row, statement, sides, calls, owner, hfound, hrun, hcalls, hclaim, hother,
    hset, by simpa using hidle⟩

/-- A profile gets the author of another one: a new profile, and then one that is there. Before its
own statement, the other profile gave the author up. -/
theorem claim_given_up_first_profile :
    (∃ trace row statement sides owner,
      ((profileSession true).ownInsertion ((profileSession true).rows 2) (profile true)
        profileOfOne).run.Reaches trace (.done (.ok (row, statement))) ∧
      ("author", .int 1) ∈ row.values ∧ (profileSession true).GivesUp sides owner trace) ∧
    ∃ looking trace row statement sides owner,
      ((profileSession true).selectField (profile true) (.single "id" (.int 1))
        (profile true).primary).run.Reaches looking (.done (.ok (some (.int 1)))) ∧
      ((profileSession true).ownUpdate ((profileSession true).rows 2) (profile true) (.int 1)
        profileOfOne).run.Reaches trace (.done (.ok (row, statement))) ∧
      ("author", .int 1) ∈ row.values ∧ (profileSession true).GivesUp sides owner trace := by
  obtain ⟨sides, hsides, hkind⟩ := exists_sides true
  constructor
  · have htest : (((profileSession true).ownInsertion ((profileSession true).rows 2)
        (profile true) profileOfOne).run.trace? Script.answer ownedWorld).any (fun outcome =>
          takesOver true outcome.1 outcome.2) = true := by decide +kernel
    obtain ⟨trace, failure | ⟨row, statement⟩, hrun, htest⟩ :=
      Program.exists_reaches_of_trace? htest
    · cases htest
    simp only [takesOver, if_true, Bool.and_eq_true] at htest
    obtain ⟨⟨hauthor, hfinds⟩, hclean⟩ := htest
    have hset := mem_of_isAuthorOne hauthor
    obtain ⟨calls, hcalls, htakes, hgives⟩ := (claim_given_up_first (profileSession true)
      (wellFormed_profile true) nodup_profileOfOne mem_profileOfOne hsides hkind 2 trace hset).1
        statement hrun
    obtain ⟨owner, results, -, hcall, -⟩ :=
      exists_owner_of_takesOver htakes (fun _ => hcalls.exists_stretch) hfinds
    refine ⟨trace, row, statement, sides, owner, hrun, hset, hgives owner results hcall ?_⟩
    intro result hmem
    have hreported := mem_of_ownInsertion hrun hcalls
      (.reported (List.mem_flatMap.mpr ⟨_, hcall, hmem⟩))
    have herror : (result.under sides.path).isError = false := by
      simpa using List.all_eq_true.mp hclean _ hreported
    exact herror
  · have htest : (((profileSession true).ownUpdate ((profileSession true).rows 2) (profile true)
        (.int 1) profileOfOne).run.trace? Script.answer ownedWorld).any (fun outcome =>
          takesOver true outcome.1 outcome.2) = true := by decide +kernel
    obtain ⟨trace, failure | ⟨row, statement⟩, hrun, htest⟩ :=
      Program.exists_reaches_of_trace? htest
    · cases htest
    simp only [takesOver, if_true, Bool.and_eq_true] at htest
    obtain ⟨⟨hauthor, hfinds⟩, hclean⟩ := htest
    have hset := mem_of_isAuthorOne hauthor
    obtain ⟨looking, hfound, hlooking⟩ := exists_looking true
    obtain ⟨calls, hcalls, htakes, hgives⟩ := (claim_given_up_first (profileSession true)
      (wellFormed_profile true) nodup_profileOfOne mem_profileOfOne hsides hkind 2 trace hset).2
        (.single "id" (.int 1)) looking (.int 1) statement hfound hrun
    have hall : (looking ++ trace).all findsKey = true := by
      rw [List.all_append, hlooking, hfinds]
      rfl
    obtain ⟨owner, results, -, hcall, -⟩ :=
      exists_owner_of_takesOver htakes (fun _ => hcalls.exists_stretch) hall
    refine ⟨looking, trace, row, statement, sides, owner, hfound, hrun, hset,
      hgives owner results hcall ?_⟩
    intro result hmem
    have hreported := mem_of_ownUpdate hkind hfound hrun hcalls
      (.reported (List.mem_flatMap.mpr ⟨_, hcall, hmem⟩))
    have herror : (result.under sides.path).isError = false := by
      simpa using List.all_eq_true.mp hclean _ hreported
    exact herror

end Session

end EntityGraph.Mutation
