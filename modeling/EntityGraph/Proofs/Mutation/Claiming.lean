import EntityGraph.Proofs.Mutation.Expense
import EntityGraph.Proofs.Mutation.Served
/-!
# Claims on a server

A row that is connected to a target on a one-to-one relation already claims it, or no row does, or
the row that does is disconnected first. Whichever it is, no other row is left with the claim, and
nothing but joining columns was cleared.
-/
namespace EntityGraph

/-! ### Databases whose keys tell rows apart -/

/-- Whether the field is a one-to-one relation whose links are stored in the column. -/
def Entity.Claims (entity : Entity) (field column : String) : Prop :=
  ∃ relation joining, entity.relation field = .ok relation ∧ relation.kind = .oneHasOneOwning ∧
    relation.joiningColumn? = some joining ∧ joining.columnName = column

lemma Entity.Claims.columnName {entity : Entity} {field column : String}
    (h : entity.Claims field column) : entity.columnName field = .ok column := by
  obtain ⟨relation, joining, hr, -, hj, rfl⟩ := h
  exact columnName_of_relation hr hj

/-- Whether key columns tell the rows apart. -/
def Store.KeysTell (store : Store) (schema : Schema) : Prop :=
  ∀ ⦃entity⦄, schema.Declares entity →
    store.Tells entity.tableName entity.primaryColumn entity.primaryColumn

/-- Whether the joining columns of one-to-one relations do, too. -/
structure Store.Tracks (store : Store) (schema : Schema) : Prop where
  own : store.KeysTell schema
  claim : ∀ {entity field column}, schema.Declares entity → entity.Claims field column →
    store.Tells entity.tableName entity.primaryColumn column

/-- Whether one-to-one relations have joining columns of their own, none of them a key column, and
the tables of junctions are no tables of entities. -/
structure Schema.StoresApart (schema : Schema) : Prop where
  columns : ∀ {entity first second column}, schema.Declares entity →
    entity.Claims first column → entity.Claims second column → first = second
  keys : ∀ {entity other field}, schema.Declares entity → schema.Declares other →
    other.tableName = entity.tableName → ¬ entity.Claims field other.primaryColumn
  junctions : ∀ {owner other field relation junction}, schema.Declares owner →
    schema.Declares other → owner.relation field = .ok relation →
    relation.joiningTable? = some junction → other.tableName ≠ junction.tableName

namespace Store

variable {store next : Store} {schema : Schema}

/-- Keys tell rows apart in a database that has its keys. -/
lemma tracks_of_keys (hs : schema.WellFormed) (hcolumns : store.HasColumns schema)
    (hpresent : store.KeysPresent schema) (hunique : store.KeysUnique schema) :
    store.Tracks schema := by
  have hkey {entity : Entity} (he : schema.Declares entity) :
      ∀ row ∈ store.rows entity.tableName,
        ∃ key, row.find? entity.primaryColumn = some key ∧ key.isNull = false := by
    intro row hrow
    obtain ⟨key, hkey⟩ := hcolumns.primary he row hrow
    have hsome := mt (Row.isNull_iff hkey).mpr (hpresent.primary he row hrow)
    exact ⟨key, hkey, Bool.eq_false_iff.mpr hsome⟩
  have hsame {entity : Entity} (he : schema.Declares entity) {row other : Row}
      (hrow : row ∈ store.rows entity.tableName) (hother : other ∈ store.rows entity.tableName)
      (hid : entity.Identified row other) :
      row.find? entity.primaryColumn = other.find? entity.primaryColumn := by
    rw [hunique.eq_of_identified he hrow hother hid]
  constructor
  · intro entity he
    exact ⟨hcolumns.primary he, hkey he,
      fun row hrow other hother hagree => hsame he hrow hother (.inl hagree)⟩
  · rintro entity field column he ⟨relation, joining, hr, hkind, hj, rfl⟩
    have hname := (hs.wellFormed he).relation_name hr
    have hcolumn := Entity.columnName_of_relation hr hj
    have hmem : relation ∈ entity.relations.filter (·.kind = .oneHasOneOwning) :=
      List.mem_filter.mpr ⟨(hs.wellFormed he).mem_relations.mpr (by rw [hname]; exact hr),
        decide_eq_true hkind⟩
    refine ⟨fun row hrow => hcolumns.field he row hrow hcolumn, hkey he,
      fun row hrow other hother hagree => hsame he hrow hother (.inr ⟨[relation.name],
        List.mem_append_right _ (List.mem_map_of_mem hmem), fun name hmem => ?_⟩)⟩
    rw [List.mem_singleton.mp hmem, hname]
    exact ⟨_, hcolumn, hagree⟩

lemma KeysTell.resets (h : store.KeysTell schema) (sets : String → String → Value → Prop)
    (hresets : ∀ {entity}, schema.Declares entity →
      store.Resets next entity.tableName (sets entity.tableName))
    (hkeys : ∀ {entity}, schema.Declares entity →
      ∀ value, ¬ sets entity.tableName entity.primaryColumn value) : next.KeysTell schema :=
  fun _ he => (h he).resets (hresets he) (hkeys he) fun value hsets => absurd hsets (hkeys he value)

/-- Clearing joining columns leaves the keys of rows as they are. -/
lemma Tracks.resets (h : store.Tracks schema) {sets : String → String → Value → Prop}
    (hresets : ∀ {entity}, schema.Declares entity →
      store.Resets next entity.tableName (sets entity.tableName))
    (hkeys : ∀ {entity}, schema.Declares entity →
      ∀ value, ¬ sets entity.tableName entity.primaryColumn value)
    (hclears : ∀ table column value, sets table column value → value = .null) :
    next.Tracks schema where
  own := h.own.resets sets hresets hkeys
  claim he hclaims := (h.claim he hclaims).resets (hresets he) (hkeys he) (hclears _ _)

end Store

/-- What connecting on the fields may set: joining columns of the entity. -/
def Entity.Sets (entity : Entity) (fields : List String) (table column : String) : Prop :=
  table = entity.tableName ∧ ∃ field ∈ fields, entity.Claims field column

/-- What connecting on the fields clears before the statement of the row. -/
def Entity.Clears (entity : Entity) (fields : List String) (table column : String)
    (value : Value) : Prop :=
  entity.Sets fields table column ∧ value = .null

lemma Entity.Clears.mono {entity : Entity} {fields others : List String} {table column : String}
    {value : Value} (h : entity.Clears fields table column value) (hmore : fields ⊆ others) :
    entity.Clears others table column value := by
  obtain ⟨⟨htable, field, hmem, hclaims⟩, hnull⟩ := h
  exact ⟨⟨htable, field, hmore hmem, hclaims⟩, hnull⟩

/-- Whether relations have storage of their own can be checked entity by entity. -/
theorem Schema.storesApart_of_forall_mem {schema : Schema}
    (hcolumns : ∀ pair ∈ schema.entities, ∀ first ∈ pair.2.fields, ∀ second ∈ pair.2.fields,
      ∀ relation ∈ first.2.asRelation?, ∀ other ∈ second.2.asRelation?,
      relation.kind = .oneHasOneOwning → other.kind = .oneHasOneOwning →
      ∀ joining ∈ relation.joiningColumn?, ∀ column ∈ other.joiningColumn?,
      column.columnName = joining.columnName → first.1 = second.1)
    (hkeys : ∀ pair ∈ schema.entities, ∀ other ∈ schema.entities,
      other.2.tableName = pair.2.tableName → ∀ field ∈ pair.2.fields,
      ∀ relation ∈ field.2.asRelation?, relation.kind = .oneHasOneOwning →
      ∀ joining ∈ relation.joiningColumn?, joining.columnName ≠ other.2.primaryColumn)
    (hjunctions : ∀ pair ∈ schema.entities, ∀ other ∈ schema.entities,
      ∀ field ∈ pair.2.fields, ∀ relation ∈ field.2.asRelation?,
      ∀ junction ∈ relation.joiningTable?, other.2.tableName ≠ junction.tableName) :
    schema.StoresApart where
  columns he := by
    rintro ⟨relation, joining, hr, hkind, hj, rfl⟩ ⟨other, column, hother, hotherKind, hk, heq⟩
    exact hcolumns _ (Table.mem_of_find? (Schema.entity_eq_ok.mp he)) _
      (Table.mem_of_find? (Entity.relation_eq_ok.mp hr)) _
      (Table.mem_of_find? (Entity.relation_eq_ok.mp hother)) _ rfl _ rfl hkind hotherKind _ hj _
      hk heq
  keys he hother htable := by
    rintro ⟨relation, joining, hr, hkind, hj, heq⟩
    exact hkeys _ (Table.mem_of_find? (Schema.entity_eq_ok.mp he)) _
      (Table.mem_of_find? (Schema.entity_eq_ok.mp hother)) htable _
      (Table.mem_of_find? (Entity.relation_eq_ok.mp hr)) _ rfl hkind _ hj heq
  junctions he hother hr hj :=
    hjunctions _ (Table.mem_of_find? (Schema.entity_eq_ok.mp he)) _
      (Table.mem_of_find? (Schema.entity_eq_ok.mp hother)) _
      (Table.mem_of_find? (Entity.relation_eq_ok.mp hr)) _ rfl _ hj

namespace Schema.StoresApart

variable {schema : Schema} (h : schema.StoresApart) {entity other : Entity}
  {fields : List String} {table : String}
include h

/-- No key is set. -/
lemma not_sets_key (he : schema.Declares entity) (hother : schema.Declares other) :
    ¬ entity.Sets fields other.tableName other.primaryColumn := by
  rintro ⟨htable, field, -, hclaims⟩
  exact h.keys he hother htable hclaims

lemma not_clears_key (he : schema.Declares entity) (hother : schema.Declares other)
    (value : Value) : ¬ entity.Clears fields other.tableName other.primaryColumn value :=
  fun hclears => h.not_sets_key he hother hclears.1

/-- The joining column of another relation is not set. -/
lemma not_sets_claim (he : schema.Declares entity) {field column : String}
    (hfield : field ∉ fields) (hclaims : entity.Claims field column) :
    ¬ entity.Sets fields table column := by
  rintro ⟨-, other, hmem, hother⟩
  exact hfield (h.columns he hclaims hother ▸ hmem)

end Schema.StoresApart

/-- What is left to do for a row to claim a target: nothing, or to set the column to the target,
which no row claims then. -/
inductive Store.Prepared (store : Store) (table idColumn column : String) (target key : Value) :
    Option Value → Prop
  | linked (h : store.LeadsTo table idColumn column target key) :
      Prepared store table idColumn column target key none
  | free (h : ∀ row ∈ store.rows table, ¬ row.Has column target) :
      Prepared store table idColumn column target key (some target)

section Prepared

variable {store next : Store} {table idColumn column : String} {target key owner which : Value}

/-- The key of the row that claims a target is the own key if it is the same value. -/
lemma Store.LeadsTo.eq_of_equal (hown : store.LeadsTo table idColumn idColumn which key)
    (htells : store.Tells table idColumn idColumn)
    (howner : store.LeadsTo table idColumn column target owner) (h : owner.equal key = true) :
    key = owner := by
  obtain ⟨row, hrow, hhas⟩ := hown.row
  obtain ⟨other, hother, hclaims⟩ := howner.row
  have hkey := hown.key row hrow hhas
  have hotherKey := howner.key other hother hclaims
  have hequal : Comparison.equal.test key owner = .holds :=
    Comparison.equal_test_comm.mp (Comparison.equal_test_eq_holds.mpr
      ⟨howner.present, hown.present, (Value.compare_eq_iff_equal owner key).mpr h⟩)
  have hsame := htells.same row hrow other hother ⟨key, owner, hkey, hotherKey, hequal⟩
  rw [hkey, hotherKey] at hsame
  exact Option.some.inj hsame

/-- Once the row that claimed a target is cleared, no row claims it. -/
lemma Store.LeadsTo.not_has_of_cleared (howner : store.LeadsTo table idColumn column target owner)
    (hcleared : store.LeadsTo table idColumn idColumn owner key) :
    ∀ row ∈ (store.settingAll table idColumn key [(column, .null)]).rows table,
      ¬ row.Has column target := by
  intro row hrow
  rw [settingAll, rows_withRows, if_pos rfl] at hrow
  obtain ⟨old, hold, rfl⟩ := List.mem_map.mp hrow
  by_cases hhas : old.Has idColumn key
  · rw [if_pos hhas]
    exact Row.not_has_of_null (Row.find?_assignAll_of_mem (howner.holds old hold)
      List.mem_cons_self (by simp))
  · rw [if_neg hhas]
    intro hclaims
    have hfound := hcleared.key old hold
      (Row.has_of_find? (howner.key old hold hclaims) howner.present)
    exact hhas (Row.has_of_find? hfound hcleared.present)

lemma Store.Prepared.resets {sets : String → Value → Prop} {value : Option Value}
    (h : store.Prepared table idColumn column target key value)
    (hresets : store.Resets next table sets) (hid : ∀ value, ¬ sets idColumn value)
    (hcolumn : ∀ value, ¬ sets column value) :
    next.Prepared table idColumn column target key value := by
  cases h with
  | linked h => exact .linked (h.resets hresets hid hcolumn)
  | free h => exact .free (hresets.not_has (fun value hsets => absurd hsets (hcolumn value)) h)

/-- The rows that are set to claim a target do so afterwards, and no others. -/
lemma Store.leadsTo_of_settingAll {values : List (String × Value)}
    (hown : store.LeadsTo table idColumn idColumn which key)
    (hfree : ∀ row ∈ store.rows table, ¬ row.Has column target)
    (hholds : ∀ row ∈ store.rows table, ∃ value, row.find? column = some value)
    (hpresent : target.isNull = false) (hmem : (column, target) ∈ values)
    (hone : ∀ other, (column, other) ∈ values → other = target)
    (hid : ∀ other, (idColumn, other) ∉ values) :
    (store.settingAll table idColumn key values).LeadsTo table idColumn column target key := by
  have hrows : (store.settingAll table idColumn key values).rows table =
      (store.rows table).map fun row =>
        if row.Has idColumn key then row.assignAll values else row := by
    rw [settingAll, rows_withRows, if_pos rfl]
  have hset {row : Row} (hrow : row ∈ store.rows table) :
      (row.assignAll values).find? column = some target :=
    Row.find?_assignAll_of_mem (hholds row hrow) hmem hone
  refine ⟨fun row hrow => ?_, hown.present, ?_, fun row hrow hhas => ?_⟩
  · rw [hrows] at hrow
    obtain ⟨old, hold, rfl⟩ := List.mem_map.mp hrow
    split
    · exact ⟨target, hset hold⟩
    · exact hholds old hold
  · obtain ⟨row, hrow, hhas⟩ := hown.own.row
    refine ⟨row.assignAll values, ?_, Row.has_of_find? (hset hrow) hpresent⟩
    rw [hrows]
    exact List.mem_map.mpr ⟨row, hrow, if_pos hhas⟩
  · rw [hrows] at hrow
    obtain ⟨old, hold, rfl⟩ := List.mem_map.mp hrow
    by_cases hkey : old.Has idColumn key
    · rw [if_pos hkey, Row.find?_assignAll_of_not_mem hid]
      exact hown.own.key old hold hkey
    · rw [if_neg hkey] at hhas
      exact absurd hhas (hfree old hold)

lemma Store.settingAll_nil (store : Store) (table column : String) (value : Value) :
    store.settingAll table column value [] = store := by
  have hrows : (store.rows table).map (fun row =>
      if row.Has column value then row.assignAll [] else row) = store.rows table := by
    refine (List.map_congr_left fun row _ => ?_).trans (List.map_id _)
    exact ite_id row
  obtain ⟨rows⟩ := store
  rw [settingAll, hrows, withRows]
  congr 1
  funext other
  split
  · rename_i hother
    rw [hother]
  · rfl

end Prepared

/-! ### Disconnecting and claiming -/

namespace Mutation

variable {server : Server} {allowed : Effect.Request → Prop} {store next : Store}
  {session : Session} {rows : RowAnswers} {depth : Nat} {sides : RelationSides}
  {joining : JoiningColumn} {results : List Result} {owner key given : Value}

/-- An update that was answered was carried out. -/
lemma update?_of_answer {update : Sql.Update} {count : Nat}
    (h : server.answer (.execute (.update update)) store = some (.ok count, next)) :
    store.update? update = some (count, next) := by
  obtain ⟨⟨touched, after⟩, hupdate, hwritten⟩ := Option.bind_eq_some_iff.mp h
  rw [hupdate]
  have heq := Option.some.inj hwritten
  rw [Server.written] at heq
  split at heq
  · cases heq
    rfl
  · cases heq

section Claims

variable (hs : session.schema.WellFormed) (hkeys : session.schema.KeysAreColumns)
  (htyped : sides.Typed session.schema)
  (hself : RelationSides.ofField session.schema sides.entity sides.relation.name = .ok sides)
  (hkind : sides.kind = .oneHasOneOwning)
  (hjoining : sides.relation.joiningColumn? = some joining)
  (hallowed : ∀ request, EffectRequest.SparesRows request → allowed request)

include htyped hkind hjoining in
lemma claims_of_sides : sides.entity.Claims sides.relation.name joining.columnName :=
  ⟨sides.relation, joining, htyped.relation, hkind, hjoining, rfl⟩

include hs hkeys htyped hself hkind hjoining hallowed

/-- A disconnection that reports no error clears the joining column of the row. -/
lemma clears_of_disconnecting
    (hholds : store.HasColumn sides.entity.tableName sides.entity.primaryColumn)
    (hrun : server.Runs allowed (session.updateRow rows sides.entity (byPrimary sides.entity owner)
      (disconnecting sides.relation.name)).run store (.ok results) next)
    (hclean : NoErrors results) :
    ∃ key, server.found store sides.entity.tableName sides.entity.primaryColumn owner
        sides.entity.primaryColumn = some key ∧
      next = store.settingAll sides.entity.tableName sides.entity.primaryColumn key
        [(joining.columnName, .null)] := by
  have hprimary := hkeys.columnName_primary hs htyped.entity
  obtain ⟨key, hfound, hrun⟩ :=
    (Session.runs_updateRow_iff hprimary hholds hallowed hclean).mp hrun
  rw [show (disconnecting sides.relation.name).isEmpty = false from rfl,
    if_neg Bool.false_ne_true] at hrun
  refine ⟨key, hfound, ?_⟩
  obtain ⟨values, operations, tree, updated, middle, others, hplan, -, htree, hown, -, hrelated,
    rfl⟩ := (Session.runs_updateFound_iff hclean).mp hrun
  obtain ⟨rfl, rfl⟩ := planUpdate_eq_ok hplan
  have hothers := (noErrors_append.mp (noErrors_cons.mp hclean).2).2
  cases hnull : sides.relation.isNullable with
  | false =>
    obtain ⟨trace, hreaches, -⟩ := hrelated
    obtain ⟨result, hmem, herror⟩ := Session.refused_of_collecting hnull hself hkind hreaches
    cases (hothers result hmem).symm.trans herror
  | true =>
    have hstep := Session.stepOf_disconnect hself hkind key
    rw [hnull, if_pos rfl] at hstep
    simp only [disconnecting, Data.empty, Data.withOne, Data.set, Table.put,
      List.flatMap_singleton, updateEntries, updateOperations, hstep] at hown hrelated
    obtain ⟨lists, hnone, -⟩ := (runs_collectAll_iff hothers).mp hrelated
    obtain ⟨-, rfl⟩ := runs_runAll_nil_iff.mp hnone
    obtain ⟨row, columns, resolved, count, written, more, hresolve, hcolumns, hwrites, hmore,
      rfl⟩ := Session.runs_updateValues_iff.mp hown
    have hrow : NoErrors (row.results ++ more) :=
      (noErrors_append.mp (noErrors_cons.mp hclean).2).1
    obtain ⟨outcomes, hall, rfl⟩ :=
      (FieldValues.runs_resolve_iff (noErrors_append.mp hrow).1).mp hresolve
    obtain ⟨hnil, rfl⟩ := runs_runAll_nil_iff.mp hall
    obtain rfl := List.map_eq_nil_iff.mp hnil
    obtain ⟨lists, hafter, -⟩ := (runs_collectAll_iff (noErrors_append.mp hrow).2).mp hmore
    obtain ⟨-, rfl⟩ := runs_runAll_nil_iff.mp hafter
    obtain ⟨column, hcolumn, hrest⟩ := Except.bind_eq_ok.mp hcolumns
    cases hrest
    cases hcolumn.symm.trans (Entity.columnName_of_relation htyped.relation hjoining)
    cases htree.symm.trans (toTree_byPrimary hprimary session.schema key)
    cases hwrites with
    | nothing hvalues => cases hvalues
    | sent _ _ hanswer =>
      have hupdate := update?_of_answer hanswer
      have hsets := update?_onValue hholds key [(joining.columnName, Value.null)]
      cases hupdate.symm.trans hsets
      rfl

/-- A connect that reports no error leaves the target to the row: it has the target, or no row does
and the target is to be set. -/
lemma prepared_of_claimTarget {resolved : Resolved Rows} {which : Value}
    (htracks : store.Tracks session.schema)
    (hown : store.LeadsTo sides.entity.tableName sides.entity.primaryColumn
      sides.entity.primaryColumn which key)
    (hrun : server.Runs allowed (answered (session.rows (depth + 1))
      (claimTarget sides (byPrimary sides.target given) (some key))).run store (.ok resolved) next)
    (hclean : NoErrors resolved.results) :
    resolved.after = none ∧
      (∀ table, store.Resets next table (sides.entity.Clears [sides.relation.name] table)) ∧
      ∃ target, store.LeadsTo sides.target.tableName sides.target.primaryColumn
          sides.target.primaryColumn given target ∧
        next.Prepared sides.entity.tableName sides.entity.primaryColumn joining.columnName target
          key resolved.value := by
  have hclaims := claims_of_sides htyped hkind hjoining
  have htells := htracks.claim htyped.entity hclaims
  have hsame (table : String) :
      store.Resets store table (sides.entity.Clears [sides.relation.name] table) := .of_rows_eq rfl
  rw [claimTarget, answered_bind, Server.runs_run_bind_ok_iff] at hrun
  obtain ⟨found, middle, hfound, hrun⟩ := hrun
  obtain ⟨heq, rfl⟩ := (Session.runs_primaryValue_iff (hkeys.columnName_primary hs htyped.target)
    (htracks.own htyped.target).holds hallowed).mp hfound
  cases found with
  | none =>
    obtain ⟨hmissing, -⟩ := Server.runs_done_iff.mp hrun
    cases hmissing
    cases (noErrors_cons.mp hclean).1
  | some target =>
    have htarget := (htracks.own htyped.target).leadsTo (Except.ok.inj heq).symm
    dsimp only at hrun
    rw [if_neg (not_not.mpr hkind), answered_bind, Server.runs_run_bind_ok_iff] at hrun
    obtain ⟨claimed, last, hclaimed, hrun⟩ := hrun
    rw [Session.answered_primaryValue] at hclaimed
    obtain ⟨heq, rfl⟩ := ((Session.runs_claim (hs.wellFormed htyped.entity) htyped.relation
      hjoining hkind (hkeys.columnName_primary hs htyped.entity) htyped.targetEntity htells.holds
      fun row hrow _ => (htells.key row hrow).imp fun _ => And.left).iff hallowed).mp hclaimed
    cases claimed with
    | none =>
      obtain ⟨hdone, rfl⟩ := Server.runs_done_iff.mp hrun
      cases hdone
      exact ⟨rfl, hsame, target, htarget, .free (htells.not_has (Except.ok.inj heq).symm)⟩
    | some owner =>
      have howner := htells.leadsTo (Except.ok.inj heq).symm
      dsimp only at hrun
      cases hequal : isRow (some key) owner with
      | true =>
        rw [hequal, if_pos rfl] at hrun
        obtain ⟨hdone, rfl⟩ := Server.runs_done_iff.mp hrun
        cases hdone
        refine ⟨rfl, hsame, target, htarget, .linked ?_⟩
        have hsameKey : owner.equal key = true := hequal
        rw [hown.eq_of_equal (htracks.own htyped.entity) howner hsameKey]
        exact howner
      | false =>
        rw [hequal, if_neg Bool.false_ne_true, answered_bind, Server.runs_run_bind_ok_iff] at hrun
        obtain ⟨results, final, hupdate, hreturn⟩ := hrun
        obtain ⟨hdone, rfl⟩ := Server.runs_done_iff.mp hreturn
        cases hdone
        rw [Session.answered_update] at hupdate
        obtain ⟨own, hfound, rfl⟩ := clears_of_disconnecting hs hkeys htyped hself hkind hjoining
          hallowed (htracks.own htyped.entity).holds hupdate hclean
        have hcleared := (htracks.own htyped.entity).leadsTo hfound
        refine ⟨rfl, fun table => ?_, target, htarget, .free (howner.not_has_of_cleared hcleared)⟩
        refine Store.resets_settingAll _ _ _ own table fun pair hpair htable => ?_
        rw [List.mem_singleton.mp hpair]
        exact ⟨⟨htable, _, List.mem_singleton_self _, hclaims⟩, rfl⟩

end Claims

end Mutation

end EntityGraph
