import EntityGraph.Proofs.Mutation.Claiming
/-!
# Connects on a server

An update whose data only connects its row, on one-to-one relations that store their links and on
many-to-many relations, to targets given by their keys. If it reports no error, every link is there
afterwards: the row of the key, and no other, has the target in the joining column, and the junction
table does not admit another entry of the two rows.
-/
namespace EntityGraph

/-! ### Junctions beside the entities -/

/-- Whether the two keys of an entry are a key of the junction table. -/
def Server.LinksOnce (server : Server) (schema : Schema) : Prop :=
  ∀ {owner field relation table}, schema.Declares owner → owner.relation field = .ok relation →
    relation.joiningTable? = some table →
      [table.joiningColumn.columnName, table.inverseJoiningColumn.columnName] ∈
        server.keys table.tableName

/-- The keys of junction tables can be checked entity by entity. -/
theorem Server.linksOnce_of_forall_mem {server : Server} {schema : Schema}
    (h : ∀ pair ∈ schema.entities, ∀ field ∈ pair.2.fields, ∀ relation ∈ field.2.asRelation?,
      ∀ table ∈ relation.joiningTable?,
        [table.joiningColumn.columnName, table.inverseJoiningColumn.columnName] ∈
          server.keys table.tableName) : server.LinksOnce schema := fun he hr htable =>
  h _ (Table.mem_of_find? (Schema.entity_eq_ok.mp he)) _
    (Table.mem_of_find? (Entity.relation_eq_ok.mp hr)) _ rfl _ htable

/-- Whether no entity has its rows in the table. -/
def Schema.IsBeside (schema : Schema) (table : String) : Prop :=
  ∀ {entity}, schema.Declares entity → entity.tableName ≠ table

/-- Rows that are added beside the entities leave the rows of the entities alone. -/
lemma Store.Grows.resets {store next : Store} {schema : Schema} {entity : Entity}
    {sets : String → Value → Prop} (h : store.Grows next schema.IsBeside)
    (hentity : schema.Declares entity) : store.Resets next entity.tableName sets :=
  .of_rows_eq (h.others _ fun hbeside => hbeside hentity rfl)

/-- What a column of an entity leads to stays while rows are added beside the entities. -/
lemma Store.LeadsTo.grows {store next : Store} {schema : Schema} {entity : Entity}
    {idColumn column : String} {value key : Value}
    (h : store.LeadsTo entity.tableName idColumn column value key)
    (hgrows : store.Grows next schema.IsBeside) (hentity : schema.Declares entity) :
    next.LeadsTo entity.tableName idColumn column value key := by
  have hresets : store.Resets next entity.tableName fun _ _ => False := hgrows.resets hentity
  exact h.resets hresets (fun _ => id) fun _ => id

/-- So do the keys by which rows are told apart. -/
lemma Store.KeysTell.grows {store next : Store} {schema : Schema} (h : store.KeysTell schema)
    (hgrows : store.Grows next schema.IsBeside) : next.KeysTell schema := by
  intro entity hentity
  have hresets : store.Resets next entity.tableName fun _ _ => False := hgrows.resets hentity
  exact (h hentity).resets hresets (fun _ => id) fun _ => False.elim

/-- An entry clashes with another one of the same keys. -/
lemma JoiningTable.clash_linking {server : Server} {table : JoiningTable} {first second : Value}
    (hkey : [table.joiningColumn.columnName, table.inverseJoiningColumn.columnName] ∈
      server.keys table.tableName) (hfirst : first.isNull = false) (hsecond : second.isNull = false)
    {row : Row} (hrow : server.newRow? (table.linking first second) = some row) :
    server.Clash table.tableName row row := by
  refine ⟨_, hkey, fun column hmem => ?_⟩
  have hvalue : ∃ value, row.find? column = some value ∧ value.isNull = false := by
    cases hrow
    by_cases hcolumn : column = table.joiningColumn.columnName
    · exact ⟨first, by simp [Table.find?, hcolumn, Sql.column], hfirst⟩
    · obtain rfl := (List.mem_pair.mp hmem).resolve_left hcolumn
      exact ⟨second, by simp [Table.find?, Ne.symm hcolumn, Sql.column], hsecond⟩
  obtain ⟨value, hfound, hpresent⟩ := hvalue
  exact (Row.has_of_find? hfound hpresent).agree (Row.has_of_find? hfound hpresent)

namespace Mutation

/-- An entry of data that connects the row to a target given by its key, on a one-to-one relation
that stores its link, or to any number of targets on a many-to-many relation. -/
inductive Connects (schema : Schema) (entity : Entity) : String × FieldInput → Prop
  | one {field : String} {sides : RelationSides} (given : Value)
      (hsides : RelationSides.ofField schema entity field = .ok sides)
      (hkind : sides.kind = .oneHasOneOwning) :
      Connects schema entity (field, .one (.connect (byPrimary sides.target given)))
  | many {field : String} {sides : RelationSides} {items : List ToManyItem}
      (hsides : RelationSides.ofField schema entity field = .ok sides)
      (hkind : sides.kind = .manyHasManyOwning ∨ sides.kind = .manyHasManyInverse)
      (hitems : ∀ item ∈ items, ∃ given, item.input = .connect (byPrimary sides.target given)) :
      Connects schema entity (field, .many items)

/-! ### Values of the row -/

/-- An entry once its value is resolved: its target was found, and the value of its field links the
row to the target, as far as it is not linked. -/
inductive Readied (schema : Schema) (entity : Entity) (store : Store) (key : Value)
    (slots : List (String × Option Value)) : String × FieldInput → Prop
  | one {field column : String} {sides : RelationSides} {given target : Value}
      {value : Option Value} (hsides : RelationSides.ofField schema entity field = .ok sides)
      (hclaims : entity.Claims field column)
      (htarget : store.LeadsTo sides.target.tableName sides.target.primaryColumn
        sides.target.primaryColumn given target)
      (hslot : ∀ other, (field, other) ∈ slots ↔ other = value)
      (hprepared : store.Prepared entity.tableName entity.primaryColumn column target key value) :
      Readied schema entity store key slots
        (field, .one (.connect (byPrimary sides.target given)))
  | many (field : String) (items : List ToManyItem) :
      Readied schema entity store key slots (field, .many items)

/-- An entry on a one-to-one relation whose target is claimed by the row and by no other. -/
inductive Claimed (schema : Schema) (entity : Entity) (store : Store) (key : Value) :
    String × FieldInput → Prop
  | one {field column : String} {sides : RelationSides} {given target : Value}
      (hsides : RelationSides.ofField schema entity field = .ok sides)
      (hclaims : entity.Claims field column)
      (htarget : store.LeadsTo sides.target.tableName sides.target.primaryColumn
        sides.target.primaryColumn given target)
      (hlinked : store.LeadsTo entity.tableName entity.primaryColumn column target key) :
      Claimed schema entity store key (field, .one (.connect (byPrimary sides.target given)))
  | many (field : String) (items : List ToManyItem) :
      Claimed schema entity store key (field, .many items)

section Schema

variable {schema : Schema} {entity : Entity} {field : String} {sides : RelationSides}

/-- A one-to-one relation of the schema claims its targets by a column. -/
lemma exists_claims (hs : schema.WellFormed) (hentity : schema.Declares entity)
    (hsides : RelationSides.ofField schema entity field = .ok sides)
    (hkind : sides.kind = .oneHasOneOwning) :
    ∃ joining, sides.relation.joiningColumn? = some joining ∧
      entity.Claims field joining.columnName ∧ sides.entity = entity ∧
      sides.relation.name = field := by
  obtain ⟨rfl, hrelation⟩ := RelationSides.relation_of_ofField hsides
  have hstored : sides.relation.kind.hasJoiningColumn = true := by
    rw [show sides.relation.kind = .oneHasOneOwning from hkind]
    rfl
  obtain ⟨joining, hjoining⟩ :=
    Option.isSome_iff_exists.mp (sides.relation.joiningColumn?_isSome.trans hstored)
  exact ⟨joining, hjoining, ⟨_, joining, hrelation, hkind, hjoining, rfl⟩, rfl,
    (hs.wellFormed hentity).relation_name hrelation⟩

/-- A connect on a one-to-one relation asks for a value of its field. -/
lemma updateEntries_connect (hsides : RelationSides.ofField schema entity field = .ok sides)
    (hkind : sides.kind = .oneHasOneOwning) (key : Value) (which : UniqueWhere) :
    updateEntries schema entity key (field, .one (.connect which)) =
      [(field, .deferred (resolvingUnder sides.path (claimTarget sides which (some key))))] := by
  have hstep : stepOf schema entity key field (.connect which) =
      .ok (.column (.deferred (resolvingUnder sides.path (claimTarget sides which (some key))))) :=
    Except.bind_eq_ok.mpr ⟨sides, hsides, toOneStep_connect which key hkind⟩
  simp only [updateEntries, hstep]

lemma Readied.cons {store : Store} {key : Value} {slots : List (String × Option Value)}
    {entry : String × FieldInput} (h : Readied schema entity store key slots entry)
    (hfield : entry.1 ≠ field) (value : Option Value) :
    Readied schema entity store key ((field, value) :: slots) entry := by
  cases h with
  | many field items => exact .many field items
  | one hsides hclaims htarget hslot hprepared =>
    refine .one hsides hclaims htarget (fun other => ?_) hprepared
    rw [List.mem_cons, hslot, or_iff_right]
    intro heq
    exact hfield (Prod.mk.inj heq).1

/-- Only the fields of the data have slots. -/
lemma mem_keys_of_mem_slots {fields : List (String × FieldInput)} {key : Value}
    {outcomes : List (Except Result (Resolved Rows))} {value : Option Value}
    (h : (field, value) ∈ FieldValues.slots
      (fields.flatMap (updateEntries schema entity key)) outcomes) :
    ∃ entry ∈ fields, entry.1 = field ∧ updateEntries schema entity key entry ≠ [] := by
  have hname : field ∈ FieldValues.names (fields.flatMap (updateEntries schema entity key)) := by
    rw [← FieldValues.map_fst_slots _ outcomes]
    exact List.mem_map_of_mem h
  obtain ⟨own, hown, rfl⟩ := List.mem_map.mp hname
  obtain ⟨entry, hentry, hmem⟩ := List.mem_flatMap.mp hown
  exact ⟨entry, hentry, (fst_of_mem_updateEntries hmem).symm, List.ne_nil_of_mem hmem⟩

/-- The slot of a field that is in front, and nowhere else. -/
lemma mem_cons_slots_iff {fields : List (String × FieldInput)} {key : Value}
    {outcomes : List (Except Result (Resolved Rows))} {value other : Option Value}
    (hnew : ∀ entry ∈ fields, entry.1 ≠ field) :
    (field, other) ∈ (field, value) :: FieldValues.slots
      (fields.flatMap (updateEntries schema entity key)) outcomes ↔ other = value := by
  rw [List.mem_cons, Prod.mk.injEq, and_iff_right rfl, or_iff_left]
  intro hmem
  obtain ⟨entry, hentry, hfield, -⟩ := mem_keys_of_mem_slots hmem
  exact hnew entry hentry hfield

end Schema

section Resolving

variable {server : Server} {allowed : Effect.Request → Prop} {store next : Store}
  {session : Session} {depth : Nat} {entity : Entity} {key which : Value}

variable (hs : session.schema.WellFormed) (hkeys : session.schema.KeysAreColumns)
  (hapart : session.schema.StoresApart) (hentity : session.schema.Declares entity)
  (hallowed : ∀ request, EffectRequest.SparesRows request → allowed request)
include hs hkeys hapart hentity hallowed

omit hapart in
/-- A connect that reports no error leaves its target to the row. -/
lemma prepared_of_resolvingUnder {field : String} {sides : RelationSides} {given : Value}
    {resolved : Resolved Rows}
    (hsides : RelationSides.ofField session.schema entity field = .ok sides)
    (hkind : sides.kind = .oneHasOneOwning) (htracks : store.Tracks session.schema)
    (hown : store.LeadsTo entity.tableName entity.primaryColumn entity.primaryColumn which key)
    (hrun : server.Runs allowed (answered (session.rows (depth + 1)) (resolvingUnder sides.path
      (claimTarget sides (byPrimary sides.target given) (some key)))).run store (.ok resolved) next)
    (hclean : NoErrors resolved.results) :
    resolved.after = none ∧
      (∀ table, store.Resets next table (entity.Clears [field] table)) ∧
      ∃ column target, entity.Claims field column ∧
        store.LeadsTo sides.target.tableName sides.target.primaryColumn
          sides.target.primaryColumn given target ∧
        next.Prepared entity.tableName entity.primaryColumn column target key resolved.value := by
  obtain ⟨joining, hjoining, hclaims, rfl, hname⟩ := exists_claims hs hentity hsides hkind
  obtain ⟨htyped, hself⟩ := RelationSides.typed_of_ofField hs hentity hsides
  obtain ⟨inner, hinner, rfl⟩ := (runs_resolvingUnder_iff hclean).mp hrun
  obtain ⟨hnone, hresets, target, htarget, hprepared⟩ := prepared_of_claimTarget hs hkeys htyped
    hself hkind hjoining hallowed htracks hown hinner (noErrors_allUnder.mp hclean)
  rw [hname] at hresets
  refine ⟨?_, hresets, joining.columnName, target, hclaims, htarget, hprepared⟩
  show inner.after.map _ = none
  rw [hnone]
  rfl

/-- Connects that report no error ready their fields for the statement of the row. -/
lemma readied_of_resolving {fields : List (String × FieldInput)}
    (hconnects : ∀ entry ∈ fields, Connects session.schema entity entry)
    (hnodup : (Table.keys fields).Nodup) (htracks : store.Tracks session.schema)
    (hown : store.LeadsTo entity.tableName entity.primaryColumn entity.primaryColumn which key)
    {resolved : List (Resolved Rows)}
    (hrun : server.Runs allowed (runAll (session.rows (depth + 1)) (FieldValues.deferred
      (fields.flatMap (updateEntries session.schema entity key)))) store (resolved.map .ok) next)
    (hclean : ∀ own ∈ resolved, NoErrors own.results) :
    (∀ own ∈ resolved, own.after = none) ∧
      (∀ table, store.Resets next table (entity.Clears (Table.keys fields) table)) ∧
      ∀ entry ∈ fields, Readied session.schema entity next key (FieldValues.slots
        (fields.flatMap (updateEntries session.schema entity key)) (resolved.map .ok)) entry := by
  induction fields generalizing store resolved with
  | nil =>
    obtain ⟨hnil, rfl⟩ := runs_runAll_nil_iff.mp hrun
    obtain rfl := List.map_eq_nil_iff.mp hnil
    exact ⟨by simp, fun _ => .of_rows_eq rfl, by simp⟩
  | cons entry rest ih =>
    obtain ⟨hfirst, hrest⟩ := List.forall_mem_cons.mp hconnects
    obtain ⟨hfresh, hlater⟩ := List.nodup_cons.mp hnodup
    cases hfirst with
    | many hsides hkind hitems =>
      obtain ⟨hafter, hresets, hreadied⟩ := ih hrest hlater htracks hown hrun hclean
      exact ⟨hafter, fun table => (hresets table).mono fun _ _ hclears =>
        hclears.mono (List.subset_cons_self _ _), List.forall_mem_cons.mpr ⟨.many _ _, hreadied⟩⟩
    | @one field sides given hsides hkind =>
      obtain ⟨htyped, -⟩ := RelationSides.typed_of_ofField hs hentity hsides
      have hnew : ∀ entry ∈ rest, entry.1 ≠ field := by
        rintro entry hmem rfl
        exact hfresh (List.mem_map.mpr ⟨entry, hmem, rfl⟩)
      rw [List.flatMap_cons, updateEntries_connect hsides hkind] at hrun ⊢
      obtain ⟨outcome, middle, others, hclaim, hmore, hsplit⟩ := runs_runAll_cons_iff.mp hrun
      cases resolved with
      | nil => cases hsplit
      | cons own more =>
        obtain ⟨rfl, rfl⟩ := List.cons.inj hsplit
        obtain ⟨hownClean, hmoreClean⟩ := List.forall_mem_cons.mp hclean
        obtain ⟨hnone, hresets, column, target, hclaims, htarget, hprepared⟩ :=
          prepared_of_resolvingUnder hs hkeys hentity hallowed hsides hkind htracks hown hclaim
            hownClean
        obtain ⟨hafter, hlaterResets, hreadied⟩ := ih hrest hlater
          (htracks.resets (fun _ => hresets _) (fun he => hapart.not_clears_key hentity he)
            fun _ _ _ => And.right)
          (hown.resets (hresets _) (hapart.not_clears_key hentity hentity)
            (hapart.not_clears_key hentity hentity)) hmore hmoreClean
        have hall (table : String) :
            store.Resets next table (entity.Clears (field :: Table.keys rest) table) :=
          ((hresets table).mono fun _ _ hclears => hclears.mono (by simp)).trans
            ((hlaterResets table).mono fun _ _ hclears => hclears.mono (by simp))
        refine ⟨List.forall_mem_cons.mpr ⟨hnone, hafter⟩, hall, List.forall_mem_cons.mpr
          ⟨?_, fun entry hmem => (hreadied entry hmem).cons (hnew entry hmem) _⟩⟩
        exact .one hsides hclaims
          (htarget.resets (hall _) (hapart.not_clears_key hentity htyped.target)
            (hapart.not_clears_key hentity htyped.target))
          (fun other => mem_cons_slots_iff hnew)
          (hprepared.resets (hlaterResets _) (hapart.not_clears_key hentity hentity)
            fun value hclears => hapart.not_sets_claim hentity hfresh hclaims hclears.1)

omit hkeys hallowed in
/-- The statement of the row sets the targets that its fields are readied for. -/
lemma claimed_of_ownWrite {fields : List (String × FieldInput)}
    {slots : List (String × Option Value)} {columns : List (Sql.ColumnRef × Sql.Expr)}
    {count : Option Nat}
    (hreadied : ∀ entry ∈ fields, Readied session.schema entity store key slots entry)
    (hslots : ∀ field value, (field, value) ∈ slots →
      field ∈ Table.keys fields ∧ ∃ column, entity.Claims field column)
    (htracks : store.Tracks session.schema)
    (hown : store.LeadsTo entity.tableName entity.primaryColumn entity.primaryColumn which key)
    (hcolumns : columnValues entity (FieldValues.present slots) = .ok columns)
    (hwrite : OwnWrite server allowed ⟨Sql.table entity.tableName, columns,
      some (onValue entity.primaryColumn key), []⟩ store count next) :
    (∀ table, store.Resets next table fun column _ =>
        entity.Sets (Table.keys fields) table column) ∧
      ∀ entry ∈ fields, Claimed session.schema entity next key entry := by
  obtain ⟨settings, rfl, hsettings⟩ := exists_settings hcolumns
  have hnext : next = store.settingAll entity.tableName entity.primaryColumn key settings := by
    cases hwrite with
    | nothing hvalues =>
      obtain rfl := List.map_eq_nil_iff.mp hvalues
      exact (store.settingAll_nil _ _ _).symm
    | sent _ _ hanswer =>
      cases (update?_of_answer hanswer).symm.trans
        (update?_onValue hown.holds key settings)
      rfl
  have hfield {column : String} {value : Value} (hmem : (column, value) ∈ settings) :
      ∃ field, (field, some value) ∈ slots ∧ field ∈ Table.keys fields ∧
        entity.Claims field column := by
    obtain ⟨field, hpresent, hcolumn⟩ := (hsettings column value).mp hmem
    have hslot := FieldValues.mem_of_mem_present hpresent
    obtain ⟨hkey, other, hclaims⟩ := hslots field _ hslot
    cases hcolumn.symm.trans hclaims.columnName
    exact ⟨field, hslot, hkey, hclaims⟩
  have hresets (table : String) : store.Resets next table fun column _ =>
      entity.Sets (Table.keys fields) table column := by
    rw [hnext]
    refine store.resets_settingAll _ _ key table fun pair hpair htable => ?_
    obtain ⟨field, -, hkey, hclaims⟩ := hfield hpair
    exact ⟨htable, field, hkey, hclaims⟩
  refine ⟨hresets, fun entry hentryMem => ?_⟩
  cases hreadied entry hentryMem with
  | many field items => exact .many field items
  | @one field column sides given target value hsides hclaims htarget hslot hprepared =>
    have htyped := (RelationSides.typed_of_ofField hs hentity hsides).1
    refine .one hsides hclaims (htarget.resets (hresets _)
      (fun _ => hapart.not_sets_key hentity htyped.target)
      fun _ => hapart.not_sets_key hentity htyped.target) ?_
    have hid : ∀ other, (entity.primaryColumn, other) ∉ settings := by
      intro other hmem
      obtain ⟨field, -, -, hkeyClaims⟩ := hfield hmem
      exact hapart.keys hentity hentity rfl hkeyClaims
    have hsame {other : Value} (hmem : (column, other) ∈ settings) : some other = value := by
      obtain ⟨name, hnameSlot, -, hnameClaims⟩ := hfield hmem
      rw [hapart.columns hentity hnameClaims hclaims] at hnameSlot
      exact (hslot _).mp hnameSlot
    rw [hnext]
    cases hprepared with
    | linked hlinked =>
      have hset : store.Resets (store.settingAll entity.tableName entity.primaryColumn key settings)
          entity.tableName fun name assigned => (name, assigned) ∈ settings :=
        store.resets_settingAll _ _ key _ fun pair hpair _ => hpair
      exact hlinked.resets hset hid fun other hmem => nomatch hsame hmem
    | free hfree =>
      have hpresent : (field, some target) ∈ slots := (hslot _).mpr rfl
      obtain ⟨⟨name, assigned⟩, hassigned, rfl⟩ :=
        List.mem_map.mp (FieldValues.mem_keys_present hpresent)
      have hsettled := (hslot _).mp (FieldValues.mem_of_mem_present hassigned)
      cases hsettled
      exact Store.leadsTo_of_settingAll hown hfree (htracks.claim hentity hclaims).holds
        htarget.present ((hsettings column target).mpr ⟨name, hassigned, hclaims.columnName⟩)
        (fun other hmem => Option.some.inj (hsame hmem)) hid

omit hkeys hapart hallowed in
/-- Only one-to-one relations have slots. -/
lemma claims_of_mem_slots {fields : List (String × FieldInput)}
    (hconnects : ∀ entry ∈ fields, Connects session.schema entity entry)
    {outcomes : List (Except Result (Resolved Rows))} {field : String} {value : Option Value}
    (h : (field, value) ∈ FieldValues.slots
      (fields.flatMap (updateEntries session.schema entity key)) outcomes) :
    field ∈ Table.keys fields ∧ ∃ column, entity.Claims field column := by
  obtain ⟨entry, hmem, rfl, hasks⟩ := mem_keys_of_mem_slots h
  refine ⟨List.mem_map.mpr ⟨entry, hmem, rfl⟩, ?_⟩
  cases hconnects entry hmem with
  | many => exact absurd rfl hasks
  | one given hsides hkind =>
    obtain ⟨joining, -, hclaims, -⟩ := exists_claims hs hentity hsides hkind
    exact ⟨_, hclaims⟩

/-- Once the values of a row are written without an error, it claims the targets that its data
connects it to. -/
lemma claimed_of_updateValues {fields : List (String × FieldInput)}
    (hconnects : ∀ entry ∈ fields, Connects session.schema entity entry)
    (hnodup : (Table.keys fields).Nodup) (htracks : store.Tracks session.schema)
    (hown : store.LeadsTo entity.tableName entity.primaryColumn entity.primaryColumn which key)
    {updated : Updated}
    (hrun : server.Runs allowed (session.updateValues (session.rows (depth + 1)) entity
      (fields.flatMap (updateEntries session.schema entity key))
      (onValue entity.primaryColumn key)).run store (.ok updated) next)
    (hclean : NoErrors updated.results) :
    (∀ table, store.Resets next table fun column _ =>
        entity.Sets (Table.keys fields) table column) ∧
      ∀ entry ∈ fields, Claimed session.schema entity next key entry := by
  obtain ⟨row, columns, middle, count, written, more, hresolve, hcolumns, hwrite, hmore, rfl⟩ :=
    Session.runs_updateValues_iff.mp hrun
  obtain ⟨hrowClean, hmoreClean⟩ := noErrors_append.mp hclean
  obtain ⟨resolved, hall, rfl⟩ := (FieldValues.runs_resolve_iff hrowClean).mp hresolve
  have hownClean : ∀ own ∈ resolved, NoErrors own.results := fun own hmem result hresult =>
    hrowClean result (List.mem_flatMap.mpr ⟨.ok own, List.mem_map_of_mem hmem, hresult⟩)
  obtain ⟨hafter, hresets, hreadied⟩ := readied_of_resolving hs hkeys hapart hentity hallowed
    hconnects hnodup htracks hown hall hownClean
  have hleft : (FieldValues.rowOf (fields.flatMap (updateEntries session.schema entity key))
      (resolved.map .ok)).after = [] := by
    refine List.filterMap_eq_nil_iff.mpr fun outcome hmem => ?_
    obtain ⟨own, hown, rfl⟩ := List.mem_map.mp hmem
    exact hafter own hown
  rw [hleft] at hmore
  obtain ⟨lists, hnil, -⟩ := (runs_collectAll_iff hmoreClean).mp hmore
  obtain ⟨-, rfl⟩ := runs_runAll_nil_iff.mp hnil
  obtain ⟨hset, hclaimed⟩ := claimed_of_ownWrite hs hapart hentity hreadied
    (fun _ _ => claims_of_mem_slots hs hentity hconnects)
    (htracks.resets (fun _ => hresets _) (fun he => hapart.not_clears_key hentity he)
      fun _ _ _ => And.right)
    (hown.resets (hresets _) (hapart.not_clears_key hentity hentity)
      (hapart.not_clears_key hentity hentity)) hcolumns hwrite
  exact ⟨fun table => ((hresets table).mono fun _ _ hclears => hclears.1).trans (hset table),
    hclaimed⟩

end Resolving

/-! ### Links in a junction -/

/-- The insertion that links the row to a target, whichever side owns the relation. -/
def RelatedRow.linking? (row : RelatedRow) (target : Value) : Option Sql.Insert :=
  match row.sides.kind with
  | .manyHasManyOwning =>
    row.sides.relation.joiningTable?.map fun table => table.linking row.primary target
  | .manyHasManyInverse =>
    (row.sides.paired.bind Relation.joiningTable?).map fun table => table.linking target row.primary
  | _ => none

/-- What the insertion of a link is on a server: it passes over conflicts beside the entities, and
there is a conflict as soon as its row is stored. -/
structure Links (server : Server) (schema : Schema) (row : RelatedRow) (target : Value)
    (insert : Sql.Insert) : Prop where
  linking : row.linking? target = some insert
  skips : insert.skipsConflicts = true
  beside : schema.IsBeside insert.table.name
  clash : ∀ new, server.newRow? insert = some new → server.Clash insert.table.name new new

/-- An item that is linked to its target: the target is found, and the insertion of the link is
blocked. -/
def Joined (server : Server) (schema : Schema) (store : Store) (row : RelatedRow)
    (item : ToManyItem) : Prop :=
  ∃ given target insert, item.input = .connect (byPrimary row.sides.target given) ∧
    store.LeadsTo row.sides.target.tableName row.sides.target.primaryColumn
      row.sides.target.primaryColumn given target ∧
    Links server schema row target insert ∧ server.Blocks store insert

section Links

variable {server : Server} {allowed : Effect.Request → Prop} {store next : Store}
  {session : Session} {depth : Nat} {row : RelatedRow} {target given : Value}
  {insert : Sql.Insert} {results : List Result}

/-- Many-to-many relations have the insertions that link their rows. -/
lemma exists_links {schema : Schema} (hapart : schema.StoresApart)
    (honce : server.LinksOnce schema) (htyped : row.sides.Typed schema)
    (hkind : row.sides.kind = .manyHasManyOwning ∨ row.sides.kind = .manyHasManyInverse)
    (hprimary : row.primary.isNull = false) (htarget : target.isNull = false) :
    ∃ insert, Links server schema row target insert := by
  have hlinks {owner : Entity} {relation : Relation} {table : JoiningTable} {first second : Value}
      (howner : schema.Declares owner) (hrelation : owner.relation relation.name = .ok relation)
      (htable : relation.joiningTable? = some table)
      (hlinking : row.linking? target = some (table.linking first second))
      (hfirst : first.isNull = false) (hsecond : second.isNull = false) :
      Links server schema row target (table.linking first second) :=
    ⟨hlinking, rfl, fun hentity => hapart.junctions howner hentity hrelation htable, fun _ hnew =>
      JoiningTable.clash_linking (honce howner hrelation htable) hfirst hsecond hnew⟩
  obtain hkind | hkind := hkind
  · obtain ⟨table, htable⟩ := Filter.joiningTable?_of_kind hkind
    refine ⟨_, hlinks htyped.entity htyped.relation htable ?_ hprimary htarget⟩
    simp only [RelatedRow.linking?, hkind, htable, Option.map_some]
  · obtain ⟨paired, hpaired, hpairs⟩ := htyped.paired (by rw [hkind]; rfl)
    have hpairedKind : paired.kind = .manyHasManyOwning := by
      rw [hpairs.kind, hkind]
      rfl
    obtain ⟨table, htable⟩ := Filter.joiningTable?_of_kind hpairedKind
    refine ⟨_, hlinks htyped.target hpairs.relation htable ?_ htarget hprimary⟩
    simp only [RelatedRow.linking?, hkind, hpaired, Option.bind_some, htable, Option.map_some]

/-- To connect the row by its junction is to send the insertion of the link. -/
lemma answered_connectJunction (h : row.linking? target = some insert) :
    ∃ owner relation first second, answered (session.rows (depth + 1))
      (row.connectJunction target) = session.execute (.insert insert) >>= fun count =>
        pure (Session.linkedResult owner relation first second .alreadyExists count) := by
  have hconnect {owner : Entity} {relation : Relation} {table : JoiningTable} {first second : Value}
      (htable : relation.joiningTable? = some table) :
      answered (session.rows (depth + 1)) (Rows.connect owner relation first second) =
        session.execute (.insert (table.linking first second)) >>= fun count =>
          pure (Session.linkedResult owner relation first second .alreadyExists count) :=
    (answered_ask _ _).trans (Session.connect_eq htable)
  have hrelink : row.connectJunction target = row.relink (.create .empty) target := rfl
  rw [RelatedRow.linking?] at h
  split at h
  · rename_i hkind
    obtain ⟨table, htable, rfl⟩ := Option.map_eq_some_iff.mp h
    rw [hrelink, RelatedRow.relink_owning hkind]
    exact ⟨_, _, _, _, hconnect htable⟩
  · rename_i hkind
    obtain ⟨table, hbind, rfl⟩ := Option.map_eq_some_iff.mp h
    obtain ⟨paired, hpaired, htable⟩ := Option.bind_eq_some_iff.mp hbind
    rw [hrelink, RelatedRow.relink_inverse hkind hpaired]
    exact ⟨_, _, _, _, hconnect htable⟩
  · cases h

/-- Once the row was connected by its junction, the insertion of the link is blocked. -/
lemma blocks_of_connectJunction (h : Links server session.schema row target insert)
    (hrun : server.Runs allowed (answered (session.rows (depth + 1))
      (row.connectJunction target)).run store (.ok results) next) :
    server.Blocks next insert ∧ store.Grows next session.schema.IsBeside := by
  obtain ⟨owner, relation, first, second, heq⟩ :=
    answered_connectJunction h.linking
  rw [heq, Server.runs_run_bind_ok_iff] at hrun
  obtain ⟨count, middle, hexecute, hdone⟩ := hrun
  obtain ⟨-, rfl⟩ := Server.runs_done_iff.mp hdone
  obtain ⟨-, reply, hanswer, hreply⟩ := Session.runs_execute_iff.mp hexecute
  obtain ⟨⟨inserted, after⟩, hinsert, hanswered⟩ := Option.bind_eq_some_iff.mp hanswer
  cases hanswered
  cases inserted with
  | error e => cases hreply
  | ok rows => exact Server.blocks_of_insert? hinsert h.clash h.beside

/-- Where it is blocked, connecting the row reports that the link exists, and changes nothing. -/
lemma runs_connectJunction (h : Links server session.schema row target insert)
    (hblocks : server.Blocks store insert) :
    server.Runs EffectRequest.SparesRows (answered (session.rows (depth + 1))
      (row.connectJunction target)).run store (.ok [.atRoot (.idle .alreadyExists)]) store := by
  obtain ⟨owner, relation, first, second, heq⟩ :=
    answered_connectJunction h.linking
  have hanswer : server.answer (.execute (.insert insert)) store = some (.ok 0, store) := by
    simp only [Server.answer, Server.insert?_of_blocks hblocks h.skips]
    rfl
  rw [heq]
  exact Server.runs_run_bind_ok_iff.mpr ⟨0, store,
    Session.runs_execute_iff.mpr ⟨trivial, _, hanswer, rfl⟩, Server.runs_done_iff.mpr ⟨rfl, rfl⟩⟩

end Links

/-! ### Items -/

lemma Joined.grows {server : Server} {schema : Schema} {store next : Store} {row : RelatedRow}
    {item : ToManyItem} (h : Joined server schema store row item)
    (hgrows : store.Grows next schema.IsBeside) (htarget : schema.Declares row.sides.target) :
    Joined server schema next row item := by
  obtain ⟨given, target, insert, hinput, hleads, hlinks, hblocks⟩ := h
  exact ⟨given, target, insert, hinput, hleads.grows hgrows htarget, hlinks, hblocks.grows hgrows⟩

/-- What the items of a field report, from a position on, if all of them are linked. -/
def alreadyLinked (field : String) (index : Nat) : List ToManyItem → List Result
  | [] => []
  | item :: rest => ⟨[.field field, .index index item.label], .idle .alreadyExists⟩ ::
      alreadyLinked field (index + 1) rest

/-- Nothing that is linked already is an error. -/
lemma noErrors_alreadyLinked (field : String) (index : Nat) (items : List ToManyItem) :
    NoErrors (alreadyLinked field index items) := by
  induction items generalizing index with
  | nil => exact noErrors_nil
  | cons item rest ih => exact noErrors_cons.mpr ⟨rfl, ih _⟩

section Items

variable {server : Server} {allowed : Effect.Request → Prop} {store next : Store}
  {session : Session} {depth : Nat} {row : RelatedRow} {item : ToManyItem}
  {items : List ToManyItem} {operations : List (Action Rows (List Result))} {index : Nat}

variable (hs : session.schema.WellFormed) (hkeys : session.schema.KeysAreColumns)
  (htyped : row.sides.Typed session.schema)
  (hkind : row.sides.kind = .manyHasManyOwning ∨ row.sides.kind = .manyHasManyInverse)

section First

variable (hapart : session.schema.StoresApart) (honce : server.LinksOnce session.schema)
  (hprimary : row.primary.isNull = false)
  (hallowed : ∀ request, EffectRequest.SparesRows request → allowed request)
include hs hkeys htyped hkind hapart honce hprimary hallowed

/-- A connect on a junction that reports no error links the row to its target. -/
lemma joined_of_junctionOperation (hconnect : ∃ given, item.input =
      .connect (byPrimary row.sides.target given)) (htells : store.KeysTell session.schema)
    {results : List Result} (hrun : server.Runs allowed (answered (session.rows (depth + 1))
      (row.junctionOperation item.input)).run store (.ok results) next)
    (hclean : NoErrors results) :
    Joined server session.schema next row item ∧ store.Grows next session.schema.IsBeside := by
  obtain ⟨given, hinput⟩ := hconnect
  rw [hinput, RelatedRow.junctionOperation, answered_bind, Server.runs_run_bind_ok_iff] at hrun
  obtain ⟨found, middle, hfound, hrun⟩ := hrun
  obtain ⟨heq, rfl⟩ := (Session.runs_primaryValue_iff (hkeys.columnName_primary hs htyped.target)
    (htells htyped.target).holds hallowed).mp hfound
  cases found with
  | none =>
    obtain ⟨hmissing, -⟩ := Server.runs_done_iff.mp hrun
    cases hmissing
    cases (noErrors_cons.mp hclean).1
  | some target =>
    have htarget := (htells htyped.target).leadsTo (Except.ok.inj heq).symm
    obtain ⟨insert, hlinks⟩ :=
      exists_links hapart honce htyped hkind hprimary htarget.present
    obtain ⟨hblocks, hgrows⟩ := blocks_of_connectJunction hlinks hrun
    exact ⟨⟨given, target, insert, hinput, htarget.grows hgrows htyped.target, hlinks, hblocks⟩,
      hgrows⟩

/-- Connects on a junction, one after another, link the row to their targets. -/
lemma joined_of_toManyFrom (hconnects : ∀ item ∈ items, ∃ given, item.input =
      .connect (byPrimary row.sides.target given)) (htells : store.KeysTell session.schema)
    (hoperations : row.toManyFrom index items = .ok operations) {lists : List (List Result)}
    (hrun : server.Runs allowed (runAll (session.rows (depth + 1)) operations) store
      (lists.map .ok) next) (hclean : ∀ results ∈ lists, NoErrors results) :
    (∀ item ∈ items, Joined server session.schema next row item) ∧
      store.Grows next session.schema.IsBeside := by
  induction items generalizing index store operations lists with
  | nil =>
    cases hoperations
    obtain ⟨-, rfl⟩ := runs_runAll_nil_iff.mp hrun
    exact ⟨by simp, .refl _ _⟩
  | cons item rest ih =>
    obtain ⟨hconnect, hrest⟩ := List.forall_mem_cons.mp hconnects
    obtain ⟨operation, hoperation, h⟩ := Except.bind_eq_ok.mp hoperations
    obtain ⟨others, hothers, h⟩ := Except.bind_eq_ok.mp h
    cases h
    cases (RelatedRow.toManyOperation_eq_junction index item hkind).symm.trans hoperation
    obtain ⟨outcome, middle, later, hfirst, hlater, hsplit⟩ := runs_runAll_cons_iff.mp hrun
    cases lists with
    | nil => cases hsplit
    | cons results more =>
      obtain ⟨rfl, rfl⟩ := List.cons.inj hsplit
      obtain ⟨hown, hmore⟩ := List.forall_mem_cons.mp hclean
      obtain ⟨inner, hinner, rfl⟩ := (runs_underPath_iff hown).mp hfirst
      obtain ⟨hjoined, hgrows⟩ := joined_of_junctionOperation hs hkeys htyped hkind hapart honce
        hprimary hallowed hconnect htells hinner (noErrors_allUnder.mp hown)
      obtain ⟨hall, hlast⟩ := ih hrest (htells.grows hgrows) hothers hlater hmore
      exact ⟨List.forall_mem_cons.mpr ⟨hjoined.grows hlast htyped.target, hall⟩,
        hgrows.trans hlast⟩

end First

include hs hkeys htyped in
/-- A connect of a row that is linked to its target reports that the link exists. -/
lemma runs_junctionOperation (hjoined : Joined server session.schema store row item) :
    server.Runs EffectRequest.SparesRows (answered (session.rows (depth + 1))
      (row.junctionOperation item.input)).run store (.ok [.atRoot (.idle .alreadyExists)])
      store := by
  obtain ⟨given, target, insert, hinput, hleads, hlinks, hblocks⟩ := hjoined
  rw [hinput, RelatedRow.junctionOperation, answered_bind]
  exact Server.runs_run_bind_ok_iff.mpr ⟨some target, store,
    Session.runs_primaryValue_of_leadsTo (hkeys.columnName_primary hs htyped.target) hleads,
    runs_connectJunction hlinks hblocks⟩

include hs hkeys htyped hkind in
/-- So do the connects of a row that is linked to all their targets. -/
lemma exists_runs_of_joined (depth index : Nat)
    (hjoined : ∀ item ∈ items, Joined server session.schema store row item) :
    ∃ operations, ∃ lists : List (List Result), row.toManyFrom index items = .ok operations ∧
      server.Runs EffectRequest.SparesRows (runAll (session.rows (depth + 1)) operations) store
        (lists.map .ok) store ∧
      lists.flatten = alreadyLinked row.sides.relation.name index items := by
  induction items generalizing index with
  | nil => exact ⟨[], [], rfl, runs_runAll_nil_iff.mpr ⟨rfl, rfl⟩, rfl⟩
  | cons item rest ih =>
    obtain ⟨hitem, hrest⟩ := List.forall_mem_cons.mp hjoined
    obtain ⟨operations, lists, hoperations, hruns, hlists⟩ := ih (index + 1) hrest
    have hreport : NoErrors (allUnder (row.sides.itemPath index item.label)
        [.atRoot (.idle .alreadyExists)]) := noErrors_cons.mpr ⟨rfl, noErrors_nil⟩
    refine ⟨_ :: operations, _ :: lists, ?_, runs_runAll_cons_iff.mpr ⟨_, store, lists.map .ok,
      (runs_underPath_iff hreport).mpr
        ⟨_, runs_junctionOperation hs hkeys htyped hitem, rfl⟩, hruns, rfl⟩, ?_⟩
    · exact Except.bind_eq_ok.mpr ⟨_, RelatedRow.toManyOperation_eq_junction index item hkind,
        Except.bind_eq_ok.mpr ⟨operations, hoperations, rfl⟩⟩
    · rw [List.flatten_cons, hlists]
      rfl

end Items

/-! ### Entries of data -/

/-- An entry whose links are stored. -/
inductive Linked (server : Server) (schema : Schema) (entity : Entity) (store : Store)
    (key : Value) : String × FieldInput → Prop
  | one {field : String} {input : ToOneInput}
      (h : Claimed schema entity store key (field, .one input)) :
      Linked server schema entity store key (field, .one input)
  | many {field : String} {sides : RelationSides} {items : List ToManyItem}
      (hsides : RelationSides.ofField schema entity field = .ok sides)
      (hkind : sides.kind = .manyHasManyOwning ∨ sides.kind = .manyHasManyInverse)
      (hitems : ∀ item ∈ items, Joined server schema store ⟨sides, key⟩ item) :
      Linked server schema entity store key (field, .many items)

section Entries

variable {server : Server} {allowed : Effect.Request → Prop} {store next : Store}
  {session : Session} {depth : Nat} {entity : Entity} {key : Value}

lemma Claimed.grows {schema : Schema} {entry : String × FieldInput} (hs : schema.WellFormed)
    (hentity : schema.Declares entity) (h : Claimed schema entity store key entry)
    (hgrows : store.Grows next schema.IsBeside) : Claimed schema entity next key entry := by
  cases h with
  | many field items => exact .many field items
  | one hsides hclaims htarget hlinked =>
    have htyped := (RelationSides.typed_of_ofField hs hentity hsides).1
    exact .one hsides hclaims (htarget.grows hgrows htyped.target) (hlinked.grows hgrows hentity)

lemma updateOperations_many {schema : Schema} {field : String} {sides : RelationSides}
    {items : List ToManyItem} {operations : List (Action Rows (List Result))}
    (hsides : RelationSides.ofField schema entity field = .ok sides)
    (hoperations : RelatedRow.toManyOperations ⟨sides, key⟩ items = .ok operations) :
    updateOperations schema entity key (field, .many items) = operations := by
  simp only [updateOperations, hsides, hoperations]

/-- A connect on a one-to-one relation asks for nothing beside the row. -/
lemma updateOperations_connect {schema : Schema} {field : String} {sides : RelationSides}
    (hsides : RelationSides.ofField schema entity field = .ok sides)
    (hkind : sides.kind = .oneHasOneOwning) (key : Value) (which : UniqueWhere) :
    updateOperations schema entity key (field, .one (.connect which)) = [] := by
  have hstep : stepOf schema entity key field (.connect which) =
      .ok (.column (.deferred (resolvingUnder sides.path (claimTarget sides which (some key))))) :=
    Except.bind_eq_ok.mpr ⟨sides, hsides, toOneStep_connect which key hkind⟩
  simp only [updateOperations, hstep]

variable (hs : session.schema.WellFormed) (hkeys : session.schema.KeysAreColumns)
  (hapart : session.schema.StoresApart) (honce : server.LinksOnce session.schema)
  (hentity : session.schema.Declares entity)
  (hallowed : ∀ request, EffectRequest.SparesRows request → allowed request)
include hs hkeys hapart honce hentity hallowed

/-- Operations beside a row that report no error complete the links of its data. -/
lemma linked_of_operations {fields : List (String × FieldInput)}
    (hconnects : ∀ entry ∈ fields, Connects session.schema entity entry)
    (hkey : key.isNull = false) (htells : store.KeysTell session.schema)
    (hclaimed : ∀ entry ∈ fields, Claimed session.schema entity store key entry)
    {lists : List (List Result)}
    (hrun : server.Runs allowed (runAll (session.rows (depth + 1))
      (fields.flatMap (updateOperations session.schema entity key))) store (lists.map .ok) next)
    (hclean : ∀ results ∈ lists, NoErrors results) :
    (∀ entry ∈ fields, Linked server session.schema entity next key entry) ∧
      store.Grows next session.schema.IsBeside := by
  induction fields generalizing store lists with
  | nil =>
    obtain ⟨-, rfl⟩ := runs_runAll_nil_iff.mp hrun
    exact ⟨by simp, .refl _ _⟩
  | cons entry rest ih =>
    obtain ⟨hfirst, hrest⟩ := List.forall_mem_cons.mp hconnects
    obtain ⟨hown, hothers⟩ := List.forall_mem_cons.mp hclaimed
    rw [List.flatMap_cons] at hrun
    cases hfirst with
    | one given hsides hkind =>
      rw [updateOperations_connect hsides hkind, List.nil_append] at hrun
      obtain ⟨hlinked, hgrows⟩ := ih hrest htells hothers hrun hclean
      exact ⟨List.forall_mem_cons.mpr ⟨.one (hown.grows hs hentity hgrows), hlinked⟩, hgrows⟩
    | @many field sides items hsides hkind hitems =>
      obtain ⟨htyped, -⟩ := RelationSides.typed_of_ofField hs hentity hsides
      have haccepts (index : Nat) (item : ToManyItem) : ∃ operation,
          RelatedRow.toManyOperation ⟨sides, key⟩ index item = .ok operation :=
        ⟨_, RelatedRow.toManyOperation_eq_junction index item hkind⟩
      obtain ⟨operations, hoperations⟩ := RelatedRow.exists_toManyFrom haccepts 0 items
      rw [updateOperations_many hsides hoperations] at hrun
      obtain ⟨first, middle, second, hitemsRun, hmore, hsplit⟩ := runs_runAll_append_iff.mp hrun
      obtain ⟨own, others, rfl, rfl, rfl⟩ := List.map_eq_append_iff.mp hsplit
      obtain ⟨hownClean, hmoreClean⟩ := List.forall_mem_append.mp hclean
      obtain ⟨hjoined, hgrows⟩ := joined_of_toManyFrom hs hkeys htyped hkind hapart honce hkey
        hallowed hitems htells hoperations hitemsRun hownClean
      obtain ⟨hlinked, hlast⟩ := ih hrest (htells.grows hgrows)
        (fun entry hmem => (hothers entry hmem).grows hs hentity hgrows) hmore hmoreClean
      exact ⟨List.forall_mem_cons.mpr ⟨.many hsides hkind fun item hmem =>
        (hjoined item hmem).grows hlast htyped.target, hlinked⟩, hgrows.trans hlast⟩

end Entries

end Mutation

end EntityGraph
