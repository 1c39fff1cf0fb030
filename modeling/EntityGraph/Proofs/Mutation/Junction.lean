import EntityGraph.Proofs.Filter.Negation
import EntityGraph.Proofs.Mutation.Batch
import EntityGraph.Proofs.Mutation.OwnStatement
import EntityGraph.Proofs.Mutation.Typing
import EntityGraph.Script.Database
/-!
# The two sides of a many-to-many relation

An input on a many-to-many relation finds or writes a row of the target, and ends in one statement
on the junction table. The statement has the key of the owner in front, whichever side the input is
on. A restriction of either side by the key of the other one holds of the rows that have the entry
which the statement of a connection writes.
-/
namespace EntityGraph

open Mutation

/-! ### Statements on junction tables -/

namespace JoiningTable

variable (table : JoiningTable) (ownerKey targetKey : Value)

/-- Inserts the entry of two rows, unless it is there. -/
def linking : Sql.Insert :=
  ⟨Sql.table table.tableName,
    [(Sql.column table.joiningColumn.columnName, .param ownerKey),
      (Sql.column table.inverseJoiningColumn.columnName, .param targetKey)], true, []⟩

def unlinkingExprs : List Sql.Expr :=
  [.equals (.column (Sql.column table.joiningColumn.columnName)) (.param ownerKey),
    .equals (.column (Sql.column table.inverseJoiningColumn.columnName)) (.param targetKey)]

/-- Removes the entry of two rows. -/
def unlinking : Sql.Delete :=
  ⟨Sql.table table.tableName, some (.and (table.unlinkingExprs ownerKey targetKey)), []⟩

/-- The statement that an input comes to; all but a disconnection link the rows. -/
def statement : ToManyInput → Sql.Query
  | .disconnect _ => .delete (table.unlinking ownerKey targetKey)
  | _ => .insert (table.linking ownerKey targetKey)

end JoiningTable

namespace Mutation

variable {session : Session} {owner : Entity} {relation : Relation} {table : JoiningTable}
  {ownerKey targetKey : Value} {trace : List (Program.Exchange Effect)}

namespace Session

variable (h : relation.joiningTable? = some table)
include h

lemma connect_eq : session.connect owner relation ownerKey targetKey =
    session.execute (.insert (table.linking ownerKey targetKey)) >>= fun count =>
      pure (linkedResult owner relation ownerKey targetKey .alreadyExists count) := by
  simp only [connect, junction, h]
  rfl

lemma disconnect_eq : session.disconnect owner relation ownerKey targetKey =
    session.execute (.delete (table.unlinking ownerKey targetKey)) >>= fun count =>
      pure (linkedResult owner relation ownerKey targetKey .emptyRelation count) := by
  simp only [disconnect, junction, h]
  rfl

end Session

/-- The action comes to something along the trace. -/
def Ends {I : Interface} {α : Type} (action : Action I α) (trace : List (Program.Exchange I)) :
    Prop :=
  ∃ outcome, action.run.Reaches trace (.done outcome)

section Ends

variable {I : Interface} {α β : Type} {action : Action I α} {calls : List (Program.Exchange I)}

/-- What is made of what an action comes to does not change its runs. -/
lemma ends_bind_pure_iff {f : α → β} : Ends (action >>= fun a => pure (f a)) calls ↔
    Ends action calls := by
  constructor
  · rintro ⟨outcome, h⟩
    obtain ⟨e, hfailed, -⟩ | ⟨first, a, second, hfirst, hsecond, rfl⟩ :=
      Program.run_bind_reaches_done_iff.mp h
    · exact ⟨_, hfailed⟩
    · obtain ⟨rfl, -⟩ := Program.done_reaches_iff.mp hsecond
      rw [List.append_nil]
      exact ⟨_, hfirst⟩
  · rintro ⟨a | a, h⟩
    · exact ⟨_, h.run_bind_error⟩
    · exact ⟨_, h.run_bind_done rfl⟩

/-- After a complete run of the first part, what is left is a run of the second. -/
lemma ends_append_iff {next : α → Action I β} {first second : List (Program.Exchange I)} {a : α}
    (h : action.run.Reaches first (.done (.ok a))) :
    Ends (action >>= next) (first ++ second) ↔ Ends (next a) second :=
  exists_congr fun _ => ⟨fun hrun => hrun.of_run_bind_prefix h, h.run_bind⟩

end Ends

lemma ends_underPath_iff {rows : RowAnswers} {path : Path} {operation : Action Rows (List Result)} :
    Ends (answered rows (underPath path operation)) trace ↔ Ends (answered rows operation) trace := by
  constructor
  · rintro ⟨outcome, h⟩
    obtain ⟨own, hown, -⟩ := underPath_reaches_iff.mp h
    exact ⟨own, hown⟩
  · rintro ⟨own, hown⟩
    exact ⟨_, underPath_reaches_iff.mpr ⟨own, hown, rfl⟩⟩

lemma Session.ends_execute_iff {query : Sql.Query} :
    Ends (session.execute query) trace ↔ ∃ reply, trace = [⟨.execute query, reply⟩] := by
  constructor
  · rintro ⟨outcome, h⟩
    obtain ⟨reply, htrace, -⟩ := execute_reaches_iff.mp h
    exact ⟨reply, htrace⟩
  · rintro ⟨reply, htrace⟩
    exact ⟨_, execute_reaches_iff.mpr ⟨reply, htrace, rfl⟩⟩

/-- Links two rows as an input on their relation asks for, or takes the link away. -/
def Rows.relink (owner : Entity) (relation : Relation) (ownerKey targetKey : Value) :
    ToManyInput → Action Rows (List Result)
  | .disconnect _ => Rows.disconnect owner relation ownerKey targetKey
  | _ => Rows.connect owner relation ownerKey targetKey

/-- Two rows are relinked by one statement. -/
lemma ends_relink_iff (h : relation.joiningTable? = some table) {depth : Nat}
    (input : ToManyInput) :
    Ends (answered (session.rows (depth + 1))
        (Rows.relink owner relation ownerKey targetKey input)) trace ↔
      ∃ reply, trace = [⟨.execute (table.statement ownerKey targetKey input), reply⟩] := by
  have hconnect : answered (session.rows (depth + 1))
      (Rows.connect owner relation ownerKey targetKey) =
        session.connect owner relation ownerKey targetKey := answered_ask _ _
  have hdisconnect : answered (session.rows (depth + 1))
      (Rows.disconnect owner relation ownerKey targetKey) =
        session.disconnect owner relation ownerKey targetKey := answered_ask _ _
  cases input with
  | disconnect which =>
    rw [Rows.relink, hdisconnect, Session.disconnect_eq h, ends_bind_pure_iff,
      Session.ends_execute_iff]
    rfl
  | _ =>
    show Ends (answered _ (Rows.connect owner relation ownerKey targetKey)) trace ↔ _
    rw [hconnect, Session.connect_eq h, ends_bind_pure_iff, Session.ends_execute_iff]
    rfl

/-! ### Inputs on either side -/

namespace RelatedRow

def prepareInsert (row : RelatedRow) (data : Data) :
    Action Rows (Option Value × List Result) := do
  let results ← Rows.insert row.sides.target data
  return (createdKey? results, results)

def prepareUpdate (row : RelatedRow) (target : Value) (data : Data) :
    Action Rows (Option Value × List Result) := do
  return (some target, ← Rows.update row.sides.target (row.targetKey target) data)

/-- What an input on a many-to-many relation asks for before the junction table: the key of the
target, if there is one to relink, and the results so far. -/
def prepare (row : RelatedRow) (input : ToManyInput) : Action Rows (Option Value × List Result) :=
  let find := Rows.primaryValue row.sides.target
  match input with
  | .connect which | .disconnect which => do
    match ← find which with
    | some target => return (some target, [])
    | none => return (none, missing which)
  | .create data => row.prepareInsert data
  | .update which data => do
    match ← find which with
    | some target => row.prepareUpdate target data
    | none => return (none, missing which)
  | .upsert which update create => do
    match ← find which with
    | some target => row.prepareUpdate target update
    | none => row.prepareInsert create
  | .delete which => do return (none, ← Rows.delete row.sides.target which)

/-- Relinks the row with the key of a target. -/
def relink (row : RelatedRow) (input : ToManyInput) (target : Value) :
    Action Rows (List Result) :=
  match input with
  | .disconnect _ => row.disconnectJunction target
  | _ => row.connectJunction target

/-- What follows the preparation of an input. -/
def conclude (row : RelatedRow) (input : ToManyInput) :
    Option Value × List Result → Action Rows (List Result)
  | (some target, results) => row.relink input target >>= fun linked => pure (results ++ linked)
  | (none, results) => pure results

variable {row : RelatedRow} {input : ToManyInput} {found : Value}

lemma junctionOperation_eq (row : RelatedRow) (input : ToManyInput) :
    row.junctionOperation input = row.prepare input >>= row.conclude input := by
  have hinsert (data : Data) : row.insertLinked data = row.prepareInsert data >>= fun prepared =>
      row.conclude (.create data) prepared := by
    rw [insertLinked, prepareInsert, bind_assoc]
    refine bind_congr fun results => ?_
    cases createdKey? results <;> simp [conclude, relink]
  have hupdate (target : Value) (data : Data) : row.updateLinked target data =
      row.prepareUpdate target data >>= fun prepared =>
        row.conclude (.create data) prepared := by
    simp [updateLinked, prepareUpdate, conclude, relink]
  cases input with
  | connect which =>
    rw [junctionOperation, prepare, bind_assoc]
    refine bind_congr fun found => ?_
    cases found <;> simp [conclude, relink]
  | disconnect which =>
    rw [junctionOperation, prepare, bind_assoc]
    refine bind_congr fun found => ?_
    cases found <;> simp [conclude, relink]
  | create data => exact hinsert data
  | update which data =>
    rw [junctionOperation, prepare, bind_assoc]
    refine bind_congr fun found => ?_
    cases found with
    | some target => exact hupdate target data
    | none => rfl
  | upsert which data create =>
    rw [junctionOperation, prepare, bind_assoc]
    refine bind_congr fun found => ?_
    cases found with
    | some target => exact hupdate target data
    | none => exact hinsert create
  | delete which => simp [junctionOperation, prepare, conclude]

lemma relink_owning (h : row.sides.kind = .manyHasManyOwning) : row.relink input found =
    Rows.relink row.sides.entity row.sides.relation row.primary found input := by
  cases input <;> simp [relink, Rows.relink, connectJunction, disconnectJunction, h]

lemma relink_inverse (h : row.sides.kind = .manyHasManyInverse)
    (hpaired : row.sides.paired = some relation) : row.relink input found =
      Rows.relink row.sides.target relation found row.primary input := by
  have hpair : (liftExcept row.sides.pair : Action Rows Relation) = pure relation := by
    rw [RelationSides.pair, hpaired]
    rfl
  cases input <;> simp [relink, Rows.relink, connectJunction, disconnectJunction, h, hpair]

/-- An input on the row sends the query to the junction table. Wherever its item stands, once it
is prepared and a target was found, what is left of a run is the query with an answer to it. -/
def SendsTo (session : Session) (row : RelatedRow) (input : ToManyInput) (found : Value)
    (query : Sql.Query) : Prop :=
  ∀ index label, ∃ operation, row.toManyOperation index ⟨label, input⟩ = .ok operation ∧
    ∀ depth prepared results,
      (answered (session.rows (depth + 1)) (row.prepare input)).run.Reaches prepared
        (.done (.ok (some found, results))) →
      ∀ rest, Ends (answered (session.rows (depth + 1)) operation) (prepared ++ rest) ↔
        ∃ reply, rest = [⟨.execute query, reply⟩]

lemma sendsTo_of_relink
    (hkind : row.sides.kind = .manyHasManyOwning ∨ row.sides.kind = .manyHasManyInverse)
    (h : row.relink input found = Rows.relink owner relation ownerKey targetKey input)
    (htable : relation.joiningTable? = some table) :
    row.SendsTo session input found (table.statement ownerKey targetKey input) := by
  intro index label
  refine ⟨underPath (row.sides.itemPath index label) (row.junctionOperation input), ?_, ?_⟩
  · rcases hkind with hkind | hkind <;> simp [toManyOperation, hkind]
  · intro depth prepared results hprepared rest
    rw [ends_underPath_iff, junctionOperation_eq, answered_bind, ends_append_iff hprepared,
      conclude, h, answered_bind]
    show Ends (_ >>= fun linked => pure (results ++ linked)) rest ↔ _
    rw [ends_bind_pure_iff, ends_relink_iff htable]

end RelatedRow

end Mutation

/-! ### Restrictions by the key of the other side -/

/-- Whether the row has a value in the column that is equal to the given one. -/
def Row.Has (row : Row) (column : String) (value : Value) : Prop :=
  ∃ stored, row.find? column = some stored ∧ Comparison.equal.test stored value = .holds

/-- Whether the row is the entry of two rows with the keys. -/
def JoiningTable.Joins (table : JoiningTable) (entry : Row) (ownerKey targetKey : Value) : Prop :=
  entry.Has table.joiningColumn.columnName ownerKey ∧
    entry.Has table.inverseJoiningColumn.columnName targetKey

/-- Whether the table has a row with all the values that the insertion writes. -/
def Store.HasWritten (store : Store) (insert : Sql.Insert) : Prop :=
  ∃ row ∈ store.rows insert.table.name, ∀ pair ∈ insert.values,
    ∃ value, pair.2.value? [] = some value ∧ row.Has pair.1.name value

namespace Row

variable {row other : Row} {column otherColumn : String} {value : Value}

instance : Decidable (row.Has column value) :=
  match h : row.find? column with
  | some stored =>
    decidable_of_iff (Comparison.equal.test stored value = .holds) (by simp [Has, h])
  | none => isFalse (by simp [Has, h])

/-- To agree with a value is to have a value that is equal to it. -/
lemma agree_iff_has (h : other.find? otherColumn = some value) :
    row.Agree column other otherColumn ↔ row.Has column value := by
  constructor
  · rintro ⟨a, b, ha, hb, hab⟩
    cases h.symm.trans hb
    exact ⟨a, ha, hab⟩
  · rintro ⟨a, ha, hab⟩
    exact ⟨a, value, ha, h, hab⟩

lemma Agree.has (h : row.Agree column other otherColumn) (hother : other.Has otherColumn value) :
    row.Has column value := by
  obtain ⟨a, b, ha, hb, hab⟩ := h
  obtain ⟨_, hb', hvalue⟩ := hother
  cases hb.symm.trans hb'
  exact ⟨a, ha, Comparison.equal_test_trans hab hvalue⟩

end Row

instance {table : JoiningTable} {entry : Row} {ownerKey targetKey : Value} :
    Decidable (table.Joins entry ownerKey targetKey) :=
  inferInstanceAs (Decidable (_ ∧ _))

namespace Store

variable {store : Store} {table : JoiningTable} {ownerKey targetKey : Value}

lemma truth?_equals (store : Store) (name : String) {column : String} {row : Row} {stored : Value}
    (h : row.find? column = some stored) (value : Value) :
    (Sql.Expr.equals (.column (Sql.column column)) (.param value)).truth? store [(name, row)] =
      some (Comparison.equal.test stored value) := by
  have htruth : ((Condition.compare .equal value).toTree (Sql.column column)).truth? store
      [(name, row)] = some (Comparison.equal.test stored value) :=
    Condition.truth?_toTree h (.compare .equal value)
  exact htruth

lemma hasWritten_linking_iff : store.HasWritten (table.linking ownerKey targetKey) ↔
    ∃ entry ∈ store.rows table.tableName, table.Joins entry ownerKey targetKey := by
  simp [HasWritten, JoiningTable.linking, JoiningTable.Joins, Sql.table, Sql.column]

section Unlinking

variable (hcolumns : ∀ entry ∈ store.rows table.tableName,
  (∃ value, entry.find? table.joiningColumn.columnName = some value) ∧
    ∃ value, entry.find? table.inverseJoiningColumn.columnName = some value)
include hcolumns

/-- A disconnection is about the entries of the two rows. -/
lemma chooses_unlinking (ownerKey targetKey : Value) :
    Chooses store table.tableName (.and (table.unlinkingExprs ownerKey targetKey))
      fun entry => table.Joins entry ownerKey targetKey := by
  intro entry hentry
  obtain ⟨⟨this, hthis⟩, that, hthat⟩ := hcolumns entry hentry
  have hfirst := truth?_equals store table.tableName hthis ownerKey
  have hsecond := truth?_equals store table.tableName hthat targetKey
  have htruths : ∀ expr ∈ table.unlinkingExprs ownerKey targetKey,
      (expr.truth? store [(table.tableName, entry)]).isSome := by
    simp [JoiningTable.unlinkingExprs, hfirst, hsecond]
  obtain ⟨hsome, hholds⟩ := Sql.truth?_and htruths
  refine ⟨hsome, hholds.trans ?_⟩
  simp [JoiningTable.unlinkingExprs, hfirst, hsecond, JoiningTable.Joins, Row.Has, hthis, hthat]

/-- A disconnection removes the entries of the two rows, and no others. -/
theorem delete?_unlinking :
    ∃ set, store.delete? (table.unlinking ownerKey targetKey) =
      some (set, store.withRows table.tableName
        ((store.rows table.tableName).filter fun entry => ¬table.Joins entry ownerKey targetKey)) := by
  obtain ⟨chosen, hchosen, heq⟩ := chosen?_eq (chooses_unlinking hcolumns ownerKey targetKey)
  have hrest : (store.rows table.tableName).filter (!chosen ·) =
      (store.rows table.tableName).filter fun entry => ¬table.Joins entry ownerKey targetKey :=
    List.filter_congr fun entry hentry => by simp [heq entry hentry]
  have hreturned : ∃ set, Store.returned? [] ((store.rows table.tableName).filter chosen) =
      some set := by
    have hvalues : ((store.rows table.tableName).filter chosen).mapM (fun row : Row =>
        ([] : List Sql.ColumnRef).mapM fun column => row.find? column.name) = some _ :=
      mapM_eq_some_map fun row _ => rfl
    rw [Store.returned?, hvalues]
    exact ⟨_, rfl⟩
  obtain ⟨set, hset⟩ := hreturned
  refine ⟨set, ?_⟩
  simp only [delete?, JoiningTable.unlinking, hchosen, Option.bind_eq_bind, Option.bind_some]
  rw [show (Sql.table table.tableName).name = table.tableName from rfl, hset, hrest]
  rfl

/-- Rows that were disconnected have no entry. -/
theorem not_hasWritten_of_unlinking {set : Database.ResultSet} {next : Store}
    (h : store.delete? (table.unlinking ownerKey targetKey) = some (set, next)) :
    ¬next.HasWritten (table.linking ownerKey targetKey) := by
  obtain ⟨_, hdelete⟩ := delete?_unlinking hcolumns
  cases h.symm.trans hdelete
  rw [hasWritten_linking_iff]
  rintro ⟨entry, hentry, hjoins⟩
  rw [rows_withRows, if_pos rfl, List.mem_filter] at hentry
  exact of_decide_eq_true hentry.2 hjoins

end Unlinking

/-- Of the rows that have a key, some one agrees with an entry exactly if the entry has the key. -/
lemma exists_agree_iff {tableName column primary : String} {entry row : Row} {key : Value}
    (hrow : row ∈ store.rows tableName) (hkey : row.find? primary = some key) :
    (∃ other ∈ store.rows tableName, entry.Agree column other primary ∧ other.Has primary key) ↔
      entry.Has column key := by
  constructor
  · rintro ⟨other, -, hagree, hother⟩
    exact hagree.has hother
  · intro hentry
    obtain ⟨stored, -, hequal⟩ := id hentry
    have hself : row.Has primary key :=
      ⟨key, hkey, Comparison.equal_test_trans (Comparison.equal_test_comm.mp hequal) hequal⟩
    exact ⟨row, hrow, (Row.agree_iff_has hkey).mpr hentry, hself⟩

section Linked

variable {schema : Schema} {owner target : Entity} {relation inverse : Relation} {row other : Row}
  (htable : relation.joiningTable? = some table)
  (hrowKey : row.find? owner.primaryColumn = some ownerKey)
  (hotherKey : other.find? target.primaryColumn = some targetKey)
include htable hrowKey hotherKey

/-- The row of the owner is linked to a target with the key by the entry that links the two. -/
lemma exists_target_iff (hother : other ∈ store.rows target.tableName) :
    (∃ linked ∈ store.rows target.tableName,
        relation.Linked schema store owner target row linked ∧
          linked.Has target.primaryColumn targetKey) ↔
      store.HasWritten (table.linking ownerKey targetKey) := by
  rw [hasWritten_linking_iff]
  constructor
  · rintro ⟨linked, hlinked, hlink, hkey⟩
    obtain ⟨entry, hentry, hthis, hthat⟩ := (Relation.linked_iff_of_junction htable).mp hlink
    exact ⟨entry, hentry, (Row.agree_iff_has hrowKey).mp (Row.agree_comm.mp hthis),
      hthat.has hkey⟩
  · rintro ⟨entry, hentry, hthis, hthat⟩
    obtain ⟨linked, hlinked, hagree, hkey⟩ := (exists_agree_iff hother hotherKey).mpr hthat
    have hmine := Row.agree_comm.mp ((Row.agree_iff_has hrowKey).mpr hthis)
    exact ⟨linked, hlinked,
      (Relation.linked_iff_of_junction htable).mpr ⟨entry, hentry, hmine, hagree⟩, hkey⟩

/-- So is the row of the target, on the inverse relation, to an owner with the key. -/
lemma exists_owner_iff (hrow : row ∈ store.rows owner.tableName)
    (hkind : inverse.kind.isOwning = false)
    (hpaired : schema.targetRelation inverse = .ok (some relation)) :
    (∃ linked ∈ store.rows owner.tableName,
        inverse.Linked schema store target owner other linked ∧
          linked.Has owner.primaryColumn ownerKey) ↔
      store.HasWritten (table.linking ownerKey targetKey) := by
  simp only [Relation.linked_iff_of_inverse hkind hpaired (Relation.isOwning_of_junction htable)]
  rw [hasWritten_linking_iff]
  constructor
  · rintro ⟨linked, hlinked, hlink, hkey⟩
    obtain ⟨entry, hentry, hthat, hthis⟩ := (Relation.linked_iff_of_junction htable).mp hlink
    exact ⟨entry, hentry, (Row.agree_comm.mp hthat).has hkey,
      (Row.agree_iff_has hotherKey).mp hthis⟩
  · rintro ⟨entry, hentry, hthat, hthis⟩
    obtain ⟨linked, hlinked, hagree, hkey⟩ := (exists_agree_iff hrow hrowKey).mpr hthat
    have hmine := (Row.agree_iff_has hotherKey).mpr hthis
    exact ⟨linked, hlinked, (Relation.linked_iff_of_junction htable).mpr
      ⟨entry, hentry, Row.agree_comm.mp hagree, hmine⟩, hkey⟩

end Linked

end Store

namespace Filter

variable {schema : Schema} {store : Store} {entity target : Entity} {name field : String}
  {relation : Relation}

/-- The rows that are linked to a row with the key. -/
def onKey (field : String) (target : Entity) (key : Value) : Filter :=
  onRelation field (onColumn target.primary (.compare .equal key))

lemma reads_onKey (hs : schema.WellFormed) (he : schema.entity name = .ok entity)
    (hr : entity.relation field = .ok relation) (ht : schema.targetEntity relation = .ok target)
    (hk : relation.kind = .manyHasManyOwning ∨ relation.kind = .manyHasManyInverse)
    (hprimary : target.columnName target.primary = .ok target.primaryColumn) (key : Value) :
    ∃ tree, toTree schema entity (onKey field target key) = .ok tree ∧
      ∀ store : Store, store.HasColumns schema → Reads store entity.tableName True tree fun row =>
        ∃ other ∈ store.rows target.tableName,
          relation.Linked schema store entity target row other ∧
            other.Has target.primaryColumn key := by
  have hinner := toTree_onColumn schema hprimary (.compare .equal key)
  obtain ⟨tree, htree⟩ : ∃ tree, toTree schema entity (onKey field target key) = .ok tree := by
    rw [onKey, toTree_onRelation hr ht]
    exact exists_relationTree hs he hr ht ⟨_, hinner⟩
  refine ⟨tree, htree, fun store hc => ?_⟩
  rw [onKey, toTree_onRelation hr ht] at htree
  refine reads_junction hs hc he hr ht hk htree fun inner h => ?_
  cases hinner.symm.trans h
  exact reads_column (hc.primary ht) (.compare .equal key)

end Filter

/-! ### Both sides -/

section Sides

variable {schema : Schema} {name field : String} {entity target : Entity}
  {relation paired : Relation}

/-- The key field of an entity is stored in the key column. -/
lemma Schema.KeysAreColumns.columnName_primary (hkeys : schema.KeysAreColumns)
    (hs : schema.WellFormed) (he : schema.entity name = .ok entity) :
    entity.columnName entity.primary = .ok entity.primaryColumn := by
  obtain ⟨column, hcolumn⟩ := hkeys name entity he
  have hfield := Entity.columnName_of_column (Entity.field_of_column hcolumn)
  have hmem := Table.mem_of_find? (Entity.column_eq_ok.mp hcolumn)
  rw [hfield, (hs.wellFormed he).primary_columnName column hmem]

/-- A relation that another one is paired with leads back to the entity of that one. -/
lemma Schema.WellFormed.leads_back (hs : schema.WellFormed) (he : schema.entity name = .ok entity)
    (hr : entity.relation field = .ok relation) (ht : schema.targetEntity relation = .ok target)
    (hp : schema.targetRelation relation = .ok (some paired)) :
    target.relation paired.name = .ok paired ∧ schema.targetEntity paired = .ok entity ∧
      paired.kind = relation.kind.opposite := by
  cases hname : relation.pairedName? with
  | none =>
    rw [Schema.targetRelation, ht] at hp
    simp only [hname, bind, Except.bind] at hp
    cases hp
  | some pairedName =>
    obtain ⟨other, hother, hlooked, hkind, htarget⟩ := hs.paired he hr hname ht
    cases hp.symm.trans hlooked
    refine ⟨?_, ?_, hkind⟩
    · rw [(hs.wellFormed ht).relation_name hother]
      exact hother
    · rw [Schema.targetEntity, htarget]
      exact he

lemma RelationSides.targetRelation_of_ofField {sides : RelationSides}
    (h : RelationSides.ofField schema entity field = .ok sides) :
    schema.targetRelation sides.relation = .ok sides.paired := by
  obtain ⟨relation, -, hsides⟩ := Except.bind_eq_ok.mp (Except.eq_ok_of_mapError h)
  obtain ⟨target, -, hsides⟩ := Except.bind_eq_ok.mp hsides
  obtain ⟨paired, hpaired, hsides⟩ := Except.bind_eq_ok.mp hsides
  cases hsides
  exact hpaired

end Sides

namespace Mutation

/-- What the relation of the owner and its inverse come to for two rows with the keys. -/
structure SidesAgree (session : Session) (owner : Entity) (field : String) (target : Entity)
    (inverseField : String) (table : JoiningTable) (ownerKey targetKey : Value) : Prop where
  /-- Inputs on either row send the same statements to the junction table. -/
  sent : ∃ here there, RelationSides.ofField session.schema owner field = .ok here ∧
    RelationSides.ofField session.schema target inverseField = .ok there ∧
    ∀ input,
      RelatedRow.SendsTo session ⟨here, ownerKey⟩ input targetKey
          (table.statement ownerKey targetKey input) ∧
        RelatedRow.SendsTo session ⟨there, targetKey⟩ input ownerKey
          (table.statement ownerKey targetKey input)
  /-- The restriction of either row by the key of the other one is true if the junction table has
  the entry that a connection writes, and only then. -/
  read : ∃ ofOwner ofTarget,
    (Filter.onKey field target targetKey).toTree session.schema owner = .ok ofOwner ∧
    (Filter.onKey inverseField owner ownerKey).toTree session.schema target = .ok ofTarget ∧
    ∀ store : Store, store.HasColumns session.schema →
      ∀ row ∈ store.rows owner.tableName, ∀ other ∈ store.rows target.tableName,
        row.find? owner.primaryColumn = some ownerKey →
        other.find? target.primaryColumn = some targetKey →
        (ofOwner.truth? store [(owner.tableName, row)] = some .holds ↔
            store.HasWritten (table.linking ownerKey targetKey)) ∧
          (ofTarget.truth? store [(target.tableName, other)] = some .holds ↔
            store.HasWritten (table.linking ownerKey targetKey))

/-- It makes no difference on which side of a many-to-many relation two rows are linked, or found
to be linked. -/
theorem sidesAgree_of_inverse {session : Session} (hs : session.schema.WellFormed)
    (hkeys : session.schema.KeysAreColumns) {name field : String} {owner target : Entity}
    {relation inverse : Relation} (ht : session.schema.entity name = .ok target)
    (hinverse : target.relation field = .ok inverse)
    (howner : session.schema.targetEntity inverse = .ok owner)
    (hpaired : session.schema.targetRelation inverse = .ok (some relation))
    (hkind : relation.kind = .manyHasManyOwning) (ownerKey targetKey : Value) :
    ∃ table, relation.joiningTable? = some table ∧
      SidesAgree session owner relation.name target field table ownerKey targetKey := by
  obtain ⟨hrelation, htarget, hopposite⟩ := hs.leads_back ht hinverse howner hpaired
  have hinverseKind : inverse.kind = .manyHasManyInverse := by
    rw [← RelationKind.opposite_opposite inverse.kind, ← hopposite, hkind]
    rfl
  have hdeclared := hs.declares howner
  obtain ⟨table, htable⟩ := Filter.joiningTable?_of_kind hkind
  refine ⟨table, htable, ?sent, ?read⟩
  case sent =>
    obtain ⟨_, hhere, -⟩ := RelationSides.typed_ofField hs hdeclared hrelation htarget
    obtain ⟨pair, hthere, -⟩ := RelationSides.typed_ofField hs (hs.declares ht) hinverse howner
    obtain rfl : pair = some relation :=
      Except.ok.inj ((RelationSides.targetRelation_of_ofField hthere).symm.trans hpaired)
    refine ⟨_, _, hhere, hthere, fun input => ⟨?_, ?_⟩⟩
    · exact RelatedRow.sendsTo_of_relink (.inl hkind) (RelatedRow.relink_owning hkind) htable
    · exact RelatedRow.sendsTo_of_relink (.inr hinverseKind)
        (RelatedRow.relink_inverse hinverseKind rfl) htable
  case read =>
    obtain ⟨ofOwner, hofOwner, hreads⟩ := Filter.reads_onKey hs hdeclared hrelation htarget
      (.inl hkind) (hkeys.columnName_primary hs ht) targetKey
    obtain ⟨ofTarget, hofTarget, hreads'⟩ := Filter.reads_onKey hs ht hinverse howner
      (.inr hinverseKind) (hkeys.columnName_primary hs hdeclared) ownerKey
    have howning : inverse.kind.isOwning = false := by rw [hinverseKind]; rfl
    refine ⟨ofOwner, ofTarget, hofOwner, hofTarget, ?_⟩
    intro store hc row hrow other hother hrowKey hotherKey
    constructor
    · rw [(hreads store hc [] row hrow).2 trivial]
      exact Store.exists_target_iff htable hrowKey hotherKey hother
    · rw [(hreads' store hc [] other hother).2 trivial]
      exact Store.exists_owner_iff htable hrowKey hotherKey hrow howning hpaired

def personSteps : List EntityStep :=
  [.manyHasMany "friends" "Person" { inversedBy := some "friendOf" },
    .manyHasManyInverse "friendOf" "Person" "friends"]

/-- People who make friends with each other. -/
def people : Schema := .ofDefinitions [("Person", personSteps)]

def peopleSession : Session := ⟨people, .standard⟩

def person : Entity := .ofSteps "Person" personSteps

/-- A database that finds the person with the key 2. -/
def secondWorld : Script.World :=
  { Script.World.empty with
    responses := [⟨"SELECT \"id\" FROM \"person\"", true, .rows ⟨["id"], [[.int 2]], none⟩⟩] }

/-- The first person looks for the second one. -/
lemma exists_prepared : ∃ sides prepared,
    RelationSides.ofField people person "friends" = .ok sides ∧
      (answered (peopleSession.rows 1)
        (RelatedRow.prepare ⟨sides, .int 1⟩ (.connect (.single "id" (.int 2))))).run.Reaches
          prepared (.done (.ok (some (.int 2), []))) := by
  have hsides : ∃ sides prepared, RelationSides.ofField people person "friends" = .ok sides ∧
      (answered (peopleSession.rows 1)
        (RelatedRow.prepare ⟨sides, .int 1⟩ (.connect (.single "id" (.int 2))))).run.trace?
          Script.answer secondWorld = some (prepared, .ok (some (.int 2), [])) :=
    ⟨_, _, rfl, rfl⟩
  obtain ⟨sides, prepared, hsides, hrun⟩ := hsides
  exact ⟨sides, prepared, hsides, Program.reaches_of_trace? hrun⟩

/-- The first of two people has made friends with the second. -/
def peopleStore : Store where
  rows
    | "person" => [[("id", .int 1)], [("id", .int 2)]]
    | "person_friends" => [[("person_id", .int 1), ("friends_id", .int 2)]]
    | _ => []

/-- The first person makes friends with the second by one statement, which puts them in the order
of the junction table; the second has not made friends with the first. -/
theorem sidesAgree_of_inverse_friends :
    let table : JoiningTable :=
      ⟨"person_friends", ⟨"person_id", .cascade⟩, ⟨"friends_id", .cascade⟩⟩
    SidesAgree peopleSession person "friends" person "friendOf" table (.int 1) (.int 2) ∧
      (∃ sides operation prepared,
        RelationSides.ofField people person "friends" = .ok sides ∧
        RelatedRow.toManyOperation ⟨sides, .int 1⟩ 0 ⟨none, .connect (.single "id" (.int 2))⟩ =
          .ok operation ∧
        ∀ rest, Ends (answered (peopleSession.rows 1) operation) (prepared ++ rest) ↔
          ∃ reply, rest = [⟨.execute (.insert (table.linking (.int 1) (.int 2))), reply⟩]) ∧
      peopleStore.HasColumns people ∧ peopleStore.HasWritten (table.linking (.int 1) (.int 2)) ∧
        ¬peopleStore.HasWritten (table.linking (.int 2) (.int 1)) := by
  intro table
  have hbuild : Schema.build [("Person", personSteps)] = .ok people := by decide +kernel
  have hkeys : people.KeysAreColumns := Schema.keysAreColumns_of_forall_mem (by decide +kernel)
  have hperson : people.entity "Person" = .ok person := by decide +kernel
  have hinverse : person.relation "friendOf" =
      .ok ⟨"friendOf", "Person", .manyHasManyInverse "friends"⟩ := by decide +kernel
  have hpaired : people.targetRelation ⟨"friendOf", "Person", .manyHasManyInverse "friends"⟩ =
      .ok (some ⟨"friends", "Person", .manyHasManyOwning table (some "friendOf")⟩) := by
    decide +kernel
  have hs : peopleSession.schema.WellFormed := Schema.wellFormed_of_build hbuild
  obtain ⟨_, htable, hagree⟩ := sidesAgree_of_inverse hs hkeys hperson hinverse hperson hpaired rfl
    (.int 1) (.int 2)
  cases htable
  have hcolumns : peopleStore.HasColumns people :=
    Store.hasColumns_of_forall_mem (by decide +kernel) (by decide +kernel)
  refine ⟨hagree, ?_, hcolumns, ?_, ?_⟩
  · obtain ⟨sides, prepared, hsides, hprepared⟩ := exists_prepared
    obtain ⟨here, _, hhere, -, hsent⟩ := hagree.sent
    cases hsides.symm.trans hhere
    obtain ⟨operation, hoperation, hruns⟩ := (hsent (.connect (.single "id" (.int 2)))).1 0 none
    exact ⟨sides, operation, prepared, hsides, hoperation, hruns 0 prepared [] hprepared⟩
  · rw [Store.hasWritten_linking_iff]
    decide +kernel
  · rw [Store.hasWritten_linking_iff]
    decide +kernel

end Mutation

end EntityGraph
