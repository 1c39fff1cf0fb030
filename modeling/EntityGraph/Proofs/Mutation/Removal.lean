import EntityGraph.Proofs.Schema.Instance
import EntityGraph.Proofs.Sql.Execution
/-!
What a deletion is to do to a database: which rows it removes and which joining columns it clears.
While it runs, the rows of a table are the rows of the start with a fate, which only ever grows.
-/
namespace EntityGraph

/-- Whether a column of an entity holds the links of a relation to a target, with a way to treat
deletions there. -/
def Schema.PointsAt (schema : Schema) (owner : Entity) (column : String) (policy : OnDelete)
    (target : Entity) : Prop :=
  ∃ name field relation joining, schema.entity name = .ok owner ∧
    owner.relation field = .ok relation ∧ relation.joiningColumn? = some joining ∧
    schema.targetEntity relation = .ok target ∧ joining.columnName = column ∧
    joining.onDelete = policy

/-- Whether entities have tables of their own and relations have joining columns of their own. -/
structure Schema.Separate (schema : Schema) : Prop where
  tables : ∀ {name other entity entity'}, schema.entity name = .ok entity →
    schema.entity other = .ok entity' → entity.tableName = entity'.tableName → entity = entity'
  columns : ∀ {owner column policy policy' target target'},
    schema.PointsAt owner column policy target → schema.PointsAt owner column policy' target' →
    policy = policy' ∧ target = target'

/-- Tables and joining columns can be compared entity by entity. -/
theorem Schema.separate_of_forall_mem {schema : Schema}
    (htables : ∀ pair ∈ schema.entities, ∀ pair' ∈ schema.entities,
      pair.2.tableName = pair'.2.tableName → pair.2 = pair'.2)
    (hcolumns : ∀ pair ∈ schema.entities, ∀ field ∈ pair.2.fields, ∀ field' ∈ pair.2.fields,
      ∀ relation ∈ field.2.asRelation?, ∀ relation' ∈ field'.2.asRelation?,
      ∀ joining ∈ relation.joiningColumn?, ∀ joining' ∈ relation'.joiningColumn?,
      joining.columnName = joining'.columnName → relation = relation') : schema.Separate where
  tables he he' := htables _ (Table.mem_of_find? (entity_eq_ok.mp he)) _
    (Table.mem_of_find? (entity_eq_ok.mp he'))
  columns hp hp' := by
    obtain ⟨name, field, relation, joining, he, hr, hj, ht, rfl, rfl⟩ := hp
    obtain ⟨_, field', relation', joining', -, hr', hj', ht', hname, rfl⟩ := hp'
    cases hcolumns _ (Table.mem_of_find? (entity_eq_ok.mp he)) _
      (Table.mem_of_find? (Entity.relation_eq_ok.mp hr)) _
      (Table.mem_of_find? (Entity.relation_eq_ok.mp hr')) _ rfl _ rfl _ hj _ hj' hname.symm
    cases hj.symm.trans hj'
    cases ht.symm.trans ht'
    exact ⟨rfl, rfl⟩

namespace Row

variable {row : Row} {column : String} {value : Value}

/-- A row without the values in some columns. -/
def clear (columns : String → Bool) (row : Row) : Row :=
  row.map fun (name, value) => (name, if columns name then .null else value)

lemma find?_clear (columns : String → Bool) (row : Row) (column : String) :
    (row.clear columns).find? column =
      (row.find? column).map fun value => if columns column then .null else value := by
  induction row with
  | nil => rfl
  | cons pair rest ih =>
    obtain ⟨name, value⟩ := pair
    by_cases h : name = column
    · subst h
      simp [clear, Table.find?]
    · rw [Table.find?, if_neg h, ← ih]
      simp [clear, Table.find?, h]

@[simp] lemma clear_none (row : Row) : row.clear (fun _ => false) = row := by
  simp [clear]

lemma clear_clear (columns others : String → Bool) (row : Row) :
    (row.clear columns).clear others = row.clear fun name => columns name || others name := by
  induction row with
  | nil => rfl
  | cons pair rest ih =>
    rw [clear, clear, List.map_map] at ih ⊢
    rw [List.map_cons, ih]
    congr 1
    cases h : columns pair.1 <;> cases h' : others pair.1 <;> simp [h, h']

lemma clear_congr {columns others : String → Bool} (h : ∀ name, columns name = others name) :
    row.clear columns = row.clear others := by
  rw [funext h]

end Row

/-- Which rows of each table are gone, and which columns of the others are cleared. -/
structure Fate where
  gone : String → Row → Bool
  cleared : String → Row → String → Bool

namespace Fate

def none : Fate := ⟨fun _ _ => false, fun _ _ _ => false⟩

/-- A row as it stands, unless it is gone. -/
def current (fate : Fate) (tableName : String) (row : Row) : Row :=
  row.clear (fate.cleared tableName row)

def remove (fate : Fate) (tableName : String) (chosen : Row → Bool) : Fate :=
  { fate with gone := fun name row =>
      fate.gone name row || (name = tableName && chosen (fate.current name row)) }

def clearColumn (fate : Fate) (tableName column : String) (chosen : Row → Bool) : Fate :=
  { fate with cleared := fun name row other =>
      fate.cleared name row other ||
        (name = tableName && other = column && chosen (fate.current name row)) }

/-- Whether a fate is at least as severe as another. -/
structure Le (fate other : Fate) : Prop where
  gone : ∀ {name row}, fate.gone name row → other.gone name row
  cleared : ∀ {name row column}, fate.cleared name row column → other.cleared name row column

instance : LE Fate := ⟨Le⟩

variable {fate other third : Fate}

lemma le_refl (fate : Fate) : fate ≤ fate := ⟨id, id⟩

lemma le_trans (h : fate ≤ other) (h' : other ≤ third) : fate ≤ third :=
  ⟨fun hg => h'.gone (h.gone hg), fun hc => h'.cleared (h.cleared hc)⟩

lemma le_remove (fate : Fate) (tableName : String) (chosen : Row → Bool) :
    fate ≤ fate.remove tableName chosen :=
  ⟨fun hg => by simp [remove, hg], id⟩

lemma le_clearColumn (fate : Fate) (tableName column : String) (chosen : Row → Bool) :
    fate ≤ fate.clearColumn tableName column chosen :=
  ⟨id, fun hc => by simp [clearColumn, hc]⟩

end Fate

namespace Store

/-- The rows that a fate leaves, as they stand. -/
def after (store : Store) (fate : Fate) : Store where
  rows name := ((store.rows name).filter fun row => !fate.gone name row).map (fate.current name)

variable {store : Store} {fate other : Fate} {name : String}

lemma rows_after (store : Store) (fate : Fate) (name : String) : (store.after fate).rows name =
    ((store.rows name).filter fun row => !fate.gone name row).map (fate.current name) := rfl

lemma mem_after {row : Row} : row ∈ (store.after fate).rows name ↔
    ∃ start ∈ store.rows name, fate.gone name start = false ∧ fate.current name start = row := by
  simp [after, and_assoc]

@[simp] lemma after_none (store : Store) : store.after .none = store := by
  have hcurrent : ∀ name, Fate.none.current name = id :=
    fun name => funext fun row => Row.clear_none row
  show Store.mk
    (fun name => ((store.rows name).filter fun _ => true).map (Fate.none.current name)) =
    store
  simp only [hcurrent, List.map_id, List.filter_true]

/-- Removing rows from a table is a more severe fate. -/
lemma withRows_filter (store : Store) (fate : Fate) (tableName : String) (chosen : Row → Bool) :
    (store.after fate).withRows tableName (((store.after fate).rows tableName).filter (!chosen ·)) =
      store.after (fate.remove tableName chosen) := by
  rw [after, after, withRows, Store.mk.injEq]
  funext other
  by_cases h : other = tableName
  · subst h
    rw [if_pos rfl, List.filter_map, List.filter_filter]
    congr 1
    refine List.filter_congr fun row _ => ?_
    simp [Fate.remove, Bool.and_comm]
  · rw [if_neg h]
    simp [Fate.remove, h, Fate.current]

/-- So is clearing a column. -/
lemma withRows_map (store : Store) (fate : Fate) (tableName column : String) (chosen : Row → Bool) :
    (store.after fate).withRows tableName (((store.after fate).rows tableName).map fun row =>
        if chosen row then row.clear (fun name => name = column) else row) =
      store.after (fate.clearColumn tableName column chosen) := by
  rw [after, after, withRows, Store.mk.injEq]
  funext other
  by_cases h : other = tableName
  · subst h
    rw [if_pos rfl, List.map_map]
    refine List.map_congr_left fun row _ => ?_
    by_cases hc : chosen (fate.current other row)
    · rw [Function.comp, if_pos hc, Fate.current, Row.clear_clear]
      exact Row.clear_congr fun name => by simp [Fate.clearColumn, hc]
    · rw [Function.comp, if_neg hc]
      exact Row.clear_congr fun name => by simp [Fate.clearColumn, hc]
  · rw [if_neg h]
    simp [Fate.clearColumn, h, Fate.current]

lemma hasColumns_after (fate : Fate) {schema : Schema} (h : store.HasColumns schema) :
    (store.after fate).HasColumns schema := by
  have hfind : ∀ {tableName column : String} {row : Row}, row ∈ (store.after fate).rows tableName →
      (∀ start ∈ store.rows tableName, ∃ value, start.find? column = some value) →
      ∃ value, row.find? column = some value := by
    intro tableName column row hrow hall
    obtain ⟨start, hstart, -, rfl⟩ := mem_after.mp hrow
    obtain ⟨value, hv⟩ := hall start hstart
    exact ⟨_, by rw [Fate.current, Row.find?_clear, hv]; rfl⟩
  constructor
  · intro name entity he row hrow field column hcolumn
    exact hfind hrow fun start hstart => h.field he start hstart hcolumn
  · intro name entity he row hrow
    exact hfind hrow (h.primary he)
  · intro name entity field relation junction he hr hj entry hentry
    exact ⟨hfind hentry fun start hstart => (h.junction he hr hj start hstart).1,
      hfind hentry fun start hstart => (h.junction he hr hj start hstart).2⟩

/-- How many rows the entities of a schema have. -/
def size (store : Store) (schema : Schema) : Nat :=
  (schema.entities.map fun pair => (store.rows pair.2.tableName).length).sum

lemma length_after_le (h : fate ≤ other) (name : String) :
    ((store.after other).rows name).length ≤ ((store.after fate).rows name).length := by
  rw [after, after, List.length_map, List.length_map, ← List.countP_eq_length_filter,
    ← List.countP_eq_length_filter]
  refine List.countP_mono_left fun row _ hlive => ?_
  by_contra hgone
  simp only [Bool.not_eq_true', Bool.not_eq_false] at hlive hgone
  rw [h.gone hgone] at hlive
  contradiction

lemma size_after_le {schema : Schema} (h : fate ≤ other) :
    (store.after other).size schema ≤ (store.after fate).size schema :=
  List.sum_le_sum fun _ _ => length_after_le h _

/-- Removing a row of an entity leaves fewer rows. -/
lemma size_withRows_lt {schema : Schema} {entity : Entity} {chosen : Row → Bool}
    (he : schema.entity name = .ok entity) {row : Row} (hrow : row ∈ store.rows entity.tableName)
    (hc : chosen row) :
    (store.withRows entity.tableName
      ((store.rows entity.tableName).filter (!chosen ·))).size schema < store.size schema := by
  refine List.sum_lt_sum _ _ (fun pair _ => ?_)
    ⟨(name, entity), Table.mem_of_find? (Schema.entity_eq_ok.mp he), ?_⟩
  · rw [rows_withRows]
    split
    · next htable =>
      rw [htable]
      exact List.length_filter_le _ _
    · exact le_rfl
  · rw [rows_withRows, if_pos rfl]
    exact List.length_filter_lt_length_iff_exists.mpr ⟨row, hrow, by simp [hc]⟩

end Store

end EntityGraph
