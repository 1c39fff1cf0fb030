import EntityGraph.Proofs.Schema.Building
import EntityGraph.Proofs.Sql.Evaluation
/-!
Databases of a schema: their tables have the columns of the schema, joining columns point at rows,
and no two rows agree on a key. For a concrete schema each of these is decided by looking through
its entities.
-/
namespace EntityGraph

namespace Row

variable {row other : Row} {column otherColumn : String}

/-- Whether two rows have equal values, neither of them `NULL`, in two columns. -/
def Agree (row : Row) (column : String) (other : Row) (otherColumn : String) : Prop :=
  ∃ a b, row.find? column = some a ∧ other.find? otherColumn = some b ∧
    Comparison.equal.test a b = .holds

instance : Decidable (row.Agree column other otherColumn) :=
  match ha : row.find? column, hb : other.find? otherColumn with
  | some a, some b =>
    decidable_of_iff (Comparison.equal.test a b = .holds) (by simp [Agree, ha, hb])
  | none, _ => isFalse (by simp [Agree, ha])
  | some _, none => isFalse (by simp [Agree, hb])

lemma agree_comm : row.Agree column other otherColumn ↔ other.Agree otherColumn row column := by
  constructor <;>
  · rintro ⟨a, b, ha, hb, hab⟩
    exact ⟨b, a, hb, ha, Comparison.equal_test_comm.mp hab⟩

lemma Agree.trans {third : Row} {thirdColumn : String} (h : row.Agree column other otherColumn)
    (h' : other.Agree otherColumn third thirdColumn) : row.Agree column third thirdColumn := by
  obtain ⟨a, b, ha, hb, hab⟩ := h
  obtain ⟨b', c, hb', hc, hbc⟩ := h'
  cases hb.symm.trans hb'
  exact ⟨a, c, ha, hc, Comparison.equal_test_trans hab hbc⟩

/-- Whether a column of a row is `NULL`. -/
def IsNull (row : Row) (column : String) : Prop :=
  ∃ value, row.find? column = some value ∧ value.isNull

instance : Decidable (row.IsNull column) :=
  match h : row.find? column with
  | some value => decidable_of_iff (value.isNull = true) (by simp [IsNull, h])
  | none => isFalse (by simp [IsNull, h])

/-- Whether two rows have values in two columns that are not `NULL` and not equal. -/
def Differ (row : Row) (column : String) (other : Row) (otherColumn : String) : Prop :=
  ∃ a b, row.find? column = some a ∧ other.find? otherColumn = some b ∧
    Comparison.equal.test a b = .fails

lemma isNull_iff {value : Value} (h : row.find? column = some value) :
    row.IsNull column ↔ value.isNull = true := by
  simp [IsNull, h]

lemma IsNull.find?_eq (h : row.IsNull column) : row.find? column = some .null := by
  obtain ⟨value, hv, hnull⟩ := h
  cases value <;> first | exact hv | contradiction

/-- Rows with values in two columns differ there unless they agree or one of the values is `NULL`. -/
lemma differ_iff (hrow : ∃ value, row.find? column = some value)
    (hother : ∃ value, other.find? otherColumn = some value) :
    row.Differ column other otherColumn ↔
      ¬ row.IsNull column ∧ ¬ other.IsNull otherColumn ∧
        ¬ row.Agree column other otherColumn := by
  obtain ⟨a, ha⟩ := hrow
  obtain ⟨b, hb⟩ := hother
  simp [Differ, Agree, isNull_iff ha, isNull_iff hb, ha, hb, Comparison.equal_test_eq_fails]

end Row

namespace Entity

/-- Whether two rows agree on the column behind each of some fields. -/
def AgreeOn (entity : Entity) (fields : List String) (row other : Row) : Prop :=
  ∀ field ∈ fields, ∃ column, entity.columnName field = .ok column ∧ row.Agree column other column

instance {entity : Entity} {field : String} {row other : Row} :
    Decidable (∃ column, entity.columnName field = .ok column ∧ row.Agree column other column) :=
  match h : entity.columnName field with
  | .ok column => decidable_of_iff (row.Agree column other column) (by simp)
  | .error _ => isFalse (by simp)

instance {entity : Entity} {fields : List String} {row other : Row} :
    Decidable (entity.AgreeOn fields row other) :=
  inferInstanceAs (Decidable (∀ field ∈ fields, _))

/-- Whether two rows agree on the key column or on a unique key, as no two rows of a table do. -/
def Identified (entity : Entity) (row other : Row) : Prop :=
  row.Agree entity.primaryColumn other entity.primaryColumn ∨
    ∃ key ∈ entity.uniqueKeys, entity.AgreeOn key row other

instance {entity : Entity} {row other : Row} : Decidable (entity.Identified row other) :=
  inferInstanceAs (Decidable (_ ∨ ∃ key ∈ entity.uniqueKeys, _))

lemma AgreeOn.symm {entity : Entity} {fields : List String} {row other : Row}
    (h : entity.AgreeOn fields row other) : entity.AgreeOn fields other row := by
  intro field hfield
  obtain ⟨column, hcolumn, hagree⟩ := h field hfield
  exact ⟨column, hcolumn, Row.agree_comm.mp hagree⟩

lemma Identified.symm {entity : Entity} {row other : Row} (h : entity.Identified row other) :
    entity.Identified other row := by
  rcases h with hagree | ⟨key, hkey, hagree⟩
  · exact .inl (Row.agree_comm.mp hagree)
  · exact .inr ⟨key, hkey, hagree.symm⟩

end Entity

namespace Store

variable (store : Store) (schema : Schema)

/-- Whether the rows of entities and of junctions have the columns that the schema gives them. -/
structure HasColumns : Prop where
  field : ∀ {name entity}, schema.entity name = .ok entity → ∀ row ∈ store.rows entity.tableName,
    ∀ {field column}, entity.columnName field = .ok column → ∃ value, row.find? column = some value
  primary : ∀ {name entity}, schema.entity name = .ok entity →
    ∀ row ∈ store.rows entity.tableName, ∃ value, row.find? entity.primaryColumn = some value
  junction : ∀ {name entity field relation junction}, schema.entity name = .ok entity →
    entity.relation field = .ok relation → relation.joiningTable? = some junction →
    ∀ entry ∈ store.rows junction.tableName,
      (∃ value, entry.find? junction.joiningColumn.columnName = some value) ∧
        ∃ value, entry.find? junction.inverseJoiningColumn.columnName = some value

/-- Whether every joining column that is not `NULL` points at a row of the target. -/
def PointsAtRows : Prop :=
  ∀ {name entity field relation joining target}, schema.entity name = .ok entity →
    entity.relation field = .ok relation → relation.joiningColumn? = some joining →
    schema.targetEntity relation = .ok target → ∀ row ∈ store.rows entity.tableName,
    ∀ value, row.find? joining.columnName = some value → value.isNull = false →
    ∃ other ∈ store.rows target.tableName,
      row.Agree joining.columnName other target.primaryColumn

/-- Whether no row lacks its key, and every entry of a junction names the two rows it links. -/
structure KeysPresent : Prop where
  primary : ∀ {name entity}, schema.entity name = .ok entity →
    ∀ row ∈ store.rows entity.tableName, ¬ row.IsNull entity.primaryColumn
  junction : ∀ {name entity field relation junction}, schema.entity name = .ok entity →
    entity.relation field = .ok relation → relation.joiningTable? = some junction →
    ∀ entry ∈ store.rows junction.tableName,
      ¬ entry.IsNull junction.joiningColumn.columnName ∧
        ¬ entry.IsNull junction.inverseJoiningColumn.columnName

/-- Whether no two rows of an entity agree on its key column or on one of its unique keys. -/
def KeysUnique : Prop :=
  ∀ pair ∈ schema.entities,
    (store.rows pair.2.tableName).Pairwise fun row other => ¬ pair.2.Identified row other

instance : Decidable (store.KeysUnique schema) :=
  inferInstanceAs (Decidable (∀ pair ∈ schema.entities, _))

variable {store schema} {name : String} {entity : Entity}

lemma KeysUnique.pairwise (h : store.KeysUnique schema) (he : schema.entity name = .ok entity) :
    (store.rows entity.tableName).Pairwise fun row other => ¬ entity.Identified row other :=
  h (name, entity) (Table.mem_of_find? (Schema.entity_eq_ok.mp he))

lemma KeysUnique.eq_of_identified (h : store.KeysUnique schema)
    (he : schema.entity name = .ok entity) {row other : Row}
    (hrow : row ∈ store.rows entity.tableName) (hother : other ∈ store.rows entity.tableName)
    (hid : entity.Identified row other) : row = other := by
  by_contra hne
  have hsymm : Std.Symm fun row other => ¬ entity.Identified row other :=
    ⟨fun _ _ hn hid => hn hid.symm⟩
  exact (h.pairwise he).forall hrow hother hne hid

/-- The columns of every row can be checked entity by entity. -/
theorem hasColumns_of_forall_mem
    (hfields : ∀ pair ∈ schema.entities, ∀ row ∈ store.rows pair.2.tableName,
      row.contains pair.2.primaryColumn ∧ ∀ field ∈ pair.2.fields,
        ∀ column ∈ (pair.2.columnName field.1).toOption, row.contains column)
    (hjunctions : ∀ pair ∈ schema.entities, ∀ field ∈ pair.2.fields,
      ∀ relation ∈ field.2.asRelation?, ∀ junction ∈ relation.joiningTable?,
      ∀ entry ∈ store.rows junction.tableName, entry.contains junction.joiningColumn.columnName ∧
        entry.contains junction.inverseJoiningColumn.columnName) :
    store.HasColumns schema where
  field {name entity} he row hrow field column hcolumn := by
    have hfield : ∃ found, (field, found) ∈ entity.fields := by
      cases hf : entity.field field with
      | error e => simp [Entity.columnName, hf] at hcolumn
      | ok found => exact ⟨found, Table.mem_of_find? (Entity.field_eq_ok.mp hf)⟩
    obtain ⟨found, hf⟩ := hfield
    have hcontains := (hfields _ (Table.mem_of_find? (Schema.entity_eq_ok.mp he)) row hrow).2 _ hf
      column (by rw [hcolumn]; rfl)
    exact Option.isSome_iff_exists.mp hcontains
  primary he row hrow :=
    Option.isSome_iff_exists.mp
      (hfields _ (Table.mem_of_find? (Schema.entity_eq_ok.mp he)) row hrow).1
  junction he hr hj entry hentry := by
    have hcontains := hjunctions _ (Table.mem_of_find? (Schema.entity_eq_ok.mp he)) _
      (Table.mem_of_find? (Entity.relation_eq_ok.mp hr)) _ rfl _ hj entry hentry
    exact hcontains.imp Option.isSome_iff_exists.mp Option.isSome_iff_exists.mp

/-- So can the rows that joining columns point at. -/
theorem pointsAtRows_of_forall_mem
    (h : ∀ pair ∈ schema.entities, ∀ field ∈ pair.2.fields, ∀ relation ∈ field.2.asRelation?,
      ∀ joining ∈ relation.joiningColumn?, ∀ target ∈ (schema.targetEntity relation).toOption,
      ∀ row ∈ store.rows pair.2.tableName, (row.find? joining.columnName).all Value.isNull ∨
        ∃ other ∈ store.rows target.tableName,
          row.Agree joining.columnName other target.primaryColumn) :
    store.PointsAtRows schema := by
  intro name entity field relation joining target he hr hj ht row hrow value hv hnull
  have hrow := h _ (Table.mem_of_find? (Schema.entity_eq_ok.mp he)) _
    (Table.mem_of_find? (Entity.relation_eq_ok.mp hr)) _ rfl _ hj target (by rw [ht]; rfl) row hrow
  rw [hv, Option.all_some, hnull] at hrow
  exact hrow.resolve_left (by simp)

/-- So can the keys of rows and of junction entries. -/
theorem keysPresent_of_forall_mem
    (hrows : ∀ pair ∈ schema.entities, ∀ row ∈ store.rows pair.2.tableName,
      ¬ row.IsNull pair.2.primaryColumn)
    (hjunctions : ∀ pair ∈ schema.entities, ∀ field ∈ pair.2.fields,
      ∀ relation ∈ field.2.asRelation?, ∀ junction ∈ relation.joiningTable?,
      ∀ entry ∈ store.rows junction.tableName,
        ¬ entry.IsNull junction.joiningColumn.columnName ∧
          ¬ entry.IsNull junction.inverseJoiningColumn.columnName) :
    store.KeysPresent schema where
  primary he := hrows _ (Table.mem_of_find? (Schema.entity_eq_ok.mp he))
  junction he hr hj := hjunctions _ (Table.mem_of_find? (Schema.entity_eq_ok.mp he)) _
    (Table.mem_of_find? (Entity.relation_eq_ok.mp hr)) _ rfl _ hj

end Store

end EntityGraph
