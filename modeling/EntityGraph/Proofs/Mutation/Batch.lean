import EntityGraph.Mutation.Deletion
import EntityGraph.Proofs.Filter.Meaning
import EntityGraph.Proofs.Mutation.Closure
/-!
The statements of a deletion: a batch of rows that is removed, and references that are cleared. The
rows that point at some keys are those with one of the keys in their joining column.
-/
namespace EntityGraph.Mutation

open Sql (ConditionTree)

variable {schema : Schema} {store : Store} {name : String} {entity owner : Entity}
  {relation : Relation} {joining : JoiningColumn} {keys : List Value}

lemma columnName_of_pointsAt {column : String} {policy : OnDelete}
    (hp : schema.PointsAt owner column policy entity) :
    ∃ name field, schema.entity name = .ok owner ∧ owner.columnName field = .ok column := by
  obtain ⟨name, field, relation, joining, he, hr, hj, -, rfl, -⟩ := hp
  exact ⟨name, field, he, Entity.columnName_of_relation hr hj⟩

/-- The relations that a deletion visits are those that point at the entity. -/
lemma mem_owningRelationsTo (hs : schema.WellFormed) (he : schema.entity name = .ok entity)
    (h : (owner, relation) ∈ schema.owningRelationsTo entity.name) :
    ∃ ownerName joining, schema.entity ownerName = .ok owner ∧
      owner.relation relation.name = .ok relation ∧ relation.joiningColumn? = some joining ∧
      schema.targetEntity relation = .ok entity := by
  obtain ⟨⟨ownerName, found⟩, hm, hrelation⟩ := List.mem_flatMap.mp h
  obtain ⟨found', hf, heq⟩ := List.mem_map.mp hrelation
  cases heq
  obtain ⟨hmem, hkind⟩ := List.mem_filter.mp hf
  rw [Bool.and_eq_true, decide_eq_true_eq] at hkind
  obtain ⟨joining, hj⟩ := Option.isSome_iff_exists.mp (relation.joiningColumn?_isSome.trans hkind.1)
  have howner : schema.entity ownerName = .ok owner :=
    Schema.entity_eq_ok.mpr ((Table.find?_eq_some_iff hs.nodup).mpr hm)
  refine ⟨ownerName, joining, howner, (hs.wellFormed howner).mem_relations.mp hmem, hj, ?_⟩
  rw [Schema.targetEntity, hkind.2, hs.name_eq he]
  exact he

lemma owningRelationsTo_of_pointsAt {column : String} {policy : OnDelete} (hs : schema.WellFormed)
    (hp : schema.PointsAt owner column policy entity) :
    ∃ relation joining, (owner, relation) ∈ schema.owningRelationsTo entity.name ∧
      relation.joiningColumn? = some joining ∧ joining.columnName = column ∧
      joining.onDelete = policy := by
  obtain ⟨name, field, relation, joining, he, hr, hj, ht, hcolumn, hpolicy⟩ := hp
  refine ⟨relation, joining, ?_, hj, hcolumn, hpolicy⟩
  have hrelation := (hs.wellFormed he).mem_relations.mpr ((hs.wellFormed he).relation_name hr ▸ hr)
  refine List.mem_flatMap.mpr ⟨(name, owner), Table.mem_of_find? (Schema.entity_eq_ok.mp he), ?_⟩
  refine List.mem_map.mpr ⟨relation, List.mem_filter.mpr ⟨hrelation, ?_⟩, rfl⟩
  rw [Bool.and_eq_true, decide_eq_true_eq, ← relation.joiningColumn?_isSome, hj, hs.name_eq ht]
  exact ⟨rfl, rfl⟩

/-- An entity has each of its relations once. -/
lemma nodup_relations (h : entity.WellFormed) : entity.relations.Nodup := by
  rw [Entity.relations, List.Nodup, List.pairwise_filterMap]
  refine (List.pairwise_map.mp h.nodup).imp_of_mem ?_
  rintro ⟨first, _ | relation⟩ ⟨second, _ | other⟩ hfirst hsecond hne <;>
    rintro _ ⟨⟩ _ ⟨⟩ rfl
  exact hne ((h.field_name _ hfirst).symm.trans (h.field_name _ hsecond))

/-- A deletion has each relation to visit once. -/
lemma nodup_owningRelationsTo (hs : schema.WellFormed) (target : String) :
    (schema.owningRelationsTo target).Nodup := by
  rw [Schema.owningRelationsTo, List.nodup_flatMap]
  constructor
  · intro pair hmem
    refine ((nodup_relations (hs.entity_wellFormed pair hmem)).filter _).map ?_
    exact fun _ _ heq => (Prod.mk.inj heq).2
  · refine (List.pairwise_map.mp hs.nodup).imp_of_mem fun {first second} hfirst hsecond hne => ?_
    rintro visit hvisit hagain
    obtain ⟨_, -, rfl⟩ := List.mem_map.mp hvisit
    obtain ⟨_, -, heq⟩ := List.mem_map.mp hagain
    have hsame : second.2 = first.2 := (Prod.mk.inj heq).1
    exact hne ((hs.entity_name _ hfirst).symm.trans (hsame ▸ hs.entity_name _ hsecond))

/-- The rows that point at some keys are found by their joining column. -/
lemma toTree_pointingAt (hs : schema.WellFormed) (he : schema.entity name = .ok owner)
    (hr : owner.relation relation.name = .ok relation)
    (hj : relation.joiningColumn? = some joining)
    (ht : schema.targetEntity relation = .ok entity) (keys : List Value) :
    (pointingAt entity relation keys).toTree schema owner =
      .ok ((Condition.oneOf keys).toTree (Sql.column joining.columnName)) := by
  have hkey : Filter.onKeyOnly? entity (.onColumn entity.primary (.oneOf keys)) =
      some (.oneOf keys) := if_pos rfl
  rw [pointingAt, Filter.onRelation, Filter.ofFields, Filter.empty, Filter.toTree_eq]
  refine Except.bind_eq_ok.mpr ⟨[], rfl, Except.bind_eq_ok.mpr ⟨[], rfl,
    Except.bind_eq_ok.mpr ⟨[], rfl, Except.bind_eq_ok.mpr ⟨[_], ?_, rfl⟩⟩⟩⟩
  rw [Filter.fieldTrees]
  refine Except.bind_eq_ok.mpr ⟨relation, hr, Except.bind_eq_ok.mpr ⟨entity, ht,
    Except.bind_eq_ok.mpr ⟨_, ?_, rfl⟩⟩⟩
  rw [Filter.relationTree_of_joining (hs.wellFormed he) hr hj, hkey]
  rfl

/-- A condition is true of the rows that are chosen, and has a truth value on the others. -/
def Chooses (store : Store) (tableName : String) (tree : ConditionTree) (chosen : Row → Bool) :
    Prop :=
  ∀ row ∈ store.rows tableName, (tree.truth? store [(tableName, row)]).isSome ∧
    (tree.truth? store [(tableName, row)] = some .holds ↔ chosen row)

lemma chooses_oneOf {tableName column : String}
    (hcolumn : ∀ row ∈ store.rows tableName, ∃ value, row.find? column = some value)
    (keys : List Value) :
    Chooses store tableName ((Condition.oneOf keys).toTree (Sql.column column))
      (holdsKey column keys) := by
  intro row hrow
  obtain ⟨value, hv⟩ := hcolumn row hrow
  rw [Condition.truth?_toTree hv, Option.some_inj]
  exact ⟨rfl, by simp [holdsKey, hv, Condition.truth]⟩

lemma chosen?_eq {tableName : String} {tree : ConditionTree} {chosen : Row → Bool}
    (h : Chooses store tableName tree chosen) :
    ∃ chosen', store.chosen? (Sql.table tableName) (some tree) = some chosen' ∧
      ∀ row ∈ store.rows tableName, chosen' row = chosen row := by
  refine ⟨_, if_pos fun row hrow => (h row hrow).1, fun row hrow => ?_⟩
  rw [Bool.eq_iff_iff, decide_eq_true_iff]
  exact (h row hrow).2

lemma mapM_eq_some_map {α β : Type} {f : α → Option β} {g : α → β} {items : List α}
    (h : ∀ a ∈ items, f a = some (g a)) : items.mapM f = some (items.map g) := by
  induction items with
  | nil => rfl
  | cons a rest ih =>
    rw [List.forall_mem_cons] at h
    rw [List.mapM_cons, h.1, ih h.2]
    rfl

/-- The values of one column, as a statement that returns the column answers with. -/
def columnSet (column : String) (values : List Value) : Database.ResultSet :=
  ⟨[column], values.map fun value => [value], none⟩

lemma returned?_column {column : String} {rows : List Row}
    (h : ∀ row ∈ rows, ∃ value, row.find? column = some value) :
    Store.returned? [Sql.column column] rows =
      some (columnSet column (rows.filterMap fun row => row.find? column)) := by
  have hvalues : rows.mapM (fun row => [Sql.column column].mapM fun column =>
      row.find? column.name) =
      some (rows.map fun row => [(row.find? column).getD .null]) := by
    refine mapM_eq_some_map fun row hrow => ?_
    obtain ⟨value, hv⟩ := h row hrow
    simp [Sql.column, hv]
  have hfilterMap : (rows.filterMap fun row => row.find? column) =
      rows.map fun row => (row.find? column).getD .null := by
    refine List.filterMap_eq_map_iff_forall_eq_some.mpr fun row hrow => ?_
    obtain ⟨value, hv⟩ := h row hrow
    simp [hv]
  rw [Store.returned?, hvalues, columnSet, hfilterMap, List.map_map]
  rfl

lemma columnValues_column (column : String) (values : List Value) :
    (columnSet column values).columnValues column = .ok values := by
  simp [columnSet, Database.ResultSet.columnValues, Database.namedValue?, List.filterMap_map,
    Function.comp_def]

namespace Session

variable {session : Session} {filter : Filter} {tree : ConditionTree} {chosen : Row → Bool}

/-- A batch removes the rows that its filter chooses and returns their keys. -/
theorem outcome_deleteBatch (hc : store.HasColumns session.schema)
    (he : session.schema.entity name = .ok entity)
    (ht : filter.toTree session.schema entity = .ok tree)
    (hchosen : Chooses store entity.tableName tree chosen) :
    outcome (session.deleteBatch entity filter) store =
      some (.ok (((store.rows entity.tableName).filter chosen).filterMap
          fun row => row.find? entity.primaryColumn),
        store.withRows entity.tableName ((store.rows entity.tableName).filter (!chosen ·))) := by
  obtain ⟨chosen', hchosen', heq⟩ := chosen?_eq hchosen
  have hrows : (store.rows entity.tableName).filter chosen' =
      (store.rows entity.tableName).filter chosen := List.filter_congr heq
  have hrest : (store.rows entity.tableName).filter (!chosen' ·) =
      (store.rows entity.tableName).filter (!chosen ·) :=
    List.filter_congr fun row hrow => by rw [heq row hrow]
  have hreturned : Store.returned? [Sql.column entity.primaryColumn]
      ((store.rows entity.tableName).filter chosen) = some _ :=
    returned?_column fun row hrow => hc.primary he row (List.mem_filter.mp hrow).1
  have hdelete : store.delete? ⟨Sql.table entity.tableName, some tree,
      [Sql.column entity.primaryColumn]⟩ =
      some (columnSet entity.primaryColumn (((store.rows entity.tableName).filter chosen).filterMap
          fun row => row.find? entity.primaryColumn),
        store.withRows entity.tableName ((store.rows entity.tableName).filter (!chosen ·))) := by
    simp only [Store.delete?, hchosen', Option.bind_eq_bind, Option.bind_some]
    rw [show (Sql.table entity.tableName).name = entity.tableName from rfl, hrest, hrows, hreturned]
    rfl
  rw [deleteBatch, outcome_bind (session.outcome_permitted ht _ _),
    outcome_bind (session.outcome_delete hdelete), columnValues_column]
  rfl

/-- Clearing references clears the joining column of the rows that the filter chooses. -/
theorem outcome_clearReferences (hr : entity.relation relation.name = .ok relation)
    (hj : relation.joiningColumn? = some joining)
    (ht : filter.toTree session.schema entity = .ok tree)
    (hchosen : Chooses store entity.tableName tree chosen) :
    outcome (session.clearReferences entity relation filter) store =
      some (.ok (), store.withRows entity.tableName ((store.rows entity.tableName).map fun row =>
        if chosen row then row.clear (fun name => name = joining.columnName) else row)) := by
  obtain ⟨chosen', hchosen', heq⟩ := chosen?_eq hchosen
  have hassigned : ∀ row, Store.assigned? (Sql.table entity.tableName)
      [(Sql.column joining.columnName, .param .null)] row =
      some (row.clear fun name => name = joining.columnName) := by
    intro row
    simp only [Store.assigned?, List.foldlM_cons, List.foldlM_nil, Sql.Expr.value?_param,
      Row.clear, Row.assign, Sql.column]
    simp
  have hupdated : (store.rows entity.tableName).mapM (fun row =>
      if chosen' row then Store.assigned? (Sql.table entity.tableName)
        [(Sql.column joining.columnName, .param .null)] row else some row) =
      some ((store.rows entity.tableName).map fun row =>
        if chosen row then row.clear (fun name => name = joining.columnName) else row) := by
    refine mapM_eq_some_map fun row hrow => ?_
    rw [heq row hrow]
    split
    · exact hassigned row
    · rfl
  have hupdate : ∃ count, store.update? ⟨Sql.table entity.tableName,
      [(Sql.column joining.columnName, .param .null)], some tree, []⟩ =
      some (count, store.withRows entity.tableName ((store.rows entity.tableName).map fun row =>
        if chosen row then row.clear (fun name => name = joining.columnName) else row)) := by
    refine ⟨((store.rows entity.tableName).filter chosen').length, ?_⟩
    simp only [Store.update?, hchosen', Option.bind_eq_bind, Option.bind_some]
    rw [show (Sql.table entity.tableName).name = entity.tableName from rfl, hupdated]
    rfl
  obtain ⟨count, hupdate⟩ := hupdate
  rw [clearReferences, outcome_bind (session.outcome_permitted ht _ _),
    Entity.columnName_of_relation hr hj]
  show outcome (session.execute _ >>= _) store = _
  rw [outcome_bind (session.outcome_update hupdate)]
  rfl

end Session

end EntityGraph.Mutation
