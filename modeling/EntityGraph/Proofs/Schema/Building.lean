import EntityGraph.Schema.Builder
import EntityGraph.Proofs.Table
/-!
What every built schema satisfies. Entities and fields are stored under their own names, and every
relation leads to an entity whose paired relation leads back.
-/
namespace EntityGraph

lemma Except.bind_eq_ok {ε α β : Type} {action : Except ε α} {next : α → Except ε β} {b : β} :
    (action >>= next) = .ok b ↔ ∃ a, action = .ok a ∧ next a = .ok b := by
  cases action with
  | error e =>
    constructor
    · intro h
      contradiction
    · rintro ⟨a, h, -⟩
      contradiction
  | ok a =>
    constructor
    · exact fun h => ⟨a, rfl, h⟩
    · rintro ⟨_, ⟨⟩, h⟩
      exact h

lemma Except.map_eq_ok {ε α β : Type} {f : α → β} {outcome : Except ε α} {b : β} :
    f <$> outcome = .ok b ↔ ∃ a, outcome = .ok a ∧ f a = b := by
  cases outcome with
  | error e => simp [Functor.map, Except.map]
  | ok a => simp [Functor.map, Except.map]

namespace Entity

/-- Fields under their own names, and a key column that the key field stands for if it is a
column. -/
structure WellFormed (entity : Entity) : Prop where
  nodup : entity.fields.keys.Nodup
  field_name : ∀ pair ∈ entity.fields, pair.2.name = pair.1
  primary_columnName : ∀ column, (entity.primary, .column column) ∈ entity.fields →
    column.columnName = entity.primaryColumn

variable {entity : Entity} {name : String}

lemma WellFormed.put (h : entity.WellFormed) {field : Field} (hn : field.name = name)
    (hp : ∀ column, name = entity.primary → field = .column column →
      column.columnName = entity.primaryColumn) :
    { entity with fields := entity.fields.put name field }.WellFormed where
  nodup := Table.nodup_keys_put h.nodup
  field_name pair hm := by
    rcases Table.mem_put hm with heq | hmem
    · rw [heq, hn]
    · exact h.field_name pair hmem
  primary_columnName column hm := by
    rcases Table.mem_put hm with heq | hmem
    · rw [Prod.mk.injEq] at heq
      exact hp column heq.1.symm heq.2.symm
    · exact h.primary_columnName column hmem

/-- What an entity keeps from its first step to its last. -/
structure Building (entity : Entity) (name : String) : Prop extends entity.WellFormed where
  name_eq : entity.name = name
  primary_eq : entity.primary = "id"
  primaryColumn_eq : entity.primaryColumn = "id"

lemma building_named (name : String) : (named name).Building name where
  nodup := by simp [named, Table.keys]
  field_name := by simp [named, Field.name]
  primary_columnName := by simp [named]
  name_eq := rfl
  primary_eq := rfl
  primaryColumn_eq := rfl

lemma snakeCase_id : Text.snakeCase "id" = "id" := by decide +kernel

lemma Building.withColumn (h : entity.Building name) (field : String) (type : ColumnType)
    (nullable : Bool) : (entity.withColumn field type nullable).Building name := by
  refine ⟨h.put rfl ?_, h.name_eq, h.primary_eq, h.primaryColumn_eq⟩
  intro column hname heq
  rw [Field.column.injEq] at heq
  rw [← heq, hname, h.primary_eq, h.primaryColumn_eq]
  exact snakeCase_id

lemma Building.withRelation (h : entity.Building name) (field target : String) (link : Link) :
    (entity.withRelation field target link).Building name :=
  ⟨h.put rfl (by simp), h.name_eq, h.primary_eq, h.primaryColumn_eq⟩

lemma Building.apply (h : entity.Building name) (step : EntityStep) :
    (entity.apply step).Building name := by
  cases step with
  | table tableName =>
    exact ⟨⟨h.nodup, h.field_name, h.primary_columnName⟩, h.name_eq, h.primary_eq,
      h.primaryColumn_eq⟩
  | unique fields =>
    exact ⟨⟨h.nodup, h.field_name, h.primary_columnName⟩, h.name_eq, h.primary_eq,
      h.primaryColumn_eq⟩
  | column field type => exact h.withColumn field type true
  | required field type => exact h.withColumn field type false
  | _ => exact h.withRelation _ _ _

/-- What holds at first and is kept by every step holds in the end. -/
theorem ofSteps_induction {P : Entity → Prop} (hnamed : P (named name))
    (hstep : ∀ entity step, P entity → P (entity.apply step)) (steps : List EntityStep) :
    P (ofSteps name steps) := by
  have hfold : ∀ entity : Entity, P entity → P (steps.foldl Entity.apply entity) := by
    induction steps with
    | nil => exact fun entity h => h
    | cons step rest ih => exact fun entity h => ih _ (hstep entity step h)
  exact hfold _ hnamed

theorem building_ofSteps (name : String) (steps : List EntityStep) :
    (ofSteps name steps).Building name :=
  ofSteps_induction (P := fun entity => entity.Building name) (building_named name)
    (fun _ step h => h.apply step) steps

lemma field_eq_ok {field : Field} :
    entity.field name = .ok field ↔ entity.fields.find? name = some field := by
  rw [Entity.field]
  cases entity.fields.find? name <;> simp

lemma column_eq_ok {column : Column} :
    entity.column name = .ok column ↔ entity.fields.find? name = some (.column column) := by
  rw [← field_eq_ok, Entity.column]
  split <;> simp_all

lemma relation_eq_ok {relation : Relation} :
    entity.relation name = .ok relation ↔ entity.fields.find? name = some (.relation relation) := by
  rw [← field_eq_ok, Entity.relation]
  split <;> simp_all

lemma relation_of_field {relation : Relation} (h : entity.field name = .ok (.relation relation)) :
    entity.relation name = .ok relation := relation_eq_ok.mpr (field_eq_ok.mp h)

lemma columnName_of_column {column : Column} (h : entity.field name = .ok (.column column)) :
    entity.columnName name = .ok column.columnName := by
  rw [Entity.columnName, h]

lemma columnName_of_relation {relation : Relation} {joining : JoiningColumn}
    (h : entity.relation name = .ok relation) (hj : relation.joiningColumn? = some joining) :
    entity.columnName name = .ok joining.columnName := by
  simp only [Entity.columnName, field_eq_ok.mpr (relation_eq_ok.mp h), hj]

lemma field_of_column {column : Column} (h : entity.column name = .ok column) :
    entity.field name = .ok (.column column) := field_eq_ok.mpr (column_eq_ok.mp h)

lemma exists_columnName {relation : Relation} (h : entity.relation name = .ok relation)
    (hkind : relation.kind.hasJoiningColumn = true) :
    ∃ column, entity.columnName name = .ok column := by
  obtain ⟨joining, hjoining⟩ :=
    Option.isSome_iff_exists.mp (relation.joiningColumn?_isSome.trans hkind)
  exact ⟨_, columnName_of_relation h hjoining⟩

namespace WellFormed

variable (h : entity.WellFormed)
include h

lemma relation_name {relation : Relation} (hr : entity.relation name = .ok relation) :
    relation.name = name :=
  h.field_name _ (Table.mem_of_find? (relation_eq_ok.mp hr))

lemma mem_relations {relation : Relation} :
    relation ∈ entity.relations ↔ entity.relation relation.name = .ok relation := by
  rw [relation_eq_ok, Table.find?_eq_some_iff h.nodup, relations, List.mem_filterMap]
  constructor
  · rintro ⟨⟨name, field⟩, hm, heq⟩
    cases field with
    | column => contradiction
    | relation other =>
      cases heq
      have hname : relation.name = name := h.field_name _ hm
      rw [hname]
      exact hm
  · exact fun hm => ⟨_, hm, rfl⟩

end WellFormed

end Entity

/-- A relation that does not store its links names the one that does. -/
lemma Relation.exists_pairedName {relation : Relation} (hk : relation.kind.isOwning = false) :
    ∃ name, relation.pairedName? = some name := by
  obtain ⟨relationName, targetName, link⟩ := relation
  cases link <;> first | contradiction | exact ⟨_, rfl⟩

namespace Schema

/-- A schema that passes its check, with well-formed entities under their own names. -/
structure WellFormed (schema : Schema) : Prop where
  nodup : schema.entities.keys.Nodup
  entity_name : ∀ pair ∈ schema.entities, pair.2.name = pair.1
  entity_wellFormed : ∀ pair ∈ schema.entities, pair.2.WellFormed
  valid : schema.validate = .ok ()

/-- What holds of every entity made by steps holds of the entities of a built schema. -/
theorem forall_mem_of_build {P : String × Entity → Prop}
    (hP : ∀ name steps, P (name, Entity.ofSteps name steps))
    {definitions : List (String × List EntityStep)} {schema : Schema}
    (h : build definitions = .ok schema) :
    schema.entities.keys.Nodup ∧ (∀ pair ∈ schema.entities, P pair) ∧ schema.validate = .ok () := by
  have hv : (ofDefinitions definitions).validate = .ok () ∧ ofDefinitions definitions = schema := by
    simp only [build] at h
    split at h
    · exact ⟨‹_›, by simpa using h⟩
    · contradiction
  obtain ⟨hvalid, rfl⟩ := hv
  have hpairs : ∀ pair ∈ definitions.map fun definition =>
      (definition.1, Entity.ofSteps definition.1 definition.2), P pair := by
    intro pair hm
    obtain ⟨⟨name, steps⟩, -, rfl⟩ := List.mem_map.mp hm
    exact hP name steps
  obtain ⟨hnodup, hall⟩ := Table.ofPairs_induction hpairs
  exact ⟨hnodup, hall, hvalid⟩

/-- Every schema that the builder accepts is well formed. -/
theorem wellFormed_of_build {definitions : List (String × List EntityStep)} {schema : Schema}
    (h : build definitions = .ok schema) : schema.WellFormed := by
  obtain ⟨hnodup, hall, hvalid⟩ := forall_mem_of_build
    (P := fun pair => Entity.Building pair.2 pair.1) Entity.building_ofSteps h
  exact ⟨hnodup, fun pair hm => (hall pair hm).name_eq, fun pair hm => (hall pair hm).toWellFormed,
    hvalid⟩

lemma entity_eq_ok {schema : Schema} {name : String} {entity : Entity} :
    schema.entity name = .ok entity ↔ schema.entities.find? name = some entity := by
  rw [Schema.entity]
  cases schema.entities.find? name <;> simp

namespace WellFormed

variable {schema : Schema} (h : schema.WellFormed) {name : String} {entity : Entity}
include h

lemma name_eq (he : schema.entity name = .ok entity) : entity.name = name :=
  h.entity_name _ (Table.mem_of_find? (entity_eq_ok.mp he))

lemma wellFormed (he : schema.entity name = .ok entity) : entity.WellFormed :=
  h.entity_wellFormed _ (Table.mem_of_find? (entity_eq_ok.mp he))

lemma checkRelation_eq_ok (he : schema.entity name = .ok entity) {relation : Relation}
    {field : String} (hr : entity.relation field = .ok relation) :
    schema.checkRelation entity relation = .ok () := by
  have hmem : entity ∈ schema.entities.map Prod.snd :=
    List.mem_map.mpr ⟨_, Table.mem_of_find? (entity_eq_ok.mp he), rfl⟩
  have hentity : schema.checkEntity entity = .ok () := checkAll_eq_ok_iff.mp h.valid entity hmem
  rw [checkEntity] at hentity
  split at hentity
  · have hrel : relation ∈ entity.relations :=
      (h.wellFormed he).mem_relations.mpr ((h.wellFormed he).relation_name hr ▸ hr)
    exact checkAll_eq_ok_iff.mp hentity relation hrel
  · contradiction

theorem targetEntity_eq_ok (he : schema.entity name = .ok entity) {relation : Relation}
    {field : String} (hr : entity.relation field = .ok relation) :
    ∃ target, schema.targetEntity relation = .ok target := by
  have hcheck := h.checkRelation_eq_ok he hr
  simp only [checkRelation] at hcheck
  split at hcheck
  · contradiction
  · exact ⟨_, ‹_›⟩

/-- The relation that another one is paired with is of the opposite kind and leads back. -/
theorem paired (he : schema.entity name = .ok entity) {relation : Relation} {field : String}
    (hr : entity.relation field = .ok relation) {pairedName : String}
    (hp : relation.pairedName? = some pairedName) {target : Entity}
    (ht : schema.targetEntity relation = .ok target) :
    ∃ paired, target.relation pairedName = .ok paired ∧
      schema.targetRelation relation = .ok (some paired) ∧
      paired.kind = relation.kind.opposite ∧ paired.target = name := by
  have hcheck := h.checkRelation_eq_ok he hr
  simp only [checkRelation, ht, hp] at hcheck
  cases hpaired : target.relation pairedName with
  | error e => simp [hpaired] at hcheck
  | ok paired =>
    refine ⟨paired, rfl, ?_, ?_⟩
    · rw [targetRelation, ht]
      refine Except.bind_eq_ok.mpr ⟨target, rfl, ?_⟩
      simp only [hp, hpaired]
      rfl
    · simp only [hpaired] at hcheck
      split at hcheck
      · contradiction
      · rename_i hfit
        rw [h.name_eq he] at hfit
        tauto

end WellFormed

end Schema

end EntityGraph
