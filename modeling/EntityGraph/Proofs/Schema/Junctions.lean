import EntityGraph.Proofs.Schema.Building
import EntityGraph.Proofs.Text.SnakeCase
/-!
# The columns of generated junction tables

A junction table has one column for the owner of the relation and one for its target. When owner and
target are alike, the second one is named after the relation, so the two columns are one exactly if
owner, target and relation are all spelled with the same words.
-/
namespace EntityGraph

/-! ### One junction table -/

lemma columns_junctionTable_eq_iff (owner relation target : String) :
    (junctionTable owner relation target).joiningColumn.columnName =
        (junctionTable owner relation target).inverseJoiningColumn.columnName ↔
      Text.Alike target owner ∧ Text.Alike relation owner := by
  have hcolumn (name : String) :
      Text.snakeCase owner ++ "_id" = Text.snakeCase name ++ "_id" ↔ Text.Alike name owner := by
    rw [← Text.snakeCase_eq_iff, eq_comm]
    exact String.append_left_inj "_id"
  by_cases h : Text.snakeCase target = Text.snakeCase owner
  · have htarget : Text.Alike target owner := (Text.snakeCase_eq_iff _ _).mp h
    simpa [junctionTable, h, htarget] using hcolumn relation
  · have htarget : ¬ Text.Alike target owner := mt (Text.snakeCase_eq_iff _ _).mpr h
    simpa [junctionTable, h, htarget] using (hcolumn target).not.mpr htarget

/-! ### Built schemas -/

namespace Entity

/-- The junction tables of an entity are those that the names of its relations give. -/
def NamesJunctions (entity : Entity) : Prop :=
  ∀ pair ∈ entity.fields, ∀ relation table, pair.2 = .relation relation →
    relation.joiningTable? = some table →
      table = junctionTable entity.name relation.name relation.target

variable {entity : Entity}

lemma NamesJunctions.withColumn (h : entity.NamesJunctions) (name : String) (type : ColumnType)
    (nullable : Bool) : (entity.withColumn name type nullable).NamesJunctions := by
  intro pair hm relation table hrelation
  rcases Table.mem_put hm with rfl | hmem
  · cases hrelation
  · exact h pair hmem relation table hrelation

lemma NamesJunctions.withRelation (h : entity.NamesJunctions) {name target : String} {link : Link}
    (hlink : ∀ table, Relation.joiningTable? ⟨name, target, link⟩ = some table →
      table = junctionTable entity.name name target) :
    (entity.withRelation name target link).NamesJunctions := by
  intro pair hm relation table hrelation htable
  rcases Table.mem_put hm with rfl | hmem
  · cases hrelation
    exact hlink table htable
  · exact h pair hmem relation table hrelation htable

lemma NamesJunctions.apply (h : entity.NamesJunctions) (step : EntityStep) :
    (entity.apply step).NamesJunctions := by
  cases step with
  | table | unique => exact h
  | column name type => exact h.withColumn name type true
  | required name type => exact h.withColumn name type false
  | manyHasMany name target options =>
    exact h.withRelation fun table htable => (Option.some.inj htable).symm
  | _ => exact h.withRelation fun table htable => nomatch htable

lemma namesJunctions_ofSteps (name : String) (steps : List EntityStep) :
    (ofSteps name steps).NamesJunctions := by
  refine ofSteps_induction ?_ (fun _ step h => h.apply step) steps
  intro pair hm relation table hrelation
  rw [named, List.mem_singleton] at hm
  subst hm
  cases hrelation

end Entity

namespace Schema

variable {definitions : List (String × List EntityStep)} {schema : Schema} {name field : String}
  {entity : Entity} {relation : Relation} {table : JoiningTable}

/-- The two columns of a junction table differ, unless the relation and its target are both named
like the owner. -/
theorem junction_columns_differ_iff (h : build definitions = .ok schema)
    (he : schema.entity name = .ok entity) (hr : entity.relation field = .ok relation)
    (ht : relation.joiningTable? = some table) :
    table.joiningColumn.columnName ≠ table.inverseJoiningColumn.columnName ↔
      ¬ (Text.Alike relation.target name ∧ Text.Alike field name) := by
  have hs := wellFormed_of_build h
  have hjunctions : entity.NamesJunctions :=
    (forall_mem_of_build (P := fun pair => pair.2.NamesJunctions)
      Entity.namesJunctions_ofSteps h).2.1 _ (Table.mem_of_find? (entity_eq_ok.mp he))
  have htable : table = junctionTable name field relation.target := by
    rw [← hs.name_eq he, ← (hs.wellFormed he).relation_name hr]
    exact hjunctions _ (Table.mem_of_find? (Entity.relation_eq_ok.mp hr)) relation table rfl ht
  rw [htable]
  exact (columns_junctionTable_eq_iff name field relation.target).not

/-- Two entities whose tables are both `http_server`; the relation keeps the columns apart. -/
theorem junction_columns_differ_servers :
    ∃ schema entity relation table,
      build [("HTTPServer", [.manyHasMany "peers" "HttpServer" {}]), ("HttpServer", [])] =
          .ok schema ∧
        schema.entity "HTTPServer" = .ok entity ∧ entity.relation "peers" = .ok relation ∧
        relation.joiningTable? = some table ∧
        table.joiningColumn.columnName ≠ table.inverseJoiningColumn.columnName := by
  let definitions : List (String × List EntityStep) :=
    [("HTTPServer", [.manyHasMany "peers" "HttpServer" {}]), ("HttpServer", [])]
  let table := junctionTable "HTTPServer" "peers" "HttpServer"
  let relation : Relation := ⟨"peers", "HttpServer", .manyHasManyOwning table none⟩
  let entity := Entity.ofSteps "HTTPServer" [.manyHasMany "peers" "HttpServer" {}]
  have hbuild : build definitions = .ok (ofDefinitions definitions) := by decide +kernel
  have hentity : (ofDefinitions definitions).entity "HTTPServer" = .ok entity := by
    decide +kernel
  have hrelation : entity.relation "peers" = .ok relation := by decide +kernel
  refine ⟨_, entity, relation, table, hbuild, hentity, hrelation, rfl, ?_⟩
  exact (junction_columns_differ_iff hbuild hentity hrelation rfl).mpr (by decide +kernel)

/-- A relation of an entity with itself that has the name of the entity. -/
theorem both_columns_person_id :
    ∃ schema entity relation table,
      build [("Person", [.manyHasMany "person" "Person" {}])] = .ok schema ∧
        schema.entity "Person" = .ok entity ∧ entity.relation "person" = .ok relation ∧
        relation.joiningTable? = some table ∧ table.joiningColumn.columnName = "person_id" ∧
        table.inverseJoiningColumn.columnName = "person_id" := by
  let definitions : List (String × List EntityStep) :=
    [("Person", [.manyHasMany "person" "Person" {}])]
  let table := junctionTable "Person" "person" "Person"
  have hbuild : build definitions = .ok (ofDefinitions definitions) := by decide +kernel
  refine ⟨_, Entity.ofSteps "Person" [.manyHasMany "person" "Person" {}],
    ⟨"person", "Person", .manyHasManyOwning table none⟩, table, hbuild, ?_⟩
  decide +kernel

end Schema

end EntityGraph
