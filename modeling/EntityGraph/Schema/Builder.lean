import EntityGraph.Text.SnakeCase
import EntityGraph.Schema.Validation
/-!
Building a schema from steps. Tables and columns get the snake case of their names, joining
columns end in `_id`, and a junction table is named after its owner and its relation. What is
defined twice is replaced in place.
-/
namespace EntityGraph

/-- Options of a relation; those that do not apply to its kind have no effect. -/
structure RelationOptions where
  nullable : Bool := true
  onDelete : OnDelete := .restrict
  inversedBy : Option String := none
  orphanRemoval : Bool := false
  joiningColumn : Option String := none

/-- One step of the definition of an entity. -/
inductive EntityStep where
  | table (name : String)
  /-- A column that may be null. -/
  | column (name : String) (type : ColumnType)
  | required (name : String) (type : ColumnType)
  | unique (fields : List String)
  | manyHasOne (name target : String) (options : RelationOptions)
  | oneHasMany (name target ownedBy : String)
  | oneHasOne (name target : String) (options : RelationOptions)
  | oneHasOneInverse (name target ownedBy : String) (options : RelationOptions)
  | manyHasMany (name target : String) (options : RelationOptions)
  | manyHasManyInverse (name target ownedBy : String)

def RelationOptions.joining (options : RelationOptions) (relation : String) : JoiningColumn :=
  ⟨options.joiningColumn.getD (Text.snakeCase relation ++ "_id"), options.onDelete⟩

/-- The junction table of a many-to-many relation. Where target and owner would share a column
name, the column of the target is named after the relation. -/
def junctionTable (owner relation target : String) : JoiningTable :=
  let owner := Text.snakeCase owner
  let inverse := Text.snakeCase target
  let inverse := if inverse = owner then Text.snakeCase relation else inverse
  { tableName := owner ++ "_" ++ Text.snakeCase relation
    joiningColumn := ⟨owner ++ "_id", .cascade⟩
    inverseJoiningColumn := ⟨inverse ++ "_id", .cascade⟩ }

namespace Entity

/-- An entity with nothing but its key column, a uuid. -/
def named (name : String) : Entity where
  name := name
  primary := "id"
  primaryColumn := "id"
  tableName := Text.snakeCase name
  fields := [("id", .column ⟨"id", "id", .uuid, false⟩)]
  unique := []

def withColumn (entity : Entity) (name : String) (type : ColumnType) (nullable : Bool) : Entity :=
  let column := ⟨name, Text.snakeCase name, type, nullable⟩
  { entity with fields := entity.fields.put name (.column column) }

def withRelation (entity : Entity) (name target : String) (link : Link) : Entity :=
  { entity with fields := entity.fields.put name (.relation ⟨name, target, link⟩) }

def apply (entity : Entity) : EntityStep → Entity
  | .table name => { entity with tableName := name }
  | .column name type => entity.withColumn name type true
  | .required name type => entity.withColumn name type false
  | .unique fields => { entity with unique := entity.unique ++ [fields] }
  | .manyHasOne name target options =>
    entity.withRelation name target
      (.manyHasOne (options.joining name) options.nullable options.inversedBy)
  | .oneHasMany name target ownedBy => entity.withRelation name target (.oneHasMany ownedBy)
  | .oneHasOne name target options =>
    entity.withRelation name target
      (.oneHasOneOwning (options.joining name) options.nullable options.inversedBy
        options.orphanRemoval)
  | .oneHasOneInverse name target ownedBy options =>
    entity.withRelation name target (.oneHasOneInverse ownedBy options.nullable)
  | .manyHasMany name target options =>
    entity.withRelation name target
      (.manyHasManyOwning (junctionTable entity.name name target) options.inversedBy)
  | .manyHasManyInverse name target ownedBy =>
    entity.withRelation name target (.manyHasManyInverse ownedBy)

def ofSteps (name : String) (steps : List EntityStep) : Entity :=
  steps.foldl apply (named name)

end Entity

namespace Schema

def ofDefinitions (definitions : List (String × List EntityStep)) : Schema :=
  ⟨Table.ofPairs (definitions.map fun (name, steps) => (name, Entity.ofSteps name steps))⟩

/-- The schema of some definitions, provided that it is valid. -/
def build (definitions : List (String × List EntityStep)) : Except SchemaError Schema :=
  let schema := ofDefinitions definitions
  match schema.validate with
  | .ok () => .ok schema
  | .error e => .error e

end Schema

end EntityGraph
