import EntityGraph.Json
import EntityGraph.Schema
/-!
Schemas as JSON. Reading ignores members it does not know, fills in the members that have a
default, takes most records also as lists of their members, and does not validate the schema.
-/
namespace EntityGraph

namespace Json

/-- A required string member. -/
def text? (key : String) (json : Json) : Option String := (json.member? key).bind asText?

/-- A word of a fixed set. It stands alone, or as the only member of an object, with nothing in it. -/
def word? : Json → Option String
  | .string word => some word
  | .object [(word, .null)] => some word
  | .object [(word, .object [])] => some word
  | _ => none

/-- A flag that is false where its member is missing. -/
def flag? (key : String) (json : Json) : Option Bool :=
  match json.member? key with
  | some found => found.asBool?
  | none => some false

/-- A string member that may be missing or null. -/
def maybeText? (key : String) (json : Json) : Option (Option String) :=
  match json.member? key with
  | none => some none
  | some .null => some none
  | some found => found.asText?.map some

end Json

namespace ColumnType

def name : ColumnType → String
  | uuid => "uuid"
  | string => "string"
  | int => "int"
  | double => "double"
  | bool => "bool"
  | dateTime => "dateTime"
  | json => "json"
  | enum => "enum"

def all : List ColumnType := [uuid, string, int, double, bool, dateTime, json, enum]

def ofName? (name : String) : Option ColumnType := all.find? fun type => type.name = name

@[simp] theorem ofName?_name (type : ColumnType) : ofName? type.name = some type := by
  cases type <;> decide

end ColumnType

namespace OnDelete

def name : OnDelete → String
  | restrict => "restrict"
  | cascade => "cascade"
  | setNull => "setNull"

def ofName? (name : String) : Option OnDelete :=
  [restrict, cascade, setNull].find? fun action => action.name = name

@[simp] theorem ofName?_name (action : OnDelete) : ofName? action.name = some action := by
  cases action <;> decide

end OnDelete

namespace Column

def toMembers (column : Column) : Table Json :=
  [("name", .string column.name), ("columnName", .string column.columnName),
   ("columnType", .string column.columnType.name), ("nullable", .bool column.nullable)]

def ofJson? (json : Json) : Option Column := do
  let json := json.asRecord ["name", "columnName", "columnType", "nullable"]
  let type ← ColumnType.ofName? (← (← json.member? "columnType").word?)
  some ⟨← json.text? "name", ← json.text? "columnName", type, ← json.flag? "nullable"⟩

end Column

namespace JoiningColumn

def toJson (joining : JoiningColumn) : Json :=
  .object [("columnName", .string joining.columnName), ("onDelete", .string joining.onDelete.name)]

def ofJson? (json : Json) : Option JoiningColumn := do
  let json := json.asRecord ["columnName", "onDelete"]
  let onDelete ← match json.member? "onDelete" with
    | none => some .restrict
    | some action => action.word?.bind OnDelete.ofName?
  some ⟨← json.text? "columnName", onDelete⟩

end JoiningColumn

namespace JoiningTable

def toJson (table : JoiningTable) : Json :=
  .object [("tableName", .string table.tableName), ("joiningColumn", table.joiningColumn.toJson),
    ("inverseJoiningColumn", table.inverseJoiningColumn.toJson)]

def ofJson? (json : Json) : Option JoiningTable := do
  let json := json.asRecord ["tableName", "joiningColumn", "inverseJoiningColumn"]
  let joining ← (json.member? "joiningColumn").bind JoiningColumn.ofJson?
  let inverse ← (json.member? "inverseJoiningColumn").bind JoiningColumn.ofJson?
  some ⟨← json.text? "tableName", joining, inverse⟩

end JoiningTable

namespace RelationKind

def all : List RelationKind :=
  [manyHasOne, oneHasMany, oneHasOneOwning, oneHasOneInverse, manyHasManyOwning, manyHasManyInverse]

/-- A kind is given by its name, or by its place among all kinds. -/
def ofJson? : Json → Option RelationKind
  | .string name => all.find? fun kind => kind.name = name
  | .number (.integer (.ofNat place)) => all[place]?
  | _ => none

@[simp] theorem ofJson?_name (kind : RelationKind) : ofJson? (.string kind.name) = some kind := by
  cases kind <;> rfl

end RelationKind

namespace Link

def toMembers : Link → Table Json
  | manyHasOne column nullable inversedBy =>
    [("joiningColumn", column.toJson), ("nullable", .bool nullable),
     ("inversedBy", .ofText? inversedBy)]
  | oneHasMany ownedBy => [("ownedBy", .string ownedBy)]
  | oneHasOneOwning column nullable inversedBy orphanRemoval =>
    [("joiningColumn", column.toJson), ("nullable", .bool nullable),
     ("inversedBy", .ofText? inversedBy), ("orphanRemoval", .bool orphanRemoval)]
  | oneHasOneInverse ownedBy nullable =>
    [("ownedBy", .string ownedBy), ("nullable", .bool nullable)]
  | manyHasManyOwning table inversedBy =>
    [("joiningTable", table.toJson), ("inversedBy", .ofText? inversedBy)]
  | manyHasManyInverse ownedBy => [("ownedBy", .string ownedBy)]

/-- The link of a relation of the given kind. -/
def ofJson? (kind : RelationKind) (json : Json) : Option Link :=
  let joining := (json.member? "joiningColumn").bind JoiningColumn.ofJson?
  let nullable := (json.member? "nullable").bind Json.asBool?
  match kind with
  | .manyHasOne => do
    some (.manyHasOne (← joining) (← nullable) (← json.maybeText? "inversedBy"))
  | .oneHasMany => do some (.oneHasMany (← json.text? "ownedBy"))
  | .oneHasOneOwning => do
    some (.oneHasOneOwning (← joining) (← nullable) (← json.maybeText? "inversedBy")
      (← json.flag? "orphanRemoval"))
  | .oneHasOneInverse => do some (.oneHasOneInverse (← json.text? "ownedBy") (← nullable))
  | .manyHasManyOwning => do
    let table ← (json.member? "joiningTable").bind JoiningTable.ofJson?
    some (.manyHasManyOwning table (← json.maybeText? "inversedBy"))
  | .manyHasManyInverse => do some (.manyHasManyInverse (← json.text? "ownedBy"))

end Link

namespace Relation

def toMembers (relation : Relation) : Table Json :=
  [("name", .string relation.name), ("target", .string relation.target),
   ("kind", .string relation.kind.name)] ++ relation.link.toMembers

def ofJson? (json : Json) : Option Relation := do
  let kind ← (json.member? "kind").bind RelationKind.ofJson?
  let link ← Link.ofJson? kind json
  some ⟨← json.text? "name", ← json.text? "target", link⟩

end Relation

namespace Field

/-- The sort of a field is written as its `type`. -/
def toJson : Field → Json
  | .column c => .object (("type", .string "column") :: c.toMembers)
  | .relation r => .object (("type", .string "relation") :: r.toMembers)

/-- The content of a field of the named sort. -/
def ofContent? (sort : String) (content : Json) : Option Field :=
  match sort with
  | "column" => (Column.ofJson? content).map .column
  | "relation" => (Relation.ofJson? content).map .relation
  | _ => none

/-- A field written as a list has its sort in front. -/
def ofJson? : Json → Option Field
  | .array (.string sort :: content) => ofContent? sort (.array content)
  | json => (json.text? "type").bind fun sort => ofContent? sort json

end Field

namespace Entity

def uniqueToJson (fields : List String) : Json := .object [("fields", .strings fields)]

def uniqueOfJson? (json : Json) : Option (List String) := do
  let json := json.asRecord ["fields"]
  (← (← json.member? "fields").asArray?).mapM Json.asText?

def toJson (entity : Entity) : Json :=
  .object [("name", .string entity.name), ("primary", .string entity.primary),
    ("primaryColumn", .string entity.primaryColumn), ("tableName", .string entity.tableName),
    ("fields", .object (entity.fields.map fun (key, field) => (key, field.toJson))),
    ("unique", .array (entity.unique.map uniqueToJson))]

def ofJson? (json : Json) : Option Entity := do
  let json := json.asRecord
    ["name", "primary", "primaryColumn", "tableName", "fields", "unique"]
  let members ← (← json.member? "fields").asObject?
  let fields ← members.mapM fun (key, field) => (Field.ofJson? field).map (key, ·)
  let unique ← match json.member? "unique" with
    | none => some []
    | some constraints => do (← constraints.asArray?).mapM uniqueOfJson?
  some ⟨← json.text? "name", ← json.text? "primary", ← json.text? "primaryColumn",
    ← json.text? "tableName", fields, unique⟩

end Entity

namespace Schema

def toJson (schema : Schema) : Json :=
  .object [("entities", .object (schema.entities.map fun (key, entity) => (key, entity.toJson)))]

def ofJson? (json : Json) : Option Schema := do
  let json := json.asRecord ["entities"]
  let members ← (← json.member? "entities").asObject?
  let entities ← members.mapM fun (key, entity) => (Entity.ofJson? entity).map (key, ·)
  some ⟨entities⟩

end Schema

end EntityGraph
