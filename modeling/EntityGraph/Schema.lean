import EntityGraph.Table
import EntityGraph.Schema.Field
/-!
Schemas: named entities with their fields. Looking up a name that is missing, or a field of the
wrong sort, is an error that says which; so is a relation that does not fit its other side.
-/
namespace EntityGraph

/-- Why a relation does not fit the schema. -/
inductive RelationFault where
  | unknownTarget
  | noPairedRelation (target paired : String)
  | wrongPairing (target paired : String) (expected : RelationKind) (entity : String)
  | pairedElsewhere (target paired : String)
  | missingPairedRelation
  | missingJoiningColumn
  | missingJunctionTable
  | missingOwningSide
deriving DecidableEq

def RelationFault.message : RelationFault → String
  | unknownTarget => "unknown target entity"
  | noPairedRelation target paired => s!"`{target}.{paired}` does not exist"
  | wrongPairing target paired expected entity =>
    s!"`{target}.{paired}` must be a {expected.name} relation targeting `{entity}`"
  | pairedElsewhere target paired => s!"`{target}.{paired}` is paired with a different relation"
  | missingPairedRelation => "missing paired relation"
  | missingJoiningColumn => "missing joining column"
  | missingJunctionTable => "missing junction table"
  | missingOwningSide => "missing owning side"

inductive SchemaError where
  | unknownEntity (name : String)
  | unknownField (entity field : String)
  | notAColumn (entity field : String)
  | notARelation (entity field : String)
  | invalidRelation (entity relation : String) (fault : RelationFault)
  | invalidUnique (entity field : String)
deriving DecidableEq

def SchemaError.message : SchemaError → String
  | unknownEntity name => s!"Entity `{name}` not found"
  | unknownField entity field => s!"Field `{field}` on entity `{entity}` not found"
  | notAColumn entity field => s!"Field `{field}` on entity `{entity}` is not a column"
  | notARelation entity field => s!"Field `{field}` on entity `{entity}` is not a relation"
  | invalidRelation entity relation fault =>
    s!"Relation `{entity}.{relation}` is invalid: {fault.message}"
  | invalidUnique entity field =>
    s!"Unique constraint on `{entity}` refers to unknown field `{field}`"

/-- An entity, stored in one table. `primary` names its key field and `unique` lists the sets of
fields that are declared to identify a row. -/
structure Entity where
  name : String
  primary : String
  primaryColumn : String
  tableName : String
  fields : Table Field
  unique : List (List String)
deriving DecidableEq

namespace Entity

def field (entity : Entity) (name : String) : Except SchemaError Field :=
  match entity.fields.find? name with
  | some field => .ok field
  | none => .error (.unknownField entity.name name)

def column (entity : Entity) (name : String) : Except SchemaError Column :=
  match entity.field name with
  | .ok (.column column) => .ok column
  | .ok (.relation _) => .error (.notAColumn entity.name name)
  | .error e => .error e

def relation (entity : Entity) (name : String) : Except SchemaError Relation :=
  match entity.field name with
  | .ok (.relation relation) => .ok relation
  | .ok (.column _) => .error (.notARelation entity.name name)
  | .error e => .error e

def relations (entity : Entity) : List Relation :=
  entity.fields.filterMap fun (_, field) => field.asRelation?

def columns (entity : Entity) : List Column :=
  entity.fields.filterMap fun (_, field) => field.asColumn?

/-- The database column behind a field: its own, or the joining column of an owning has-one
relation. -/
def columnName (entity : Entity) (field : String) : Except SchemaError String :=
  match entity.field field with
  | .ok (.column column) => .ok column.columnName
  | .ok (.relation relation) =>
    match relation.joiningColumn? with
    | some joining => .ok joining.columnName
    | none => .error (.notAColumn entity.name field)
  | .error e => .error e

/-- Sets of fields that identify at most one row: the primary key, the declared constraints and
every owning one-to-one relation. -/
def uniqueKeys (entity : Entity) : List (List String) :=
  [entity.primary] :: entity.unique ++
    (entity.relations.filter (·.kind = .oneHasOneOwning)).map fun relation => [relation.name]

end Entity

structure Schema where
  entities : Table Entity
deriving DecidableEq

namespace Schema

def entity (schema : Schema) (name : String) : Except SchemaError Entity :=
  match schema.entities.find? name with
  | some entity => .ok entity
  | none => .error (.unknownEntity name)

def targetEntity (schema : Schema) (relation : Relation) : Except SchemaError Entity :=
  schema.entity relation.target

/-- The relation of the target that is paired with this one, if it has a pair. -/
def targetRelation (schema : Schema) (relation : Relation) :
    Except SchemaError (Option Relation) := do
  let target ← schema.targetEntity relation
  match relation.pairedName? with
  | some name => some <$> target.relation name
  | none => .ok none

/-- Every relation whose joining column points at the named entity, with the entity declaring it. -/
def owningRelationsTo (schema : Schema) (name : String) : List (Entity × Relation) :=
  schema.entities.flatMap fun (_, entity) =>
    (entity.relations.filter fun relation =>
      relation.kind.hasJoiningColumn && relation.target = name).map (entity, ·)

end Schema

end EntityGraph
