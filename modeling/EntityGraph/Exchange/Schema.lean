import EntityGraph.Exchange.Reading
import EntityGraph.Schema.Builder
import EntityGraph.Schema.Json
/-!
Schema definitions in exchange documents: entities, each with the steps that define it.
-/
namespace EntityGraph.Exchange

def relationOptions (json : Json) : Reading RelationOptions := do
  return {
    nullable := !flag "notNull" json
    onDelete := ← orElse "onDelete" json .restrict (word OnDelete.ofName?)
    inversedBy := ← optional "inversedBy" json asText
    orphanRemoval := flag "orphanRemoval" json
    joiningColumn := ← optional "joiningColumn" json asText }

/-- The options at the end of the arguments, where there are any. -/
def lastOptions (arguments : List Json) : Reading RelationOptions :=
  match arguments.getLast? with
  | some (.object members) => relationOptions (.object members)
  | _ => .ok {}

def entityStep (json : Json) : Reading EntityStep := do
  let (step, arguments) ← single json
  let arguments ← asList arguments
  let options ← lastOptions arguments
  match step, arguments with
  | "unique", fields => return .unique (← fields.mapM asText)
  | "table", [name] => return .table (← asText name)
  | "column", [name, type] => return .column (← asText name) (← word ColumnType.ofName? type)
  | "required", [name, type] => return .required (← asText name) (← word ColumnType.ofName? type)
  | "manyHasOne", name :: target :: _ =>
    return .manyHasOne (← asText name) (← asText target) options
  | "oneHasOne", name :: target :: _ => return .oneHasOne (← asText name) (← asText target) options
  | "manyHasMany", name :: target :: _ =>
    return .manyHasMany (← asText name) (← asText target) options
  | "oneHasMany", name :: target :: ownedBy :: _ =>
    return .oneHasMany (← asText name) (← asText target) (← asText ownedBy)
  | "oneHasOneInverse", name :: target :: ownedBy :: _ =>
    return .oneHasOneInverse (← asText name) (← asText target) (← asText ownedBy) options
  | "manyHasManyInverse", name :: target :: ownedBy :: _ =>
    return .manyHasManyInverse (← asText name) (← asText target) (← asText ownedBy)
  | _, _ => .error s!"malformed step {step}"

def definition (json : Json) : Reading (String × List EntityStep) := do
  return (← text "name" json, ← required "steps" json (listOf entityStep))

def ofRelation (relation : Relation) : Json :=
  .object [
    ("kind", .string relation.kind.name),
    ("isHasOne", .bool relation.kind.isHasOne),
    ("hasJoiningColumn", .bool relation.kind.hasJoiningColumn),
    ("joiningColumn", nullable JoiningColumn.toJson relation.joiningColumn?),
    ("joiningTable", nullable JoiningTable.toJson relation.joiningTable?),
    ("nullable", .bool relation.isNullable),
    ("orphanRemoval", .bool relation.removesOrphans),
    ("paired", .ofText? relation.pairedName?),
    ("owning", .bool relation.kind.isOwning)]

end EntityGraph.Exchange
