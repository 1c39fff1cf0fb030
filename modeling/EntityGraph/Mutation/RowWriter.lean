import EntityGraph.Mutation.CreateInput
import EntityGraph.Mutation.Deletion
import EntityGraph.Mutation.RowStatement
/-!
Operations on rows, carried out by statements. The inputs of relations ask for further operations,
which are carried out in the same way, one level deeper.
-/
namespace EntityGraph.Mutation

/-- An input that waits for the key of the new row. -/
inductive Pending where
  | one (sides : RelationSides) (input : ToOneInput)
  | many (sides : RelationSides) (items : List ToManyItem)

/-- What the data of a new row asks for: values of the row, and inputs that wait for its key. -/
def planInsert (schema : Schema) (entity : Entity) :
    List (String × FieldInput) → Except Failure (FieldValues Rows × List Pending)
  | [] => .ok ([], [])
  | (field, .value value) :: rest => do
    let (values, pending) ← planInsert schema entity rest
    .ok ((field, .value value) :: values, pending)
  | (field, .one input) :: rest => do
    let sides ← RelationSides.ofField schema entity field
    if sides.kind.hasJoiningColumn then
      let column ← createColumn sides input
      let (values, pending) ← planInsert schema entity rest
      .ok ((field, column) :: values, pending)
    else
      let (values, pending) ← planInsert schema entity rest
      .ok (values, .one sides input :: pending)
  | (field, .many items) :: rest => do
    let sides ← RelationSides.ofField schema entity field
    let (values, pending) ← planInsert schema entity rest
    .ok (values, .many sides items :: pending)

/-- The operations of the inputs that waited for the key. -/
def afterInsert (primary : Value) :
    List Pending → Except Failure (List (Action Rows (List Result)))
  | [] => .ok []
  | .one sides input :: rest => do
    let operation ← RelatedRow.createToOne ⟨sides, primary⟩ input
    let operations ← afterInsert primary rest
    .ok (operation :: operations)
  | .many sides items :: rest => do
    let own ← RelatedRow.createToMany ⟨sides, primary⟩ items
    let operations ← afterInsert primary rest
    .ok (own ++ operations)

/-- What the data for an existing row asks for: values of the row, and operations of their own. -/
def planUpdate (schema : Schema) (entity : Entity) (primary : Value) :
    List (String × FieldInput) →
      Except Failure (FieldValues Rows × List (Action Rows (List Result)))
  | [] => .ok ([], [])
  | (field, .value value) :: rest => do
    let (values, operations) ← planUpdate schema entity primary rest
    .ok ((field, .value value) :: values, operations)
  | (field, .one input) :: rest => do
    let sides ← RelationSides.ofField schema entity field
    match ← RelatedRow.toOneStep ⟨sides, primary⟩ input with
    | .column value =>
      let (values, operations) ← planUpdate schema entity primary rest
      .ok ((field, value) :: values, operations)
    | .run operation =>
      let (values, operations) ← planUpdate schema entity primary rest
      .ok (values, operation :: operations)
  | (field, .many items) :: rest => do
    let sides ← RelationSides.ofField schema entity field
    let own ← RelatedRow.toManyOperations ⟨sides, primary⟩ items
    let (values, operations) ← planUpdate schema entity primary rest
    .ok (values, own ++ operations)

namespace Session

/-- A fresh key for a row without one, where keys are identifiers. -/
def withKey (entity : Entity) (values : FieldValues Rows) : Action Effect (FieldValues Rows) := do
  if values.names.contains entity.primary then return values
  let column ← liftExcept ((entity.column entity.primary).mapError .schema)
  if column.columnType = .uuid then
    let id ← ExceptT.lift Effect.freshUuid
    return values ++ [(entity.primary, .value (.uuid id))]
  else return values

def insertRow (session : Session) (rows : RowAnswers) (entity : Entity) (data : Data) :
    Action Effect (List Result) := do
  let (values, pending) ← liftExcept (planInsert session.schema entity data.fields)
  let values ← withKey entity values
  match ← attempt (session.insertValues rows entity values) with
  | .error failure => liftExcept failure.classified
  | .ok ⟨none, _, results⟩ => return .atRoot .denied :: results
  | .ok ⟨some primary, values, results⟩ =>
    let operations ← liftExcept (afterInsert primary pending)
    let related ← answered rows (collectAll operations)
    return .atRoot (.created entity.name primary values) :: (results ++ related)

/-- The results for the row itself, after its statement. -/
def updateResults (entity : Entity) (primary : Value) (updated : Updated) : List Result :=
  match updated.rows with
  | some 0 => .atRoot .denied :: updated.results
  | _ => .atRoot (.updated entity.name primary updated.values) :: updated.results

/-- Writes the row of a key, then runs the operations that its data asks for. -/
def updateFound (session : Session) (rows : RowAnswers) (entity : Entity) (primary : Value)
    (data : Data) : Action Effect (List Result) := do
  let (values, operations) ← liftExcept (planUpdate session.schema entity primary data.fields)
  let tree ← session.permitted entity (byPrimary entity primary).toFilter .update values.names
  let own ← attempt (session.updateValues rows entity values tree)
  let related ← attempt (answered rows (collectAll operations))
  let results ← match own with
    | .ok updated => pure (updateResults entity primary updated)
    | .error failure => liftExcept failure.classified
  return results ++ (← liftExcept related)

def updateRow (session : Session) (rows : RowAnswers) (entity : Entity) (which : UniqueWhere)
    (data : Data) : Action Effect (List Result) := do
  match which.expand entity with
  | .error e => liftExcept (Failure.nonUniqueWhere e).classified
  | .ok filter =>
    match ← session.selectColumn entity filter entity.primary with
    | none => return missing which
    | some primary =>
      if data.isEmpty then return [.atRoot (.idle .noData)]
      else session.updateFound rows entity primary data

def deleteRow (session : Session) (depth : Nat) (entity : Entity) (which : UniqueWhere) :
    Action Effect (List Result) := do
  match which.expand entity with
  | .error e => liftExcept (Failure.nonUniqueWhere e).classified
  | .ok filter =>
    match ← attempt (session.deleteWhere depth entity filter) with
    | .error failure => liftExcept failure.classified
    | .ok deleted => return deleted.map fun primary => .atRoot (.deleted entity.name primary)

def selectField (session : Session) (entity : Entity) (which : UniqueWhere) (field : String) :
    Action Effect (Option Value) := do
  let filter ← liftExcept ((which.expand entity).mapError .nonUniqueWhere)
  session.selectColumn entity filter field

/-- The junction table of an owning many-to-many relation. -/
def junction (owner : Entity) (relation : Relation) : Except Failure JoiningTable :=
  match relation.joiningTable? with
  | some table => .ok table
  | none => .error (.schema (.invalidRelation owner.name relation.name .missingJunctionTable))

def linkedResult (owner : Entity) (relation : Relation) (ownerKey inversedKey : Value)
    (idle : IdleReason) (rows : Nat) : List Result :=
  if rows = 0 then [.atRoot (.idle idle)]
  else [.atRoot (.linked owner.name relation.name ownerKey inversedKey)]

/-- Inserts a row into the junction table unless it is there. -/
def connect (session : Session) (owner : Entity) (relation : Relation)
    (ownerKey inversedKey : Value) : Action Effect (List Result) := do
  let table ← liftExcept (junction owner relation)
  let values := [(Sql.column table.joiningColumn.columnName, Sql.Expr.param ownerKey),
    (Sql.column table.inverseJoiningColumn.columnName, .param inversedKey)]
  let rows ← session.execute (.insert ⟨Sql.table table.tableName, values, true, []⟩)
  return linkedResult owner relation ownerKey inversedKey .alreadyExists rows

def disconnect (session : Session) (owner : Entity) (relation : Relation)
    (ownerKey inversedKey : Value) : Action Effect (List Result) := do
  let table ← liftExcept (junction owner relation)
  let side (column : String) (key : Value) : Sql.Expr :=
    .equals (.column (Sql.column column)) (.param key)
  let tree := Sql.ConditionTree.and [side table.joiningColumn.columnName ownerKey,
    side table.inverseJoiningColumn.columnName inversedKey]
  let rows ← session.execute (.delete ⟨Sql.table table.tableName, some tree, []⟩)
  return linkedResult owner relation ownerKey inversedKey .emptyRelation rows

/-- Carries out operations on rows that nest to a bounded depth. -/
def rows (session : Session) : Nat → RowAnswers
  | 0, _ => Effect.overrun
  | depth + 1, .insert entity data => session.insertRow (session.rows depth) entity data
  | depth + 1, .update entity which data =>
    session.updateRow (session.rows depth) entity which data
  | depth + 1, .delete entity which => session.deleteRow depth entity which
  | _ + 1, .selectField entity which field => session.selectField entity which field
  | _ + 1, .primaryValue entity which => session.selectField entity which entity.primary
  | _ + 1, .connect owner relation ownerKey inversedKey =>
    session.connect owner relation ownerKey inversedKey
  | _ + 1, .disconnect owner relation ownerKey inversedKey =>
    session.disconnect owner relation ownerKey inversedKey

end Session

end EntityGraph.Mutation
