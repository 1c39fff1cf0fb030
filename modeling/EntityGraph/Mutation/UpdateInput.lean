import EntityGraph.Mutation.RelationInput
/-!
Relation inputs of a row that exists. What a relation does not offer is refused before anything
runs.
-/
namespace EntityGraph.Mutation

/-- A row and one of its relations. -/
structure RelatedRow where
  sides : RelationSides
  primary : Value

namespace RelatedRow

def key (row : RelatedRow) : UniqueWhere := byPrimary row.sides.entity row.primary

def targetKey (row : RelatedRow) (primary : Value) : UniqueWhere :=
  byPrimary row.sides.target primary

/-- Restricts a unique where on the target to the rows that point at this row. -/
def pointingHere (row : RelatedRow) (paired : Relation) (which : UniqueWhere) : UniqueWhere :=
  which.withRelation paired.name row.key

/-- The data of a target row that points at this row. -/
def linked (row : RelatedRow) (paired : Relation) (data : Data) : Data :=
  data.withValue paired.name row.primary

/-- The key of the target in the joining column of this row. -/
def currentTarget (row : RelatedRow) : Action Rows (Option Value) :=
  Rows.selectField row.sides.entity row.key row.sides.relation.name

/-! Owning has-one relations -/

def updateTarget (row : RelatedRow) (data : Data) : Action Rows (List Result) := do
  match ← row.currentTarget with
  | some target => Rows.update row.sides.target (row.targetKey target) data
  | none => return [.atRoot (.idle .emptyRelation)]

def upsertTarget (row : RelatedRow) (create update : Data) : Action Rows (Resolved Rows) := do
  match ← row.currentTarget with
  | some target =>
    let results ← Rows.update row.sides.target (row.targetKey target) update
    return .skip results
  | none => insertTarget row.sides create

/-- Clears the joining column; the target is deleted once the row no longer points at it. -/
def deleteTarget (row : RelatedRow) : Action Rows (Resolved Rows) := do
  match ← row.currentTarget with
  | some target =>
    return ⟨some .null, [], some (Rows.delete row.sides.target (row.targetKey target))⟩
  | none => return ⟨some .null, [.atRoot (.idle .emptyRelation)], none⟩

def owningStep (row : RelatedRow) (input : ToOneInput) : InputStep :=
  let path := row.sides.path
  match input with
  | .connect which => .column (connectOwning row.sides which (some row.primary))
  | .create data => .column (createOwning row.sides data)
  | .update data => .run (underPath path (row.updateTarget data))
  | .upsert create update => .column (deferUnderPath path (row.upsertTarget create update))
  | .delete =>
    if row.sides.relation.isNullable then .column (deferUnderPath path row.deleteTarget)
    else refuseNull path
  | .disconnect =>
    if row.sides.relation.isNullable then .column (.value .null) else refuseNull path

/-! Inverse one-to-one relations -/

/-- Inserts a target for this row, after the previous one was disconnected. -/
def replaceInverse (row : RelatedRow) (paired : Relation) (data : Data) :
    Action Rows (List Result) := do
  let previous ← Rows.update row.sides.target (row.pointingHere paired .empty)
    (disconnecting paired.name)
  let inserted ← Rows.insert row.sides.target (row.linked paired data)
  return previous.filter (fun result => !result.outcome.isNotFound) ++ inserted

/-- Updates the target at `which`, or inserts one where it is missing. -/
def upsertInverse (row : RelatedRow) (paired : Relation) (which : UniqueWhere)
    (update create : Data) : Action Rows (List Result) := do
  match foundRow? (← Rows.update row.sides.target which update) with
  | some results => return results
  | none => Rows.insert row.sides.target (row.linked paired create)

def inverseOperation (row : RelatedRow) (paired : Relation) (input : ToOneInput) :
    Action Rows (List Result) :=
  let here := row.pointingHere paired .empty
  match input with
  | .connect which =>
    Rows.update row.sides.target which (Data.empty.withOne paired.name (.connect row.key))
  | .create data => row.replaceInverse paired data
  | .update data => Rows.update row.sides.target here data
  | .upsert create update => row.upsertInverse paired here update create
  | .delete => Rows.delete row.sides.target here
  | .disconnect => Rows.update row.sides.target here (disconnecting paired.name)

/-- The step that an input on a has-one relation asks for. -/
def toOneStep (row : RelatedRow) (input : ToOneInput) : Except Failure InputStep :=
  match row.sides.kind with
  | .manyHasOne | .oneHasOneOwning => .ok (row.owningStep input)
  | .oneHasOneInverse => do
    let paired ← row.sides.pair
    .ok (.run (underPath row.sides.path (row.inverseOperation paired input)))
  | _ => .error (row.sides.unsupported input.operation .toOne)

/-! One-to-many relations -/

def itemOperation (row : RelatedRow) (paired : Relation) (input : ToManyInput) :
    Action Rows (List Result) :=
  match input with
  | .connect which => Rows.update row.sides.target which (row.linked paired .empty)
  | .create data => Rows.insert row.sides.target (row.linked paired data)
  | .update which data => Rows.update row.sides.target (row.pointingHere paired which) data
  | .upsert which update create =>
    row.upsertInverse paired (row.pointingHere paired which) update create
  | .delete which => Rows.delete row.sides.target (row.pointingHere paired which)
  | .disconnect which =>
    Rows.update row.sides.target (row.pointingHere paired which) (disconnecting paired.name)

/-! Many-to-many relations -/

/-- Links the target through the junction table, whichever side owns it. -/
def connectJunction (row : RelatedRow) (target : Value) : Action Rows (List Result) := do
  match row.sides.kind with
  | .manyHasManyOwning => Rows.connect row.sides.entity row.sides.relation row.primary target
  | _ => Rows.connect row.sides.target (← liftExcept row.sides.pair) target row.primary

def disconnectJunction (row : RelatedRow) (target : Value) : Action Rows (List Result) := do
  match row.sides.kind with
  | .manyHasManyOwning => Rows.disconnect row.sides.entity row.sides.relation row.primary target
  | _ => Rows.disconnect row.sides.target (← liftExcept row.sides.pair) target row.primary

def insertLinked (row : RelatedRow) (data : Data) : Action Rows (List Result) := do
  let results ← Rows.insert row.sides.target data
  match createdKey? results with
  | some target => return results ++ (← row.connectJunction target)
  | none => return results

def updateLinked (row : RelatedRow) (target : Value) (data : Data) :
    Action Rows (List Result) := do
  let results ← Rows.update row.sides.target (row.targetKey target) data
  return results ++ (← row.connectJunction target)

def junctionOperation (row : RelatedRow) (input : ToManyInput) : Action Rows (List Result) :=
  let find := Rows.primaryValue row.sides.target
  match input with
  | .connect which => do
    match ← find which with
    | some target => row.connectJunction target
    | none => return missing which
  | .create data => row.insertLinked data
  | .update which data => do
    match ← find which with
    | some target => row.updateLinked target data
    | none => return missing which
  | .upsert which update create => do
    match ← find which with
    | some target => row.updateLinked target update
    | none => row.insertLinked create
  | .delete which => Rows.delete row.sides.target which
  | .disconnect which => do
    match ← find which with
    | some target => row.disconnectJunction target
    | none => return missing which

def toManyOperation (row : RelatedRow) (index : Nat) (item : ToManyItem) :
    Except Failure (Action Rows (List Result)) :=
  let path := row.sides.itemPath index item.label
  match row.sides.kind with
  | .oneHasMany => do
    let paired ← row.sides.pair
    .ok (underPath path (row.itemOperation paired item.input))
  | .manyHasManyOwning | .manyHasManyInverse => .ok (underPath path (row.junctionOperation item.input))
  | _ => .error (row.sides.unsupported item.input.operation .toMany)

/-- The operations of the items from a position on. -/
def toManyFrom (row : RelatedRow) (index : Nat) :
    List ToManyItem → Except Failure (List (Action Rows (List Result)))
  | [] => .ok []
  | item :: rest => do
    let operation ← row.toManyOperation index item
    let operations ← row.toManyFrom (index + 1) rest
    .ok (operation :: operations)

/-- The operations that the inputs on a to-many relation ask for, in order. -/
def toManyOperations (row : RelatedRow) (items : List ToManyItem) :
    Except Failure (List (Action Rows (List Result))) :=
  row.toManyFrom 0 items

end RelatedRow

end EntityGraph.Mutation
