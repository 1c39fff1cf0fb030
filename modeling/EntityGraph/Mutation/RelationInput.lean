import EntityGraph.Mutation.FieldValues
import EntityGraph.Mutation.Rows
import EntityGraph.Value.Order
/-!
Relations of the row being written, and the steps that their inputs share. Every step reports its
results, and its failure unless that is fatal, under the path of its input.
-/
namespace EntityGraph.Mutation

/-! ### A relation with both of its sides looked up -/

structure RelationSides where
  entity : Entity
  relation : Relation
  target : Entity
  /-- The relation of the target; inverse relations always have one. -/
  paired : Option Relation

namespace RelationSides

def ofRelation (schema : Schema) (entity : Entity) (relation : Relation) :
    Except SchemaError RelationSides := do
  let target ← schema.targetEntity relation
  let paired ← schema.targetRelation relation
  .ok ⟨entity, relation, target, paired⟩

/-- The sides of the relation behind a field. -/
def ofField (schema : Schema) (entity : Entity) (field : String) :
    Except Failure RelationSides :=
  (do ofRelation schema entity (← entity.relation field)).mapError .schema

def kind (sides : RelationSides) : RelationKind := sides.relation.kind

def pair (sides : RelationSides) : Except Failure Relation :=
  match sides.paired with
  | some relation => .ok relation
  | none =>
    .error (.schema (.invalidRelation sides.entity.name sides.relation.name .missingPairedRelation))

def unsupported (sides : RelationSides) (operation : RelationOperation) (place : InputPlace) :
    Failure :=
  .unsupported sides.entity.name sides.relation.name sides.kind operation place

def path (sides : RelationSides) : Path := [.field sides.relation.name]

def itemPath (sides : RelationSides) (index : Nat) (label : Option String) : Path :=
  [.field sides.relation.name, .index index label]

end RelationSides

/-! ### Steps -/

variable {I : Interface}

/-- Runs an operation and puts a path in front of what it reports. -/
def underPath (path : Path) (operation : Action I (List Result)) : Action I (List Result) :=
  ExceptT.mk do
    match ← operation.run with
    | .ok results => return .ok (allUnder path results)
    | .error failure =>
      match failure.result? with
      | some result => return .ok [result.under path]
      | none => return .error failure

def Resolved.under (path : Path) (resolved : Resolved I) : Resolved I :=
  ⟨resolved.value, allUnder path resolved.results, resolved.after.map (underPath path)⟩

/-- A deferred value that reports under a path, also for what runs after the statement. -/
def deferUnderPath (path : Path) (resolve : Action I (Resolved I)) : FieldValue I :=
  .deferred <| ExceptT.mk do
    match ← resolve.run with
    | .ok resolved => return .ok (resolved.under path)
    | .error failure =>
      match failure.result? with
      | some result => return .ok (.skip [result.under path])
      | none => return .error failure

/-- One step of a relation input. -/
inductive InputStep where
  /-- An operation of its own. -/
  | run (operation : Action Rows (List Result))
  /-- A value for the joining column of the row being written. -/
  | column (value : FieldValue Rows)

def disconnecting (relation : String) : Data := Data.empty.withOne relation .disconnect

/-- The result that says which row was missing. -/
def missing (which : UniqueWhere) : List Result := [.atRoot (.notFound which)]

/-- Whether the key is the one of the given row. -/
def isRow (row : Option Value) (key : Value) : Bool :=
  match row with
  | some own => key.equal own
  | none => false

/-- The key of the target, for the joining column. A one-to-one target that another row claims is
first disconnected from that row; the row that already claims it leaves its column alone. -/
def connectOwning (sides : RelationSides) (which : UniqueWhere) (row : Option Value) :
    FieldValue Rows :=
  deferUnderPath sides.path do
    match ← Rows.primaryValue sides.target which with
    | none => return .skip (missing which)
    | some target =>
      if sides.kind ≠ .oneHasOneOwning then
        return .ofValue target
      else
        let claim := UniqueWhere.empty.withRelation sides.relation.name
          (byPrimary sides.target target)
        match ← Rows.primaryValue sides.entity claim with
        | none => return .ofValue target
        | some owner =>
          if isRow row owner then
            return .skip []
          else
            let results ← Rows.update sides.entity (byPrimary sides.entity owner)
              (disconnecting sides.relation.name)
            return ⟨some target, results, none⟩

/-- Inserts the target, and hands its key to the joining column. -/
def insertTarget (sides : RelationSides) (data : Data) : Action Rows (Resolved Rows) := do
  let results ← Rows.insert sides.target data
  return ⟨createdKey? results, results, none⟩

def createOwning (sides : RelationSides) (data : Data) : FieldValue Rows :=
  deferUnderPath sides.path (insertTarget sides data)

/-- Reports that a column must not be null. -/
def refuseNull (path : Path) : InputStep :=
  .run (underPath path (pure [.atRoot (.violation .notNull)]))

/-- The results of an attempt to update, unless the row was missing. -/
def foundRow? : List Result → Option (List Result)
  | ⟨_, .notFound _⟩ :: _ => none
  | results => some results

end EntityGraph.Mutation
