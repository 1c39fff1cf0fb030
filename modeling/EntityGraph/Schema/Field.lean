/-!
Fields of an entity: columns, and relations of six kinds. The link of a relation is stored on
exactly one side, in a joining column of an owning has-one relation or in the junction table of an
owning many-to-many relation.
-/
namespace EntityGraph

inductive ColumnType where
  | uuid
  | string
  | int
  | double
  | bool
  | dateTime
  | json
  | enum
deriving DecidableEq

structure Column where
  name : String
  columnName : String
  columnType : ColumnType
  nullable : Bool
deriving DecidableEq

/-- What happens to the rows that point at a deleted row. -/
inductive OnDelete where
  | restrict
  | cascade
  | setNull
deriving DecidableEq

structure JoiningColumn where
  columnName : String
  onDelete : OnDelete
deriving DecidableEq

/-- A junction table: one column for the owning entity and one for the target. -/
structure JoiningTable where
  tableName : String
  joiningColumn : JoiningColumn
  inverseJoiningColumn : JoiningColumn
deriving DecidableEq

inductive RelationKind where
  | manyHasOne
  | oneHasMany
  | oneHasOneOwning
  | oneHasOneInverse
  | manyHasManyOwning
  | manyHasManyInverse
deriving DecidableEq

namespace RelationKind

def name : RelationKind → String
  | manyHasOne => "manyHasOne"
  | oneHasMany => "oneHasMany"
  | oneHasOneOwning => "oneHasOneOwning"
  | oneHasOneInverse => "oneHasOneInverse"
  | manyHasManyOwning => "manyHasManyOwning"
  | manyHasManyInverse => "manyHasManyInverse"

/-- Whether the relation leads to at most one row. -/
def isHasOne : RelationKind → Bool
  | manyHasOne | oneHasOneOwning | oneHasOneInverse => true
  | _ => false

/-- Whether the table of the declaring entity holds the joining column. -/
def hasJoiningColumn : RelationKind → Bool
  | manyHasOne | oneHasOneOwning => true
  | _ => false

/-- Whether the declaring side stores the link. -/
def isOwning : RelationKind → Bool
  | manyHasOne | oneHasOneOwning | manyHasManyOwning => true
  | _ => false

/-- The kind that the other side of a pair has. -/
def opposite : RelationKind → RelationKind
  | manyHasOne => oneHasMany
  | oneHasMany => manyHasOne
  | oneHasOneOwning => oneHasOneInverse
  | oneHasOneInverse => oneHasOneOwning
  | manyHasManyOwning => manyHasManyInverse
  | manyHasManyInverse => manyHasManyOwning

@[simp] theorem opposite_opposite (kind : RelationKind) : kind.opposite.opposite = kind := by
  cases kind <;> rfl

end RelationKind

/-- How a relation is linked, with what only its kind has. -/
inductive Link where
  | manyHasOne (column : JoiningColumn) (nullable : Bool) (inversedBy : Option String)
  | oneHasMany (ownedBy : String)
  | oneHasOneOwning (column : JoiningColumn) (nullable : Bool) (inversedBy : Option String)
      (orphanRemoval : Bool)
  | oneHasOneInverse (ownedBy : String) (nullable : Bool)
  | manyHasManyOwning (table : JoiningTable) (inversedBy : Option String)
  | manyHasManyInverse (ownedBy : String)
deriving DecidableEq

structure Relation where
  name : String
  target : String
  link : Link
deriving DecidableEq

namespace Relation

def kind (relation : Relation) : RelationKind :=
  match relation.link with
  | .manyHasOne .. => .manyHasOne
  | .oneHasMany .. => .oneHasMany
  | .oneHasOneOwning .. => .oneHasOneOwning
  | .oneHasOneInverse .. => .oneHasOneInverse
  | .manyHasManyOwning .. => .manyHasManyOwning
  | .manyHasManyInverse .. => .manyHasManyInverse

def joiningColumn? (relation : Relation) : Option JoiningColumn :=
  match relation.link with
  | .manyHasOne column .. => some column
  | .oneHasOneOwning column .. => some column
  | _ => none

def joiningTable? (relation : Relation) : Option JoiningTable :=
  match relation.link with
  | .manyHasManyOwning table _ => some table
  | _ => none

/-- A relation to many rows may always be empty. -/
def isNullable (relation : Relation) : Bool :=
  match relation.link with
  | .manyHasOne _ nullable _ => nullable
  | .oneHasOneOwning _ nullable _ _ => nullable
  | .oneHasOneInverse _ nullable => nullable
  | _ => true

/-- Whether a target that loses its owning row is deleted. -/
def removesOrphans (relation : Relation) : Bool :=
  match relation.link with
  | .oneHasOneOwning _ _ _ orphanRemoval => orphanRemoval
  | _ => false

/-- The relation of the target that this one is paired with; inverse relations always name one. -/
def pairedName? (relation : Relation) : Option String :=
  match relation.link with
  | .manyHasOne _ _ inversedBy => inversedBy
  | .oneHasOneOwning _ _ inversedBy _ => inversedBy
  | .manyHasManyOwning _ inversedBy => inversedBy
  | .oneHasMany ownedBy => some ownedBy
  | .oneHasOneInverse ownedBy _ => some ownedBy
  | .manyHasManyInverse ownedBy => some ownedBy

theorem joiningColumn?_isSome (relation : Relation) :
    relation.joiningColumn?.isSome = relation.kind.hasJoiningColumn := by
  obtain ⟨_, _, link⟩ := relation
  cases link <;> rfl

theorem joiningTable?_isSome (relation : Relation) :
    relation.joiningTable?.isSome = decide (relation.kind = .manyHasManyOwning) := by
  obtain ⟨_, _, link⟩ := relation
  cases link <;> rfl

end Relation

inductive Field where
  | column (column : Column)
  | relation (relation : Relation)
deriving DecidableEq

namespace Field

def name : Field → String
  | .column c => c.name
  | .relation r => r.name

def asColumn? : Field → Option Column
  | .column c => some c
  | .relation _ => none

def asRelation? : Field → Option Relation
  | .relation r => some r
  | .column _ => none

end Field

end EntityGraph
