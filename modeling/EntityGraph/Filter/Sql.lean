import EntityGraph.Filter
import EntityGraph.Schema
import EntityGraph.Sql.Expr
/-!
Filters as SQL conditions on the table of an entity. A relation becomes a membership in a
selection from the side that stores the link; where only the key of the target is restricted, the
joining column is restricted instead.
-/
namespace EntityGraph

open Sql (ColumnRef ConditionTree Expr Select)

namespace Condition

def compareColumn (column : ColumnRef) (operator : Sql.Operator) (right : Expr) : Expr :=
  .binary operator (.column column) right

mutual
/-- The condition on a column; every operator stays on that column. -/
def toTree (column : ColumnRef) : Condition → ConditionTree
  | and operands => .and (allToExprs column operands)
  | or operands => .or (allToExprs column operands)
  | not operand => .negation (toTree column operand)
  | compare comparison value =>
    .single (compareColumn column (.compare comparison) (.param value))
  | oneOf values => .single (compareColumn column .isIn (.params values))
  | noneOf values => .not (compareColumn column .isIn (.params values))
  | isNull true | null true => .single (.isNull (.column column))
  | isNull false | null false => .not (.isNull (.column column))
  | never => .never
  | always => .always
termination_by structural condition => condition

def allToExprs (column : ColumnRef) : List Condition → List Expr
  | [] => []
  | operand :: rest => .condition (toTree column operand) :: allToExprs column rest
termination_by structural operands => operands
end

end Condition

namespace Filter

/-- The condition of a filter that restricts the key of the target and nothing else. -/
def onKeyOnly? (target : Entity) : Filter → Option Condition
  | ⟨[], [], none, [(name, .condition condition)]⟩ =>
    if name = target.primary then some condition else none
  | _ => none

/-- The selection of one column of the rows that satisfy a condition. -/
def selection (tableName columnName : String) (tree : ConditionTree) : Select :=
  ((Select.fromTable (Sql.table tableName)).column (Sql.column columnName)).filtered tree

def memberOf (column : String) (select : Select) : Expr :=
  .isIn (.column (Sql.column column)) (.select select)

/-- The relation of the target that stores the link of an inverse relation. -/
def owningSide (schema : Schema) (entity : Entity) (relation : Relation) :
    Except SchemaError Relation := do
  match ← schema.targetRelation relation with
  | some owning => .ok owning
  | none => .error (.invalidRelation entity.name relation.name .missingOwningSide)

/-- The junction table of a many-to-many relation, with the column of the declaring entity and the
column of the target. -/
def junctionOf (schema : Schema) (entity : Entity) (relation : Relation) :
    Except SchemaError (String × String × String) := do
  let owns := relation.kind.isOwning
  let owning ← if owns then pure relation else owningSide schema entity relation
  match owning.joiningTable? with
  | none => .error (.invalidRelation entity.name relation.name .missingJunctionTable)
  | some junction =>
    let column := junction.joiningColumn.columnName
    let inverse := junction.inverseJoiningColumn.columnName
    .ok (junction.tableName, if owns then (column, inverse) else (inverse, column))

/-- The condition that a restriction of a relation puts on the rows of `entity`. `nested` is the
restriction and `tree` its translation to the target. -/
def relationTree (schema : Schema) (entity target : Entity) (relation : Relation)
    (nested : Filter) (tree : Except SchemaError ConditionTree) :
    Except SchemaError ConditionTree :=
  match relation.kind with
  | .manyHasOne | .oneHasOneOwning => do
    let joining ← entity.columnName relation.name
    match onKeyOnly? target nested with
    | some condition => .ok (condition.toTree (Sql.column joining))
    | none =>
      let keys := selection target.tableName target.primaryColumn (← tree)
      .ok (.single (memberOf joining keys))
  | .oneHasMany | .oneHasOneInverse => do
    let owning ← owningSide schema entity relation
    let joining ← target.columnName owning.name
    .ok (.single (memberOf entity.primaryColumn (selection target.tableName joining (← tree))))
  | .manyHasManyOwning | .manyHasManyInverse => do
    let (tableName, thisColumn, otherColumn) ← junctionOf schema entity relation
    let keys := selection target.tableName target.primaryColumn (← tree)
    let linked := selection tableName thisColumn (.single (memberOf otherColumn keys))
    .ok (.single (memberOf entity.primaryColumn linked))

/-- One condition stands for itself, none for no restriction. -/
def together : List ConditionTree → ConditionTree
  | [] => .always
  | [tree] => tree
  | trees => .and (trees.map .condition)

mutual
def toTree (schema : Schema) (entity : Entity) : Filter → Except SchemaError ConditionTree
  | ⟨and, or, not, fields⟩ => do
    let all ← if and.isEmpty then pure [] else do
      let operands ← operandTrees schema entity and
      pure [ConditionTree.and operands]
    let any ← if or.isEmpty then pure [] else do
      let operands ← operandTrees schema entity or
      pure [ConditionTree.or operands]
    let none ← negationTree schema entity not
    let each ← fieldTrees schema entity fields
    .ok (together (all ++ any ++ none ++ each))
termination_by structural filter => filter

def operandTrees (schema : Schema) (entity : Entity) : List Filter → Except SchemaError (List Expr)
  | [] => .ok []
  | operand :: rest => do
    let tree ← toTree schema entity operand
    let exprs ← operandTrees schema entity rest
    .ok (.condition tree :: exprs)
termination_by structural operands => operands

def negationTree (schema : Schema) (entity : Entity) :
    Option Filter → Except SchemaError (List ConditionTree)
  | none => .ok []
  | some operand => do .ok [.negation (← toTree schema entity operand)]
termination_by structural operand => operand

def fieldTrees (schema : Schema) (entity : Entity) :
    List (String × FieldFilter) → Except SchemaError (List ConditionTree)
  | [] => .ok []
  | (name, .condition condition) :: rest => do
    let column ← entity.columnName name
    let trees ← fieldTrees schema entity rest
    .ok (condition.toTree (Sql.column column) :: trees)
  | (name, .relation nested) :: rest => do
    let relation ← entity.relation name
    let target ← schema.targetEntity relation
    let tree ← relationTree schema entity target relation nested (toTree schema target nested)
    let trees ← fieldTrees schema entity rest
    .ok (tree :: trees)
termination_by structural fields => fields
end

end Filter

end EntityGraph
