import EntityGraph.Comparison
import EntityGraph.OrderBy
import EntityGraph.Value
/-!
SQL expressions, condition trees and selections. Builders only make trees; text comes from
`EntityGraph.Sql.Statement` alone.
-/
namespace EntityGraph.Sql

structure TableRef where
  name : String
  asName : Option String
deriving DecidableEq

/-- The name by which the rest of a statement refers to a table. -/
def TableRef.referenceName (table : TableRef) : String := table.asName.getD table.name

def table (name : String) : TableRef := ⟨name, none⟩

structure ColumnRef where
  name : String
  table : Option TableRef
  asName : Option String
deriving DecidableEq

def column (name : String) : ColumnRef := ⟨name, none, none⟩

/-- A column named together with its table. -/
def columnOf (table : TableRef) (name : String) : ColumnRef := ⟨name, some table, none⟩

inductive Operator where
  | compare (comparison : Comparison)
  | isIn
  | notIn
deriving DecidableEq

mutual
/-- An expression under an optional name. -/
structure Expr where
  kind : ExprKind
  asName : Option String

inductive ExprKind where
  /-- A value, sent to the database beside the text. -/
  | param (value : Value)
  | raw (text : String)
  | column (column : ColumnRef)
  | row (items : List Expr)
  | select (select : Select)
  | condition (tree : ConditionTree)
  | binary (operator : Operator) (left right : Expr)
  | isNull (operand : Expr)
  | isNotNull (operand : Expr)
  | asterisk (table : Option TableRef)
  | default

/-- Conditions on rows. A conjunction of nothing holds and a disjunction of nothing does not. -/
inductive ConditionTree where
  | and (operands : List Expr)
  | or (operands : List Expr)
  | not (operand : Expr)
  | single (operand : Expr)
  | always
  | never

/-- A selection; without columns it selects all of them. -/
structure Select where
  columns : List Expr
  tables : List TableRef
  condition : Option ConditionTree
  ordering : List (Expr × Option SortOrder)
  limit : Option Nat
  offset : Option Nat
end

namespace Expr

def ofKind (kind : ExprKind) : Expr := ⟨kind, none⟩

def param (value : Value) : Expr := .ofKind (.param value)

def column (column : ColumnRef) : Expr := .ofKind (.column column)

def row (items : List Expr) : Expr := .ofKind (.row items)

def params (values : List Value) : Expr := .row (values.map .param)

def select (select : Select) : Expr := .ofKind (.select select)

def condition (tree : ConditionTree) : Expr := .ofKind (.condition tree)

def binary (operator : Operator) (left right : Expr) : Expr := .ofKind (.binary operator left right)

def isIn (left right : Expr) : Expr := binary .isIn left right

def equals (left right : Expr) : Expr := binary (.compare .equal) left right

def isNull (operand : Expr) : Expr := .ofKind (.isNull operand)

def isNotNull (operand : Expr) : Expr := .ofKind (.isNotNull operand)

def asRow? (expr : Expr) : Option (List Expr) :=
  match expr.kind with
  | .row items => some items
  | _ => none

def asValue? (expr : Expr) : Option Value :=
  match expr.kind with
  | .param value => some value
  | _ => none

end Expr

namespace ConditionTree

/-- A condition tree inside an expression is taken out, and the expression's name is dropped. -/
def ofExpr (expr : Expr) : ConditionTree :=
  match expr.kind with
  | .condition tree => tree
  | _ => .single expr

def negation (tree : ConditionTree) : ConditionTree := .not (.condition tree)

/-- Both conditions; what always holds is dropped, and a conjunction on the left is extended. -/
def andWith : ConditionTree → ConditionTree → ConditionTree
  | .always, other => other
  | tree, .always => tree
  | .never, _ => .never
  | _, .never => .never
  | .and left, .and right => .and (left ++ right)
  | .and left, right => .and (left ++ [.condition right])
  | left, right => .and [.condition left, .condition right]

end ConditionTree

namespace Select

def empty : Select := ⟨[], [], none, [], none, none⟩

def fromTable (table : TableRef) : Select := { empty with tables := [table] }

def column (select : Select) (column : ColumnRef) : Select :=
  { select with columns := select.columns ++ [.column column] }

/-- Puts a condition in place of an earlier one. -/
def filtered (select : Select) (tree : ConditionTree) : Select :=
  { select with condition := some tree }

/-- Adds a condition to an earlier one. -/
def andFiltered (select : Select) (tree : ConditionTree) : Select :=
  match select.condition with
  | some earlier => select.filtered (earlier.andWith tree)
  | none => select.filtered tree

end Select

end EntityGraph.Sql
