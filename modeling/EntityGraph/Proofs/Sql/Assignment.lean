import EntityGraph.Proofs.Sql.Evaluation
import EntityGraph.Proofs.Sql.Grammar
/-!
# Truth under an assignment

The atoms of a condition are its comparisons, tests for `NULL` and memberships. Once they have truth
values, so has the condition, be it a tree or a derivation of the grammar. The condition of a
selection is read in other places than the condition around it, and the membership in the selection
depends on its truth in all of them.
-/
namespace EntityGraph.Sql

/-- What a comparison is about. -/
inductive Term where
  | column (column : ColumnRef)
  | value (value : Value)

/-- The truth values of the atoms in each place. -/
structure Assignment (Place : Type) where
  compare : Place → Term → Comparison → Term → Truth
  isNull : Place → Term → Truth
  isIn : Place → Term → List Term → Truth
  /-- Nothing is a member of an empty list. -/
  isIn_nil : ∀ place term, isIn place term [] = .fails
  /-- Membership in one column of the rows of a table under a condition. -/
  member : Place → (operand selected : Term) → TableRef → (Place → Truth) → Truth

/-! ### Trees -/

def Expr.term? (expr : Expr) : Option Term :=
  match expr.kind with
  | .param value => some (.value value)
  | .column column => some (.column column)
  | _ => none

section

variable {Place : Type} (assignment : Assignment Place)

namespace Assignment

def compared (place : Place) (left : Option Term) (comparison : Comparison) (right : Option Term) :
    Truth :=
  match left, right with
  | some left, some right => assignment.compare place left comparison right
  | _, _ => .unknown

def nullTest (place : Place) (operand : Option Term) : Truth :=
  match operand with
  | some operand => assignment.isNull place operand
  | none => .unknown

def listTest (place : Place) (operand : Option Term) (items : Option (List Term)) : Truth :=
  match operand, items with
  | some operand, some items => assignment.isIn place operand items
  | _, _ => .unknown

def memberTest (place : Place) (operand selected : Option Term) (table : TableRef)
    (condition : Place → Truth) : Truth :=
  match operand, selected with
  | some operand, some selected => assignment.member place operand selected table condition
  | _, _ => .unknown

end Assignment

mutual
/-- The truth of an expression; it is unknown of what is no condition. -/
def Expr.truth : Expr → Place → Truth
  | ⟨kind, _⟩, place => kind.truth place
termination_by structural expr => expr

def ExprKind.truth : ExprKind → Place → Truth
  | .condition tree, place => tree.truth place
  | .binary (.compare comparison) left right, place =>
    assignment.compared place left.term? comparison right.term?
  | .binary .isIn left right, place => right.contains left.term? place
  | .binary .notIn left right, place => (right.contains left.term? place).not
  | .isNull operand, place => assignment.nullTest place operand.term?
  | .isNotNull operand, place => (assignment.nullTest place operand.term?).not
  | _, _ => .unknown
termination_by structural kind => kind

def ConditionTree.truth : ConditionTree → Place → Truth
  | .and operands, place => .all (exprTruths operands place)
  | .or operands, place => .any (exprTruths operands place)
  | .not operand, place => (operand.truth place).not
  | .single operand, place => operand.truth place
  | .always, _ => .holds
  | .never, _ => .fails
termination_by structural tree => tree

def exprTruths : List Expr → Place → List Truth
  | [], _ => []
  | expr :: rest, place => expr.truth place :: exprTruths rest place
termination_by structural exprs => exprs

/-- Whether an operand is among the items of a row or the rows of a selection. -/
def Expr.contains (operand : Option Term) : Expr → Place → Truth
  | ⟨kind, _⟩, place => kind.contains operand place
termination_by structural expr => expr

def ExprKind.contains (operand : Option Term) : ExprKind → Place → Truth
  | .row items, place => assignment.listTest place operand (items.mapM Expr.term?)
  | .select select, place => select.contains operand place
  | _, _ => .unknown
termination_by structural kind => kind

def Select.contains (operand : Option Term) : Select → Place → Truth
  | ⟨[column], [table], condition, [], none, none⟩, place =>
    assignment.memberTest place operand column.term? table fun inner =>
      conditionTruth condition inner
  | _, _ => .unknown
termination_by structural select => select

/-- A condition that is not there holds. -/
def conditionTruth : Option ConditionTree → Place → Truth
  | some tree, place => tree.truth place
  | none, _ => .holds
termination_by structural condition => condition
end

end

/-! ### Databases -/

def Term.value? (scope : Scope) : Term → Option Value
  | column reference => reference.value? scope
  | value known => some known

/-- The truth values that the rows of a database give, in each of their scopes. -/
def Assignment.ofStore (store : Store) : Assignment Scope where
  compare scope left comparison right :=
    (do some (comparison.test (← left.value? scope) (← right.value? scope))).getD .unknown
  isNull scope operand := (do some (Truth.ofBool (← operand.value? scope).isNull)).getD .unknown
  isIn scope operand items :=
    (do some (Sql.memberTest (← operand.value? scope)
      (← items.mapM (Term.value? scope)))).getD .fails
  isIn_nil scope operand := by cases operand.value? scope <;> rfl
  member scope operand selected table condition :=
    let inside (row : Row) : Scope := (table.referenceName, row) :: scope
    let rows := (store.rows table.name).filter fun row => condition (inside row) = .holds
    (do some (Sql.memberTest (← operand.value? scope)
      (← rows.mapM fun row => selected.value? (inside row)))).getD .unknown

/-! ### Derivations -/

def Operand.term (bound : Nat → Value) : Operand → Term
  | column name => .column (Sql.column name)
  | placeholder number => .value (bound number)

section

variable {Place : Type} (assignment : Assignment Place) (bound : Nat → Value)

mutual
/-- The truth of a parsed condition; `bound` has the value of each placeholder. -/
def Disjunction.truth : Disjunction → Place → Truth
  | .one operand, place => operand.truth place
  | .or operand rest, place => (operand.truth place).or (rest.truth place)
termination_by structural condition => condition

def Conjunction.truth : Conjunction → Place → Truth
  | .one operand, place => operand.truth place
  | .and operand rest, place => (operand.truth place).and (rest.truth place)
termination_by structural condition => condition

def Negation.truth : Negation → Place → Truth
  | .one operand, place => operand.truth place
  | .not operand, place => (operand.truth place).not
termination_by structural condition => condition

def Primary.truth : Primary → Place → Truth
  | .group inner, place => inner.truth place
  | .constant holds, _ => .ofBool holds
  | .compare left comparison right, place =>
    assignment.compare place (left.term bound) comparison (right.term bound)
  | .isNull operand, place => assignment.isNull place (operand.term bound)
  | .isIn operand first rest, place =>
    assignment.isIn place (operand.term bound) ((first :: rest).map (Operand.term bound))
  | .member operand selected table condition, place =>
    assignment.member place (operand.term bound) (.column (column selected)) (Sql.table table)
      fun inner => condition.truth inner
termination_by structural condition => condition
end

end

end EntityGraph.Sql
