import EntityGraph.Sql.Expr
import EntityGraph.Proofs.Sql.Truth
/-!
The meaning of conditions and selections on the rows of a database. A column is looked up in the
rows in sight from the innermost outwards, so that a selection inside a condition may refer to the
row around it. What has no meaning here evaluates to nothing.
-/
namespace EntityGraph

abbrev Row := Table Value

/-- The rows of every table. -/
structure Store where
  rows : String → List Row

namespace Sql

/-- The rows in sight, the innermost first, each with the name of its table. -/
abbrev Scope := List (String × Row)

/-- Rows whose condition holds; a condition that is unknown drops the row. -/
def selected (truth? : Row → Option Truth) : List Row → Option (List Row)
  | [] => some []
  | row :: rest => do
    let truth ← truth? row
    let kept ← selected truth? rest
    some (if truth = .holds then row :: kept else kept)

def ColumnRef.value? (column : ColumnRef) : Scope → Option Value
  | [] => none
  | (name, row) :: outer =>
    match column.table with
    | some table =>
      if table.referenceName = name then row.find? column.name else column.value? outer
    | none => (row.find? column.name).or (column.value? outer)

def Expr.value? (scope : Scope) (expr : Expr) : Option Value :=
  match expr.kind with
  | .param value => some value
  | .column column => column.value? scope
  | _ => none

def memberTest (value : Value) (values : List Value) : Truth :=
  .any (values.map (Comparison.equal.test value))

mutual
def Expr.truth? (store : Store) : Expr → Scope → Option Truth
  | ⟨kind, _⟩, scope => kind.truth? store scope
termination_by structural expr => expr

def ExprKind.truth? (store : Store) : ExprKind → Scope → Option Truth
  | .condition tree, scope => tree.truth? store scope
  | .binary (.compare comparison) left right, scope => do
    let a ← left.value? scope
    let b ← right.value? scope
    some (comparison.test a b)
  | .binary .isIn left right, scope => do
    let value ← left.value? scope
    let values ← right.values? store scope
    some (memberTest value values)
  | .binary .notIn left right, scope => do
    let value ← left.value? scope
    let values ← right.values? store scope
    some (memberTest value values).not
  | .isNull operand, scope => do
    let value ← operand.value? scope
    some (.ofBool value.isNull)
  | .isNotNull operand, scope => do
    let value ← operand.value? scope
    some (.ofBool !value.isNull)
  | _, _ => none
termination_by structural kind => kind

def ConditionTree.truth? (store : Store) : ConditionTree → Scope → Option Truth
  | .and operands, scope => Truth.all <$> exprTruths? store operands scope
  | .or operands, scope => Truth.any <$> exprTruths? store operands scope
  | .not operand, scope => Truth.not <$> operand.truth? store scope
  | .single operand, scope => operand.truth? store scope
  | .always, _ => some .holds
  | .never, _ => some .fails
termination_by structural tree => tree

def exprTruths? (store : Store) : List Expr → Scope → Option (List Truth)
  | [], _ => some []
  | expr :: rest, scope => do
    let truth ← expr.truth? store scope
    let truths ← exprTruths? store rest scope
    some (truth :: truths)
termination_by structural exprs => exprs

/-- A condition that is not there holds. -/
def conditionTruth? (store : Store) : Option ConditionTree → Scope → Option Truth
  | some tree, scope => tree.truth? store scope
  | none, _ => some .holds
termination_by structural condition => condition

/-- The values of the one column that a selection from one table has. -/
def Select.values? (store : Store) : Select → Scope → Option (List Value)
  | ⟨[column], [table], condition, [], none, none⟩, scope => do
    let rows ← selected
      (fun row => conditionTruth? store condition ((table.referenceName, row) :: scope))
      (store.rows table.name)
    rows.mapM fun row => column.value? ((table.referenceName, row) :: scope)
  | _, _ => none
termination_by structural select => select

/-- The values that a membership ranges over. -/
def Expr.values? (store : Store) : Expr → Scope → Option (List Value)
  | ⟨kind, _⟩, scope => kind.values? store scope
termination_by structural expr => expr

def ExprKind.values? (store : Store) : ExprKind → Scope → Option (List Value)
  | .row items, scope => items.mapM (Expr.value? scope)
  | .select select, scope => select.values? store scope
  | _, _ => none
termination_by structural kind => kind
end

section Laws

variable {store : Store} {scope : Scope}

theorem selected_eq_filter {truth? : Row → Option Truth} {rows : List Row}
    (h : ∀ row ∈ rows, (truth? row).isSome) :
    selected truth? rows = some (rows.filter fun row => truth? row = some .holds) := by
  induction rows with
  | nil => rfl
  | cons row rest ih =>
    rw [List.forall_mem_cons] at h
    obtain ⟨truth, ht⟩ := Option.isSome_iff_exists.mp h.1
    rw [selected, ht, ih h.2]
    by_cases hh : truth = .holds <;> simp [hh, ht]

lemma value?_column_of_find? {name column : String} {row : Row} {value : Value}
    (h : row.find? column = some value) :
    (Expr.column (Sql.column column)).value? ((name, row) :: scope) = some value := by
  simp [Expr.value?, Expr.column, Expr.ofKind, ColumnRef.value?, Sql.column, h]

@[simp] lemma Expr.value?_param (value : Value) :
    (Expr.param value).value? scope = some value := rfl

@[simp] lemma Expr.truth?_condition (tree : ConditionTree) :
    (Expr.condition tree).truth? store scope = tree.truth? store scope := rfl

@[simp] lemma truth?_single (expr : Expr) :
    (ConditionTree.single expr).truth? store scope = expr.truth? store scope := rfl

@[simp] lemma truth?_negation (tree : ConditionTree) :
    tree.negation.truth? store scope = Truth.not <$> tree.truth? store scope := rfl

lemma exprTruths?_eq_some {exprs : List Expr}
    (h : ∀ expr ∈ exprs, (expr.truth? store scope).isSome) :
    ∃ truths, exprTruths? store exprs scope = some truths ∧
      ∀ truth, truth ∈ truths ↔ ∃ expr ∈ exprs, expr.truth? store scope = some truth := by
  induction exprs with
  | nil => exact ⟨[], rfl, by simp⟩
  | cons expr rest ih =>
    rw [List.forall_mem_cons] at h
    obtain ⟨truth, ht⟩ := Option.isSome_iff_exists.mp h.1
    obtain ⟨truths, hts, hmem⟩ := ih h.2
    refine ⟨truth :: truths, by rw [exprTruths?, ht, hts]; rfl, fun other => ?_⟩
    rw [List.mem_cons, List.exists_mem_cons_iff, hmem, ht, Option.some_inj, eq_comm]

/-- A conjunction of conditions with a truth value has one, and holds when all of them do. -/
theorem truth?_and {operands : List Expr}
    (h : ∀ expr ∈ operands, (expr.truth? store scope).isSome) :
    ((ConditionTree.and operands).truth? store scope).isSome ∧
      ((ConditionTree.and operands).truth? store scope = some .holds ↔
        ∀ expr ∈ operands, expr.truth? store scope = some .holds) := by
  obtain ⟨truths, hts, hmem⟩ := exprTruths?_eq_some h
  have heq : (ConditionTree.and operands).truth? store scope = some (.all truths) := by
    rw [ConditionTree.truth?, hts]
    rfl
  rw [heq, Option.some_inj, Truth.all_eq_holds]
  refine ⟨rfl, fun hall expr he => ?_, fun hall truth ht => ?_⟩
  · obtain ⟨truth, ht⟩ := Option.isSome_iff_exists.mp (h expr he)
    rw [ht, hall truth ((hmem truth).mpr ⟨expr, he, ht⟩)]
  · obtain ⟨expr, he, heq⟩ := (hmem truth).mp ht
    exact Option.some_inj.mp (heq.symm.trans (hall expr he))

/-- A disjunction of conditions with a truth value has one, and holds when one of them does. -/
theorem truth?_or {operands : List Expr}
    (h : ∀ expr ∈ operands, (expr.truth? store scope).isSome) :
    ((ConditionTree.or operands).truth? store scope).isSome ∧
      ((ConditionTree.or operands).truth? store scope = some .holds ↔
        ∃ expr ∈ operands, expr.truth? store scope = some .holds) := by
  obtain ⟨truths, hts, hmem⟩ := exprTruths?_eq_some h
  have heq : (ConditionTree.or operands).truth? store scope = some (.any truths) := by
    rw [ConditionTree.truth?, hts]
    rfl
  rw [heq, Option.some_inj, Truth.any_eq_holds, ← hmem]
  simp

lemma memberTest_eq_holds {value : Value} {values : List Value} :
    memberTest value values = .holds ↔
      ∃ other ∈ values, Comparison.equal.test value other = .holds := by
  simp [memberTest, Truth.any_eq_holds]

lemma memberTest_eq_fails {value : Value} {values : List Value} :
    memberTest value values = .fails ↔
      ∀ other ∈ values, Comparison.equal.test value other = .fails := by
  simp [memberTest, Truth.any_eq_fails]

lemma truth?_isIn {left right : Expr} {value : Value} {values : List Value}
    (hl : left.value? scope = some value) (hr : right.values? store scope = some values) :
    (Expr.isIn left right).truth? store scope = some (memberTest value values) := by
  simp [Expr.isIn, Expr.binary, Expr.ofKind, Expr.truth?, ExprKind.truth?, hl, hr]

@[simp] lemma values?_params (values : List Value) :
    (Expr.params values).values? store scope = some values := by
  show (values.map Expr.param).mapM (Expr.value? scope) = some values
  induction values with
  | nil => rfl
  | cons value rest ih => simp [ih]

end Laws

end Sql

end EntityGraph
