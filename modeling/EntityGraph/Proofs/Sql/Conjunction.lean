import EntityGraph.Proofs.Sql.Assignment
import Mathlib.Data.List.Perm.Basic
/-!
# Conditions put together

A condition is evaluated from the truth values of its leaves, whatever these are. Putting a
condition to another one drops, absorbs and flattens, and still gives the conjunction of the two in
three-valued logic. So a selection to which conditions are added selects the rows that meet all of
them, in whatever order they came.
-/
namespace EntityGraph

namespace Truth

@[simp] lemma holds_and (a : Truth) : holds.and a = a := by cases a <;> rfl

@[simp] lemma fails_and (a : Truth) : fails.and a = fails := by cases a <;> rfl

@[simp] lemma and_fails (a : Truth) : a.and fails = fails := by cases a <;> rfl

lemma and_assoc (a b c : Truth) : (a.and b).and c = a.and (b.and c) := by
  cases a <;> cases b <;> cases c <;> rfl

@[simp] lemma all_nil : all [] = holds := rfl

@[simp] lemma all_cons (truth : Truth) (rest : List Truth) :
    all (truth :: rest) = truth.and (all rest) := rfl

lemma all_append (left right : List Truth) : all (left ++ right) = (all left).and (all right) := by
  induction left with
  | nil => simp
  | cons truth rest ih => simp [ih, and_assoc]

end Truth

namespace Sql

/-! ### Leaves -/

mutual
/-- The truth of a condition whose leaves, the expressions in it that are no conditions, have the
given truth values. -/
def ConditionTree.evaluate (leaf : Expr → Truth) : ConditionTree → Truth
  | .and operands => .all (evaluateAll leaf operands)
  | .or operands => .any (evaluateAll leaf operands)
  | .not operand => (operand.evaluate leaf).not
  | .single operand => operand.evaluate leaf
  | .always => .holds
  | .never => .fails
termination_by structural tree => tree

/-- A name given to a condition makes no difference. -/
def Expr.evaluate (leaf : Expr → Truth) : Expr → Truth
  | ⟨.condition tree, _⟩ => tree.evaluate leaf
  | expr => leaf expr
termination_by structural expr => expr

def evaluateAll (leaf : Expr → Truth) : List Expr → List Truth
  | [] => []
  | expr :: rest => expr.evaluate leaf :: evaluateAll leaf rest
termination_by structural exprs => exprs
end

section

variable {leaf : Expr → Truth}

@[simp] lemma evaluate_condition (tree : ConditionTree) :
    (Expr.condition tree).evaluate leaf = tree.evaluate leaf := rfl

lemma evaluateAll_eq_map (exprs : List Expr) :
    evaluateAll leaf exprs = exprs.map (Expr.evaluate leaf) := by
  induction exprs with
  | nil => rfl
  | cons expr rest ih => rw [evaluateAll, ih, List.map_cons]

@[simp] lemma evaluate_and (operands : List Expr) :
    (ConditionTree.and operands).evaluate leaf =
      .all (operands.map (Expr.evaluate leaf)) := by
  rw [ConditionTree.evaluate, evaluateAll_eq_map]

@[simp] lemma evaluate_always : ConditionTree.always.evaluate leaf = .holds := rfl

@[simp] lemma evaluate_never : ConditionTree.never.evaluate leaf = .fails := rfl

/-- Two conditions together have the truth of their conjunction. -/
theorem evaluate_andWith (left right : ConditionTree) :
    (left.andWith right).evaluate leaf = (left.evaluate leaf).and (right.evaluate leaf) := by
  fun_cases ConditionTree.andWith left right with
  | case1 | case2 => simp
  | case3 | case4 => simp
  -- From here on the operands of a conjunction stand in the one that is built.
  | case5 left right => simp [Truth.all_append]
  | case6 left => simp [Truth.all_append]
  | case7 => simp

end

mutual
/-- The truth under an assignment is that of the leaves under it. -/
theorem ConditionTree.truth_eq_evaluate {Place : Type} (assignment : Assignment Place)
    (place : Place) (tree : ConditionTree) :
    tree.truth assignment place = tree.evaluate fun expr => expr.truth assignment place := by
  cases tree with
  | and operands =>
    exact congrArg Truth.all (exprTruths_eq_evaluateAll assignment place operands)
  | or operands =>
    exact congrArg Truth.any (exprTruths_eq_evaluateAll assignment place operands)
  | not operand => exact congrArg Truth.not (operand.truth_eq_evaluate assignment place)
  | single operand => exact operand.truth_eq_evaluate assignment place
  | always | never => rfl
termination_by structural tree

theorem Expr.truth_eq_evaluate {Place : Type} (assignment : Assignment Place) (place : Place)
    (expr : Expr) :
    expr.truth assignment place = expr.evaluate fun leaf => leaf.truth assignment place := by
  obtain ⟨kind, name⟩ := expr
  cases kind with
  | condition tree => exact tree.truth_eq_evaluate assignment place
  | _ => rfl
termination_by structural expr

theorem exprTruths_eq_evaluateAll {Place : Type} (assignment : Assignment Place) (place : Place)
    (exprs : List Expr) :
    exprTruths assignment exprs place =
      evaluateAll (fun leaf => leaf.truth assignment place) exprs := by
  cases exprs with
  | nil => rfl
  | cons expr rest =>
    rw [exprTruths, evaluateAll, expr.truth_eq_evaluate assignment place,
      exprTruths_eq_evaluateAll assignment place rest]
termination_by structural exprs
end

/-! ### Selections -/

/-- The truth of the condition of a selection; without one every row is selected. -/
def Select.evaluate (leaf : Expr → Truth) (select : Select) : Truth :=
  match select.condition with
  | some tree => tree.evaluate leaf
  | none => .holds

/-- The rows that a selection selects, when its leaves have these truth values for each row. -/
def Select.chosen {Row : Type} (leaves : Row → Expr → Truth) (select : Select)
    (rows : List Row) : List Row :=
  rows.filter fun row => select.evaluate (leaves row) = .holds

lemma evaluate_andFiltered (leaf : Expr → Truth) (select : Select) (tree : ConditionTree) :
    (select.andFiltered tree).evaluate leaf =
      (select.evaluate leaf).and (tree.evaluate leaf) := by
  unfold Select.andFiltered
  split <;> rename_i hcondition
  · simp [Select.evaluate, Select.filtered, hcondition, evaluate_andWith]
  · simp [Select.evaluate, Select.filtered, hcondition]

lemma evaluate_foldl_andFiltered (leaf : Expr → Truth) (select : Select)
    (trees : List ConditionTree) :
    (trees.foldl Select.andFiltered select).evaluate leaf =
      (select.evaluate leaf).and (.all (trees.map (ConditionTree.evaluate leaf))) := by
  induction trees generalizing select with
  | nil => simp
  | cons tree rest ih =>
    rw [List.foldl_cons, ih, evaluate_andFiltered, Truth.and_assoc, List.map_cons, Truth.all_cons]

/-- Conditions that are added to a selection narrow it to the rows that meet all of them. -/
lemma chosen_foldl_andFiltered {Row : Type} (leaves : Row → Expr → Truth) (rows : List Row)
    (select : Select) (first : ConditionTree) (further : List ConditionTree) :
    (further.foldl Select.andFiltered (select.filtered first)).chosen leaves rows =
      rows.filter fun row =>
        ∀ tree ∈ first :: further, tree.evaluate (leaves row) = .holds := by
  refine List.filter_congr fun row _ => decide_eq_decide.mpr ?_
  rw [evaluate_foldl_andFiltered, Truth.and_eq_holds, Truth.all_eq_holds, List.forall_mem_cons,
    List.forall_mem_map]
  rfl

/-- Putting conditions together conjoins their truth values, and a selection is narrowed to the rows
that meet every condition, whatever their order. -/
theorem andWith_conjoins :
    (∀ (leaf : Expr → Truth) (left right : ConditionTree),
      (left.andWith right).evaluate leaf = (left.evaluate leaf).and (right.evaluate leaf)) ∧
    (∀ {Place : Type} (assignment : Assignment Place) (place : Place) (left right : ConditionTree),
      (left.andWith right).truth assignment place =
        (left.truth assignment place).and (right.truth assignment place)) ∧
    (∀ {Row : Type} (leaves : Row → Expr → Truth) (rows : List Row) (select : Select)
      (first : ConditionTree) (further : List ConditionTree),
      (further.foldl Select.andFiltered (select.filtered first)).chosen leaves rows =
        rows.filter fun row =>
          ∀ tree ∈ first :: further, tree.evaluate (leaves row) = .holds) ∧
    (∀ {Row : Type} (leaves : Row → Expr → Truth) (rows : List Row) (select : Select)
      (first other : ConditionTree) (further others : List ConditionTree),
      (first :: further).Perm (other :: others) →
        (further.foldl Select.andFiltered (select.filtered first)).chosen leaves rows =
          (others.foldl Select.andFiltered (select.filtered other)).chosen leaves rows) := by
  refine ⟨fun _ => evaluate_andWith, fun assignment place left right => ?_,
    chosen_foldl_andFiltered, fun leaves rows select first other further others hperm => ?_⟩
  · simp only [ConditionTree.truth_eq_evaluate, evaluate_andWith]
  · rw [chosen_foldl_andFiltered, chosen_foldl_andFiltered]
    exact List.filter_congr fun row _ => decide_eq_decide.mpr
      (forall_congr' fun tree => imp_congr_left hperm.mem_iff)

end Sql

end EntityGraph
