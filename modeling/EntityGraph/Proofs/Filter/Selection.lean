import EntityGraph.Proofs.Filter.Reading
/-!
Condition trees and selections read row by row. A reading says that a tree has a truth value on
every row of a table and which rows it holds of; readings of parts combine into readings of wholes.
-/
namespace EntityGraph

open Sql (ConditionTree Expr Scope)

variable {store : Store}

namespace Condition

mutual
/-- The condition on a column has the truth value that the value of the column gives it. -/
theorem truth?_toTree {name column : String} {row : Row} {value : Value} {outer : Scope}
    (h : row.find? column = some value) (condition : Condition) :
    (condition.toTree (Sql.column column)).truth? store ((name, row) :: outer) =
      some (condition.truth value) := by
  have hv : (Expr.column (Sql.column column)).value? ((name, row) :: outer) = some value :=
    Sql.value?_column_of_find? h
  cases condition with
  | and operands =>
    rw [toTree, ConditionTree.truth?, truths?_allToExprs h operands, truth]
    rfl
  | or operands =>
    rw [toTree, ConditionTree.truth?, truths?_allToExprs h operands, truth]
    rfl
  | not operand =>
    rw [toTree, Sql.truth?_negation, truth?_toTree h operand, truth]
    rfl
  | compare comparison other =>
    simp [toTree, compareColumn, Expr.binary, Expr.ofKind, Expr.truth?, Sql.ExprKind.truth?, hv,
      truth]
  | oneOf values =>
    rw [toTree, Sql.truth?_single]
    exact Sql.truth?_isIn hv (Sql.values?_params values)
  | noneOf values =>
    rw [toTree, ConditionTree.truth?]
    show Truth.not <$> (Expr.isIn _ _).truth? store _ = _
    rw [Sql.truth?_isIn hv (Sql.values?_params values)]
    rfl
  | isNull flag =>
    cases flag <;>
      simp [toTree, ConditionTree.truth?, Expr.isNull, Expr.ofKind, Expr.truth?,
        Sql.ExprKind.truth?, hv, truth]
    all_goals cases value.isNull <;> rfl
  | null flag =>
    cases flag <;>
      simp [toTree, ConditionTree.truth?, Expr.isNull, Expr.ofKind, Expr.truth?,
        Sql.ExprKind.truth?, hv, truth]
    all_goals cases value.isNull <;> rfl
  | never => rfl
  | always => rfl
termination_by structural condition

theorem truths?_allToExprs {name column : String} {row : Row} {value : Value} {outer : Scope}
    (h : row.find? column = some value) (operands : List Condition) :
    Sql.exprTruths? store (allToExprs (Sql.column column) operands) ((name, row) :: outer) =
      some (truths value operands) := by
  cases operands with
  | nil => rfl
  | cons operand rest =>
    rw [allToExprs, Sql.exprTruths?, Expr.truth?_condition, truth?_toTree h operand,
      truths?_allToExprs h rest]
    rfl
termination_by structural operands
end

end Condition

namespace Filter

/-- The selection of a column has the values of the rows on which its condition holds. -/
lemma values?_selection {tableName column : String} {tree : ConditionTree} {scope : Scope}
    (hcolumn : ∀ row ∈ store.rows tableName, ∃ value, row.find? column = some value)
    (htree : ∀ row ∈ store.rows tableName, (tree.truth? store ((tableName, row) :: scope)).isSome) :
    ∃ values, (selection tableName column tree).values? store scope = some values ∧
      ∀ value, value ∈ values ↔ ∃ row ∈ store.rows tableName,
        tree.truth? store ((tableName, row) :: scope) = some .holds ∧
          row.find? column = some value := by
  have hselected := Sql.selected_eq_filter htree
  generalize hkept : (store.rows tableName).filter (fun row =>
    tree.truth? store ((tableName, row) :: scope) = some .holds) = kept at hselected
  have hvalues : ∀ row ∈ kept, ∃ value,
      (Expr.column (Sql.column column)).value? ((tableName, row) :: scope) = some value ∧
        row.find? column = some value := by
    intro row hr
    rw [← hkept, List.mem_filter] at hr
    obtain ⟨value, hv⟩ := hcolumn row hr.1
    exact ⟨value, Sql.value?_column_of_find? hv, hv⟩
  have hmap : ∃ values, kept.mapM (fun row =>
      (Expr.column (Sql.column column)).value? ((tableName, row) :: scope)) = some values ∧
      ∀ value, value ∈ values ↔ ∃ row ∈ kept, row.find? column = some value := by
    clear hkept hselected
    induction kept with
    | nil => exact ⟨[], rfl, by simp⟩
    | cons row rest ih =>
      rw [List.forall_mem_cons] at hvalues
      obtain ⟨⟨value, hv, hf⟩, hrest⟩ := hvalues
      obtain ⟨values, hvs, hmem⟩ := ih hrest
      refine ⟨value :: values, by rw [List.mapM_cons, hv, hvs]; rfl, fun other => ?_⟩
      rw [List.mem_cons, List.exists_mem_cons_iff, hmem, hf, Option.some_inj, eq_comm]
  obtain ⟨values, hvs, hmem⟩ := hmap
  refine ⟨values, ?_, fun value => ?_⟩
  · show (Sql.selected (fun row => tree.truth? store ((tableName, row) :: scope))
      (store.rows tableName)).bind _ = some values
    rw [hselected]
    exact hvs
  · rw [hmem, ← hkept]
    simp [List.mem_filter, and_assoc]

section MemberOf

variable {name column tableName other : String} {row : Row} {tree : ConditionTree} {outer : Scope}
  (hrow : ∃ value, row.find? column = some value)
  (hcolumn : ∀ linked ∈ store.rows tableName, ∃ value, linked.find? other = some value)
  (htree : ∀ linked ∈ store.rows tableName,
    (tree.truth? store ((tableName, linked) :: (name, row) :: outer)).isSome)
include hrow hcolumn htree

/-- Membership of a column in a selection tests its value against those of the selected rows. -/
lemma truth?_memberOf_eq_memberTest :
    ∃ value values, row.find? column = some value ∧
      (memberOf column (selection tableName other tree)).truth? store ((name, row) :: outer) =
        some (Sql.memberTest value values) ∧
      ∀ found, found ∈ values ↔ ∃ linked ∈ store.rows tableName,
        tree.truth? store ((tableName, linked) :: (name, row) :: outer) = some .holds ∧
          linked.find? other = some found := by
  obtain ⟨value, hv⟩ := hrow
  obtain ⟨values, hvs, hmem⟩ := values?_selection hcolumn htree
  exact ⟨value, values, hv, Sql.truth?_isIn (Sql.value?_column_of_find? hv) hvs, hmem⟩

/-- It holds when a selected row agrees on the columns. -/
lemma truth?_memberOf :
    ((memberOf column (selection tableName other tree)).truth? store
        ((name, row) :: outer)).isSome ∧
      ((memberOf column (selection tableName other tree)).truth? store ((name, row) :: outer) =
          some .holds ↔
        ∃ linked ∈ store.rows tableName, row.Agree column linked other ∧
          tree.truth? store ((tableName, linked) :: (name, row) :: outer) = some .holds) := by
  obtain ⟨value, values, hv, htest, hmem⟩ := truth?_memberOf_eq_memberTest hrow hcolumn htree
  rw [htest, Option.some_inj, Sql.memberTest_eq_holds]
  refine ⟨rfl, ?_, ?_⟩
  · rintro ⟨found, hf, heq⟩
    obtain ⟨linked, hl, hholds, hcol⟩ := (hmem found).mp hf
    exact ⟨linked, hl, ⟨value, found, hv, hcol, heq⟩, hholds⟩
  · rintro ⟨linked, hl, ⟨a, b, ha, hb, heq⟩, hholds⟩
    cases hv.symm.trans ha
    exact ⟨b, (hmem b).mpr ⟨linked, hl, hholds, hb⟩, heq⟩

/-- It fails when every selected row differs there. -/
lemma truth?_memberOf_eq_fails :
    (memberOf column (selection tableName other tree)).truth? store ((name, row) :: outer) =
        some .fails ↔
      ∀ linked ∈ store.rows tableName,
        tree.truth? store ((tableName, linked) :: (name, row) :: outer) = some .holds →
          row.Differ column linked other := by
  obtain ⟨value, values, hv, htest, hmem⟩ := truth?_memberOf_eq_memberTest hrow hcolumn htree
  rw [htest, Option.some_inj, Sql.memberTest_eq_fails]
  constructor
  · intro hall linked hl hholds
    obtain ⟨found, hf⟩ := hcolumn linked hl
    exact ⟨value, found, hv, hf, hall found ((hmem found).mpr ⟨linked, hl, hholds, hf⟩)⟩
  · intro hall found hf
    obtain ⟨linked, hl, hholds, hcol⟩ := (hmem found).mp hf
    obtain ⟨a, b, ha, hb, heq⟩ := hall linked hl hholds
    cases hv.symm.trans ha
    cases hcol.symm.trans hb
    exact heq

end MemberOf

/-- Whether a tree has a truth value on the rows of a table in every scope, and under an
assumption holds of those that satisfy `P`. -/
def Reads (store : Store) (tableName : String) (assumption : Prop) (tree : ConditionTree)
    (P : Row → Prop) : Prop :=
  ∀ outer : Scope, ∀ row ∈ store.rows tableName,
    (tree.truth? store ((tableName, row) :: outer)).isSome ∧
      (assumption →
        (tree.truth? store ((tableName, row) :: outer) = some .holds ↔ P row))

/-- The same of several trees, which hold together of the rows that satisfy `P`. -/
def ReadTogether (store : Store) (tableName : String) (assumption : Prop)
    (trees : List ConditionTree) (P : Row → Prop) : Prop :=
  ∀ outer : Scope, ∀ row ∈ store.rows tableName,
    (∀ tree ∈ trees, (tree.truth? store ((tableName, row) :: outer)).isSome) ∧
      (assumption →
        ((∀ tree ∈ trees, tree.truth? store ((tableName, row) :: outer) = some .holds) ↔
          P row))

variable {tableName : String} {assumption other : Prop} {tree : ConditionTree}
  {trees : List ConditionTree} {P Q : Row → Prop}

lemma Reads.mono (h : Reads store tableName assumption tree P) (hother : other → assumption) :
    Reads store tableName other tree P :=
  fun outer row hr => ⟨(h outer row hr).1, fun ho => (h outer row hr).2 (hother ho)⟩

lemma Reads.congr (h : Reads store tableName assumption tree P) (hPQ : ∀ row, P row ↔ Q row) :
    Reads store tableName assumption tree Q :=
  fun outer row hr => ⟨(h outer row hr).1, fun ha => ((h outer row hr).2 ha).trans (hPQ row)⟩

/-- A condition on a column that every row has reads as the condition on its value. -/
lemma reads_column {column : String}
    (hcolumn : ∀ row ∈ store.rows tableName, ∃ value, row.find? column = some value)
    (condition : Condition) :
    Reads store tableName assumption (condition.toTree (Sql.column column))
      fun row => ∃ value, row.find? column = some value ∧ condition.truth value = .holds := by
  intro outer row hr
  obtain ⟨value, hv⟩ := hcolumn row hr
  rw [Condition.truth?_toTree hv, Option.some_inj]
  refine ⟨rfl, fun _ => ⟨fun hholds => ⟨value, hv, hholds⟩, ?_⟩⟩
  rintro ⟨_, hv', hholds⟩
  cases hv.symm.trans hv'
  exact hholds

lemma ReadTogether.mono (h : ReadTogether store tableName assumption trees P)
    (hother : other → assumption) : ReadTogether store tableName other trees P :=
  fun outer row hr => ⟨(h outer row hr).1, fun ho => (h outer row hr).2 (hother ho)⟩

lemma ReadTogether.congr (h : ReadTogether store tableName assumption trees P)
    (hPQ : ∀ row, P row ↔ Q row) : ReadTogether store tableName assumption trees Q :=
  fun outer row hr => ⟨(h outer row hr).1, fun ha => ((h outer row hr).2 ha).trans (hPQ row)⟩

lemma readTogether_nil (h : ∀ row, P row) : ReadTogether store tableName assumption [] P :=
  fun _ row _ => ⟨by simp, by simp [h row]⟩

lemma Reads.singleton (h : Reads store tableName assumption tree P) :
    ReadTogether store tableName assumption [tree] P :=
  fun outer row hr => by simpa using h outer row hr

lemma Reads.cons (h : Reads store tableName assumption tree P)
    (hrest : ReadTogether store tableName assumption trees Q) :
    ReadTogether store tableName assumption (tree :: trees) fun row => P row ∧ Q row := by
  intro outer row hr
  obtain ⟨htree, hread⟩ := h outer row hr
  obtain ⟨htrees, hreads⟩ := hrest outer row hr
  refine ⟨List.forall_mem_cons.mpr ⟨htree, htrees⟩, fun ha => ?_⟩
  rw [List.forall_mem_cons, hread ha, hreads ha]

lemma ReadTogether.append {others : List ConditionTree}
    (h : ReadTogether store tableName assumption trees P)
    (hothers : ReadTogether store tableName assumption others Q) :
    ReadTogether store tableName assumption (trees ++ others) fun row => P row ∧ Q row := by
  intro outer row hr
  obtain ⟨htrees, hread⟩ := h outer row hr
  obtain ⟨hrest, hreads⟩ := hothers outer row hr
  refine ⟨List.forall_mem_append.mpr ⟨htrees, hrest⟩, fun ha => ?_⟩
  rw [List.forall_mem_append, hread ha, hreads ha]

theorem ReadTogether.together (h : ReadTogether store tableName assumption trees P) :
    Reads store tableName assumption (together trees) P := by
  intro outer row hr
  obtain ⟨htrees, hread⟩ := h outer row hr
  match trees with
  | [] => exact ⟨rfl, fun ha => ⟨fun _ => (hread ha).mp (by simp), fun _ => rfl⟩⟩
  | [tree] => simpa [Filter.together] using h outer row hr
  | first :: second :: rest =>
    obtain ⟨hsome, hholds⟩ := @Sql.truth?_and store ((tableName, row) :: outer)
      ((first :: second :: rest).map Expr.condition) (by simpa using htrees)
    refine ⟨hsome, fun ha => ?_⟩
    have htogether : Filter.together (first :: second :: rest) =
        .and ((first :: second :: rest).map .condition) := rfl
    rw [← hread ha, htogether, hholds, List.forall_mem_map]
    rfl

/-- The truth values of several operands, with what their conjunction and disjunction hold of. -/
def ReadEach (store : Store) (tableName : String) (assumption : Prop) (operands : List Expr)
    (P Q : Row → Prop) : Prop :=
  ∀ outer : Scope, ∀ row ∈ store.rows tableName,
    (∀ expr ∈ operands, (expr.truth? store ((tableName, row) :: outer)).isSome) ∧
      (assumption →
        ((∀ expr ∈ operands, expr.truth? store ((tableName, row) :: outer) = some .holds) ↔
          P row) ∧
        ((∃ expr ∈ operands, expr.truth? store ((tableName, row) :: outer) = some .holds) ↔
          Q row))

lemma ReadEach.and {operands : List Expr} (h : ReadEach store tableName assumption operands P Q) :
    Reads store tableName assumption (.and operands) P := by
  intro outer row hr
  obtain ⟨hsome, hread⟩ := h outer row hr
  obtain ⟨htree, hholds⟩ := Sql.truth?_and hsome
  exact ⟨htree, fun ha => hholds.trans (hread ha).1⟩

lemma ReadEach.or {operands : List Expr} (h : ReadEach store tableName assumption operands P Q) :
    Reads store tableName assumption (.or operands) Q := by
  intro outer row hr
  obtain ⟨hsome, hread⟩ := h outer row hr
  obtain ⟨htree, hholds⟩ := Sql.truth?_or hsome
  exact ⟨htree, fun ha => hholds.trans (hread ha).2⟩

/-- Membership in a selection from the target reads as agreement with a row that is read. -/
lemma Reads.memberOf {source column linked : String}
    (h : Reads store source assumption tree P)
    (hcolumn : ∀ row ∈ store.rows tableName, ∃ value, row.find? column = some value)
    (hlinked : ∀ row ∈ store.rows source, ∃ value, row.find? linked = some value) :
    Reads store tableName assumption (.single (memberOf column (selection source linked tree)))
      fun row => ∃ other ∈ store.rows source, row.Agree column other linked ∧ P other := by
  intro outer row hr
  obtain ⟨hsome, hholds⟩ := truth?_memberOf (hcolumn row hr) hlinked
    fun other ho => (h ((tableName, row) :: outer) other ho).1
  refine ⟨hsome, fun ha => ?_⟩
  rw [Sql.truth?_single, hholds]
  refine exists_congr fun other => and_congr_right fun ho => and_congr_right fun _ => ?_
  exact (h ((tableName, row) :: outer) other ho).2 ha

end Filter

end EntityGraph
