import EntityGraph.Sql.Statement
import Mathlib.Data.List.Basic
import Mathlib.Tactic.Common
/-!
The text of a statement and the values sent beside it. Replacing the values of a query replaces the
same values among its pieces, and a piece that carries a value is written by its number alone, so
the text of a query is a function of the query without its values.
-/
namespace EntityGraph.Sql

namespace Piece

def mapValues (f : Value → Value) : Piece → Piece
  | .param v => .param (f v)
  | .text chars => .text chars
  | .name parts => .name parts

@[simp] theorem mapValues_text (f : Value → Value) (chars : String) :
    mapValues f (.text chars) = .text chars := rfl

@[simp] theorem mapValues_name (f : Value → Value) (parts : List String) :
    mapValues f (.name parts) = .name parts := rfl

@[simp] theorem mapValues_param (f : Value → Value) (v : Value) :
    mapValues f (.param v) = .param (f v) := rfl

end Piece

mutual
def Expr.mapValues (f : Value → Value) : Expr → Expr
  | ⟨kind, asName⟩ => ⟨kind.mapValues f, asName⟩
termination_by structural expr => expr

def ExprKind.mapValues (f : Value → Value) : ExprKind → ExprKind
  | .param value => .param (f value)
  | .raw text => .raw text
  | .column column => .column column
  | .row items => .row (exprsMapValues f items)
  | .select select => .select (select.mapValues f)
  | .condition tree => .condition (tree.mapValues f)
  | .binary operator left right => .binary operator (left.mapValues f) (right.mapValues f)
  | .isNull operand => .isNull (operand.mapValues f)
  | .isNotNull operand => .isNotNull (operand.mapValues f)
  | .asterisk table => .asterisk table
  | .default => .default
termination_by structural kind => kind

def ConditionTree.mapValues (f : Value → Value) : ConditionTree → ConditionTree
  | .and operands => .and (exprsMapValues f operands)
  | .or operands => .or (exprsMapValues f operands)
  | .not operand => .not (operand.mapValues f)
  | .single operand => .single (operand.mapValues f)
  | .always => .always
  | .never => .never
termination_by structural tree => tree

def Select.mapValues (f : Value → Value) : Select → Select
  | ⟨columns, tables, condition, ordering, limit, offset⟩ =>
    ⟨exprsMapValues f columns, tables, conditionMapValues f condition,
      orderingMapValues f ordering, limit, offset⟩
termination_by structural select => select

def exprsMapValues (f : Value → Value) : List Expr → List Expr
  | [] => []
  | expr :: rest => expr.mapValues f :: exprsMapValues f rest
termination_by structural exprs => exprs

def conditionMapValues (f : Value → Value) : Option ConditionTree → Option ConditionTree
  | some tree => some (tree.mapValues f)
  | none => none
termination_by structural tree => tree

def orderingMapValues (f : Value → Value) :
    List (Expr × Option SortOrder) → List (Expr × Option SortOrder)
  | [] => []
  | (expr, order) :: rest => (expr.mapValues f, order) :: orderingMapValues f rest
termination_by structural terms => terms
end

theorem exprsMapValues_eq_map (f : Value → Value) (exprs : List Expr) :
    exprsMapValues f exprs = exprs.map (Expr.mapValues f) := by
  induction exprs with
  | nil => rfl
  | cons expr rest ih => rw [exprsMapValues, ih, List.map_cons]

/-- The values that a statement sets its columns to. -/
def settingsMapValues (f : Value → Value) (values : List (ColumnRef × Expr)) :
    List (ColumnRef × Expr) :=
  values.map fun (column, expr) => (column, expr.mapValues f)

def Query.mapValues (f : Value → Value) : Query → Query
  | .select s => .select (s.mapValues f)
  | .insert i => .insert { i with values := settingsMapValues f i.values }
  | .update u => .update { u with
      values := settingsMapValues f u.values
      condition := conditionMapValues f u.condition }
  | .delete d => .delete { d with condition := conditionMapValues f d.condition }
  | .raw text => .raw text

section Pieces

variable (f : Value → Value)

lemma separated_map (separator : String) (items : List (List Piece)) :
    separated separator (items.map (List.map (Piece.mapValues f))) =
      (separated separator items).map (Piece.mapValues f) := by
  induction items using separated.induct with
  | case1 => rfl
  | case2 item => rfl
  | case3 item rest hrest ih =>
    cases rest with
    | nil => exact absurd rfl hrest
    | cons next others => simp [separated, ← ih]

lemma parenthesized_map (pieces : List Piece) :
    parenthesized (pieces.map (Piece.mapValues f)) =
      (parenthesized pieces).map (Piece.mapValues f) := by
  simp [parenthesized]

lemma conjunction_map (separator neutral : String) (operands : List (List Piece)) :
    conjunction separator neutral (operands.map (List.map (Piece.mapValues f))) =
      (conjunction separator neutral operands).map (Piece.mapValues f) := by
  unfold conjunction
  rw [List.isEmpty_map, separated_map, parenthesized_map]
  split <;> rfl

lemma clause_map (keyword : String) (pieces : List Piece) :
    clause keyword (pieces.map (Piece.mapValues f)) =
      (clause keyword pieces).map (Piece.mapValues f) := by
  unfold clause
  rw [List.isEmpty_map]
  split <;> rfl

@[simp] lemma namePieces_map (name : Option String) :
    (namePieces name).map (Piece.mapValues f) = namePieces name := by
  cases name <;> rfl

@[simp] lemma TableRef.pieces_map (table : TableRef) :
    table.pieces.map (Piece.mapValues f) = table.pieces := by
  simp [TableRef.pieces]

@[simp] lemma ColumnRef.pieces_map (column : ColumnRef) :
    column.pieces.map (Piece.mapValues f) = column.pieces := by
  unfold ColumnRef.pieces
  split <;> simp

@[simp] lemma countClause_map (keyword : String) (count : Option Nat) :
    (countClause keyword count).map (Piece.mapValues f) = countClause keyword count := by
  cases count <;> rfl

lemma asRow?_mapValues (expr : Expr) :
    (expr.mapValues f).asRow? = expr.asRow?.map (exprsMapValues f) := by
  obtain ⟨kind, asName⟩ := expr
  cases kind <;> rfl

mutual
/-- Writing commutes with the replacement of values. -/
theorem Expr.pieces_mapValues (expr : Expr) :
    (expr.mapValues f).pieces = expr.pieces.map (Piece.mapValues f) := by
  obtain ⟨kind, asName⟩ := expr
  rw [Expr.mapValues, Expr.pieces, Expr.pieces, List.map_append, kind.pieces_mapValues,
    namePieces_map]
termination_by structural expr

theorem ExprKind.pieces_mapValues (kind : ExprKind) :
    (kind.mapValues f).pieces = kind.pieces.map (Piece.mapValues f) := by
  cases kind with
  | param value => rfl
  | raw text => rfl
  | column column =>
    rw [ExprKind.mapValues, ExprKind.pieces, ColumnRef.pieces_map]
  | row items =>
    rw [ExprKind.mapValues, ExprKind.pieces, ExprKind.pieces, exprPieces_exprsMapValues items,
      separated_map, parenthesized_map]
  | select select =>
    rw [ExprKind.mapValues, ExprKind.pieces, ExprKind.pieces, select.pieces_mapValues,
      parenthesized_map]
  | condition tree =>
    rw [ExprKind.mapValues, ExprKind.pieces, ExprKind.pieces, tree.pieces_mapValues]
  | binary operator left right =>
    have hwritten : (left.mapValues f).pieces ++
        .text operator.text :: (right.mapValues f).pieces =
          (left.pieces ++ .text operator.text :: right.pieces).map (Piece.mapValues f) := by
      rw [left.pieces_mapValues, right.pieces_mapValues, List.map_append, List.map_cons,
        Piece.mapValues_text]
    rw [ExprKind.mapValues, ExprKind.pieces, ExprKind.pieces, asRow?_mapValues]
    cases operator.onEmptyRow with
    | none => exact hwritten
    | some truth =>
      match right.asRow? with
      | none => exact hwritten
      | some [] => rfl
      | some (_ :: _) => exact hwritten
  | isNull operand =>
    rw [ExprKind.mapValues, ExprKind.pieces, ExprKind.pieces, operand.pieces_mapValues,
      List.map_append]
    rfl
  | isNotNull operand =>
    rw [ExprKind.mapValues, ExprKind.pieces, ExprKind.pieces, operand.pieces_mapValues,
      List.map_append]
    rfl
  | asterisk table => cases table <;> rfl
  | default => rfl
termination_by structural kind

theorem ConditionTree.pieces_mapValues (tree : ConditionTree) :
    (tree.mapValues f).pieces = tree.pieces.map (Piece.mapValues f) := by
  cases tree with
  | and operands =>
    rw [ConditionTree.mapValues, ConditionTree.pieces, ConditionTree.pieces,
      exprPieces_exprsMapValues operands, conjunction_map]
  | or operands =>
    rw [ConditionTree.mapValues, ConditionTree.pieces, ConditionTree.pieces,
      exprPieces_exprsMapValues operands, conjunction_map]
  | not operand =>
    rw [ConditionTree.mapValues, ConditionTree.pieces, ConditionTree.pieces,
      operand.pieces_mapValues, parenthesized_map]
    rfl
  | single operand => exact operand.pieces_mapValues
  | always => rfl
  | never => rfl
termination_by structural tree

theorem Select.pieces_mapValues (select : Select) :
    (select.mapValues f).pieces = select.pieces.map (Piece.mapValues f) := by
  obtain ⟨columns, tables, condition, ordering, limit, offset⟩ := select
  have hcolumns : (if (exprsMapValues f columns).isEmpty then [.text "*"]
      else separated ", " (exprPieces (exprsMapValues f columns))) =
        (if columns.isEmpty then [.text "*"]
          else separated ", " (exprPieces columns)).map (Piece.mapValues f) := by
    rw [exprPieces_exprsMapValues columns, separated_map, exprsMapValues_eq_map, List.isEmpty_map]
    split <;> rfl
  have htables : (separated ", " (tables.map TableRef.pieces)).map (Piece.mapValues f) =
      separated ", " (tables.map TableRef.pieces) := by
    rw [← separated_map, List.map_map, List.map_congr_left fun table _ => table.pieces_map f]
  rw [Select.mapValues, Select.pieces, Select.pieces, hcolumns,
    conditionPieces_conditionMapValues condition, orderingPieces_orderingMapValues ordering,
    separated_map, clause_map, clause_map]
  simp only [List.map_cons, List.map_append, Piece.mapValues_text, countClause_map,
    ← clause_map f " FROM ", htables]
termination_by structural select

theorem exprPieces_exprsMapValues (exprs : List Expr) :
    exprPieces (exprsMapValues f exprs) = (exprPieces exprs).map (List.map (Piece.mapValues f)) := by
  cases exprs with
  | nil => rfl
  | cons expr rest =>
    rw [exprsMapValues, exprPieces, exprPieces, expr.pieces_mapValues,
      exprPieces_exprsMapValues rest, List.map_cons]
termination_by structural exprs

theorem conditionPieces_conditionMapValues (tree : Option ConditionTree) :
    conditionPieces (conditionMapValues f tree) =
      (conditionPieces tree).map (Piece.mapValues f) := by
  cases tree with
  | none => rfl
  | some tree => exact tree.pieces_mapValues
termination_by structural tree

theorem orderingPieces_orderingMapValues (terms : List (Expr × Option SortOrder)) :
    orderingPieces (orderingMapValues f terms) =
      (orderingPieces terms).map (List.map (Piece.mapValues f)) := by
  match terms with
  | [] => rfl
  | (expr, order) :: rest =>
    rw [orderingMapValues, orderingPieces, orderingPieces, expr.pieces_mapValues,
      orderingPieces_orderingMapValues rest, List.map_cons, List.map_append]
    rfl
termination_by structural terms
end

/-- A placeholder is written by its number, whatever its value. -/
theorem pieceChars_map (pieces : List Piece) (count : Nat) :
    pieceChars count (pieces.map (Piece.mapValues f)) = pieceChars count pieces := by
  induction pieces generalizing count with
  | nil => rfl
  | cons piece rest ih =>
    cases piece <;> simp only [List.map_cons, Piece.mapValues_text, Piece.mapValues_name,
      Piece.mapValues_param, pieceChars, ih]

@[simp] lemma returningPieces_map (columns : List ColumnRef) :
    (returningPieces columns).map (Piece.mapValues f) = returningPieces columns := by
  rw [returningPieces, ← clause_map, ← separated_map, List.map_map,
    List.map_congr_left fun column _ => column.pieces_map f]

lemma settingsMapValues_isEmpty (values : List (ColumnRef × Expr)) :
    (settingsMapValues f values).isEmpty = values.isEmpty := List.isEmpty_map

lemma Insert.pieces_mapValues (insert : Insert) :
    Insert.pieces { insert with values := settingsMapValues f insert.values } =
      insert.pieces.map (Piece.mapValues f) := by
  have hcolumns : (settingsMapValues f insert.values).map (fun (column, _) => [.name [column.name]]) =
      (insert.values.map fun (column, _) => [.name [column.name]]).map
        (List.map (Piece.mapValues f)) := by
    rw [settingsMapValues, List.map_map, List.map_map]
    rfl
  have hrow : Expr.row ((settingsMapValues f insert.values).map Prod.snd) =
      (Expr.row (insert.values.map Prod.snd)).mapValues f := by
    rw [Expr.row, Expr.ofKind, Expr.row, Expr.ofKind, Expr.mapValues, ExprKind.mapValues,
      exprsMapValues_eq_map, settingsMapValues, List.map_map, List.map_map]
    rfl
  simp only [Insert.pieces, hcolumns, hrow, separated_map, parenthesized_map,
    Expr.pieces_mapValues, settingsMapValues_isEmpty, List.map_append, List.map_cons,
    Piece.mapValues_text, TableRef.pieces_map, returningPieces_map, apply_ite (List.map _),
    List.map_nil]

lemma Update.pieces_mapValues (update : Update) :
    Update.pieces { update with
        values := settingsMapValues f update.values
        condition := conditionMapValues f update.condition } =
      update.pieces.map (Piece.mapValues f) := by
  have hvalues : (settingsMapValues f update.values).map (fun (column, expr) =>
        .name [column.name] :: .text " = " :: expr.pieces) =
      (update.values.map fun (column, expr) =>
        .name [column.name] :: .text " = " :: expr.pieces).map (List.map (Piece.mapValues f)) := by
    rw [settingsMapValues, List.map_map, List.map_map]
    refine List.map_congr_left fun setting _ => ?_
    simp only [Function.comp_apply, List.map_cons, Piece.mapValues_name, Piece.mapValues_text,
      setting.2.pieces_mapValues]
  simp only [Update.pieces, hvalues, separated_map, conditionPieces_conditionMapValues, clause_map,
    List.map_append, List.map_cons, Piece.mapValues_text, TableRef.pieces_map, returningPieces_map]

lemma Delete.pieces_mapValues (delete : Delete) :
    Delete.pieces { delete with condition := conditionMapValues f delete.condition } =
      delete.pieces.map (Piece.mapValues f) := by
  simp only [Delete.pieces, conditionPieces_conditionMapValues, clause_map, List.map_append,
    List.map_cons, Piece.mapValues_text, TableRef.pieces_map, returningPieces_map]

theorem Query.pieces_mapValues (query : Query) :
    (query.mapValues f).pieces = query.pieces.map (Piece.mapValues f) := by
  cases query with
  | select select => exact select.pieces_mapValues f
  | insert insert => exact insert.pieces_mapValues f
  | update update => exact update.pieces_mapValues f
  | delete delete => exact delete.pieces_mapValues f
  | raw text => rfl

end Pieces

section Params

@[simp] lemma pieceParams_nil : pieceParams [] = [] := rfl

@[simp] lemma pieceParams_text_cons (text : String) (rest : List Piece) :
    pieceParams (.text text :: rest) = pieceParams rest := rfl

@[simp] lemma pieceParams_name_cons (path : List String) (rest : List Piece) :
    pieceParams (.name path :: rest) = pieceParams rest := rfl

@[simp] lemma pieceParams_param_cons (value : Value) (rest : List Piece) :
    pieceParams (.param value :: rest) = value :: pieceParams rest := rfl

@[simp] lemma pieceParams_separated (separator : String) (items : List (List Piece)) :
    pieceParams (separated separator items) = items.flatMap pieceParams := by
  induction items using separated.induct with
  | case1 => rfl
  | case2 item => simp [separated]
  | case3 item rest hrest ih => simp [separated, ih]

@[simp] lemma pieceParams_parenthesized (pieces : List Piece) :
    pieceParams (parenthesized pieces) = pieceParams pieces := by
  simp [parenthesized]

@[simp] lemma pieceParams_conjunction (separator neutral : String)
    (operands : List (List Piece)) :
    pieceParams (conjunction separator neutral operands) = operands.flatMap pieceParams := by
  cases operands <;> simp [conjunction]

@[simp] lemma pieceParams_clause (keyword : String) (pieces : List Piece) :
    pieceParams (clause keyword pieces) = pieceParams pieces := by
  cases pieces <;> simp [clause]

@[simp] lemma pieceParams_namePieces (name : Option String) :
    pieceParams (namePieces name) = [] := by
  cases name <;> rfl

@[simp] lemma TableRef.pieceParams_pieces (table : TableRef) : pieceParams table.pieces = [] := by
  simp [TableRef.pieces]

@[simp] lemma ColumnRef.pieceParams_pieces (column : ColumnRef) :
    pieceParams column.pieces = [] := by
  unfold ColumnRef.pieces
  split <;> simp

@[simp] lemma pieceParams_countClause (keyword : String) (count : Option Nat) :
    pieceParams (countClause keyword count) = [] := by
  cases count <;> rfl

/-- An expression that stands for a condition sends what the condition sends. -/
@[simp] lemma Expr.pieces_condition (tree : ConditionTree) :
    (Expr.condition tree).pieces = tree.pieces := by
  simp [Expr.condition, Expr.ofKind, Expr.pieces, ExprKind.pieces, namePieces]

@[simp] lemma Expr.pieces_column (column : ColumnRef) :
    (Expr.column column).pieces = column.pieces := by
  simp [Expr.column, Expr.ofKind, Expr.pieces, ExprKind.pieces, namePieces]

@[simp] lemma Expr.pieceParams_select (select : Select) :
    pieceParams (Expr.select select).pieces = pieceParams select.pieces := by
  simp [Expr.select, Expr.ofKind, Expr.pieces, ExprKind.pieces]

@[simp] lemma Expr.pieceParams_isNull (operand : Expr) :
    pieceParams (Expr.isNull operand).pieces = pieceParams operand.pieces := by
  simp [Expr.isNull, Expr.ofKind, Expr.pieces, ExprKind.pieces]

lemma exprPieces_eq_map (exprs : List Expr) : exprPieces exprs = exprs.map Expr.pieces := by
  induction exprs with
  | nil => rfl
  | cons expr rest ih => rw [exprPieces, ih, List.map_cons]

@[simp] lemma pieceParams_params (values : List Value) :
    pieceParams (Expr.params values).pieces = values := by
  have hwritten : (Expr.params values).pieces =
      parenthesized (separated "," (values.map fun value => [.param value])) := by
    rw [Expr.params, Expr.row, Expr.ofKind, Expr.pieces, ExprKind.pieces, exprPieces_eq_map,
      List.map_map, namePieces, List.append_nil]
    rfl
  rw [hwritten, pieceParams_parenthesized, pieceParams_separated, List.flatMap_map]
  exact List.flatMap_singleton' values

/-- A comparison of a column sends what its right side sends, which is nothing for an empty row. -/
lemma pieceParams_binary_column (operator : Operator) (column : ColumnRef) (right : Expr) :
    pieceParams (Expr.binary operator (.column column) right).pieces =
      pieceParams right.pieces := by
  have hwritten : pieceParams ((Expr.column column).pieces ++
      .text operator.text :: right.pieces) = pieceParams right.pieces := by simp
  rw [Expr.binary, Expr.ofKind, Expr.pieces, ExprKind.pieces, pieceParams_append,
    pieceParams_namePieces, List.append_nil]
  cases operator.onEmptyRow with
  | none => exact hwritten
  | some truth =>
    match right with
    | ⟨.row [], asName⟩ =>
      simp [Expr.asRow?, Expr.pieces, ExprKind.pieces, exprPieces, separated]
    | ⟨.row (_ :: _), asName⟩ => exact hwritten
    | ⟨.param _, asName⟩ | ⟨.raw _, asName⟩ | ⟨.column _, asName⟩ | ⟨.select _, asName⟩
    | ⟨.condition _, asName⟩ | ⟨.binary .., asName⟩ | ⟨.isNull _, asName⟩ | ⟨.isNotNull _, asName⟩
    | ⟨.asterisk _, asName⟩ | ⟨.default, asName⟩ => exact hwritten

lemma pieceParams_columns (columns : List Expr) :
    pieceParams (if columns.isEmpty then [.text "*"] else separated ", " (exprPieces columns)) =
      columns.flatMap fun expr => pieceParams expr.pieces := by
  cases columns with
  | nil => rfl
  | cons first rest => simp [exprPieces_eq_map, List.flatMap_map]

lemma flatMap_orderingPieces (terms : List (Expr × Option SortOrder)) :
    (orderingPieces terms).flatMap pieceParams =
      terms.flatMap fun (expr, _) => pieceParams expr.pieces := by
  induction terms with
  | nil => rfl
  | cons term rest ih => simp [orderingPieces, ih]

@[simp] lemma pieceParams_returningPieces (columns : List ColumnRef) :
    pieceParams (returningPieces columns) = [] := by
  simp [returningPieces, List.flatMap_map]

end Params

/-- A query without its values: each is replaced by `NULL`. -/
def Query.shape (query : Query) : Query := query.mapValues fun _ => .null

/-- The text of a statement depends on the shape of the query alone. -/
theorem Query.text_eq_of_shape_eq {query other : Query} (h : query.shape = other.shape) :
    query.statement.text = other.statement.text := by
  have htext : ∀ query : Query, query.statement.text = query.shape.statement.text := by
    intro query
    rw [shape, statement, statement, Statement.ofPieces, Statement.ofPieces, pieces_mapValues,
      pieceChars_map]
  rw [htext query, htext other, h]

/-- A statement about the rows under a condition, which is given apart from it. -/
inductive Conditional where
  | select (select : Select)
  | update (update : Update)
  | delete (delete : Delete)

namespace Conditional

def under (tree : Option ConditionTree) : Conditional → Query
  | select s => .select { s with condition := tree }
  | update u => .update { u with condition := tree }
  | delete d => .delete { d with condition := tree }

/-- The values sent before those of the condition: by the columns that are read or set. -/
def paramsBefore : Conditional → List Value
  | select s => s.columns.flatMap fun expr => pieceParams expr.pieces
  | update u => u.values.flatMap fun (_, expr) => pieceParams expr.pieces
  | delete _ => []

/-- The values sent after those of the condition: by the terms of an ordering. -/
def paramsAfter : Conditional → List Value
  | select s => s.ordering.flatMap fun (expr, _) => pieceParams expr.pieces
  | update _ => []
  | delete _ => []

lemma shape_under_congr {tree other : ConditionTree}
    (h : (tree.mapValues fun _ => .null) = other.mapValues fun _ => .null)
    (statement : Conditional) :
    (statement.under (some tree)).shape = (statement.under (some other)).shape := by
  cases statement <;>
    simp only [under, Query.shape, Query.mapValues, Select.mapValues, conditionMapValues, h]

theorem params_under (tree : ConditionTree) (statement : Conditional) :
    (statement.under (some tree)).statement.params =
      statement.paramsBefore ++ pieceParams tree.pieces ++ statement.paramsAfter := by
  cases statement with
  | select select =>
    simp [under, Query.statement, Statement.ofPieces, Query.pieces, Select.pieces,
      conditionPieces, paramsBefore, paramsAfter, pieceParams_columns, flatMap_orderingPieces,
      List.flatMap_map, -List.isEmpty_iff]
  | update update =>
    simp [under, Query.statement, Statement.ofPieces, Query.pieces, Update.pieces,
      conditionPieces, paramsBefore, paramsAfter, List.flatMap_map]
  | delete delete =>
    simp [under, Query.statement, Statement.ofPieces, Query.pieces, Delete.pieces,
      conditionPieces, paramsBefore, paramsAfter]

end Conditional

end EntityGraph.Sql
