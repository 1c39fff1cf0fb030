import EntityGraph.Proofs.Sql.Rendering
/-!
# Values in their places

A query sends its values from left to right, and the placeholder in the place of a value has the
number under which the value is sent: the text stays the same when every value is replaced by its
placeholder beforehand.
-/
namespace EntityGraph.Sql

/-! ### Values in their places -/

/-- What a query brings along: a value, or a fragment of text. -/
inductive Leaf where
  | value (value : Value)
  | fragment (text : String)

def Leaf.value? : Leaf → Option Value
  | value v => some v
  | fragment _ => none

/-- A membership in an empty row is written as a truth value, whatever stands on its left. -/
def Operator.testsNothing : Operator → Expr → Bool
  | .isIn, ⟨.row [], _⟩ => true
  | .notIn, ⟨.row [], _⟩ => true
  | _, _ => false

mutual
/-- The leaves from left to right, without those on the left of a membership in an empty row. -/
def Expr.leaves : Expr → List Leaf
  | ⟨kind, _⟩ => kind.leaves
termination_by structural expr => expr

def ExprKind.leaves : ExprKind → List Leaf
  | .param value => [.value value]
  | .raw text => [.fragment text]
  | .column _ => []
  | .row items => exprsLeaves items
  | .select select => select.leaves
  | .condition tree => tree.leaves
  | .binary operator left right =>
    if operator.testsNothing right then [] else left.leaves ++ right.leaves
  | .isNull operand => operand.leaves
  | .isNotNull operand => operand.leaves
  | .asterisk _ => []
  | .default => []
termination_by structural kind => kind

def ConditionTree.leaves : ConditionTree → List Leaf
  | .and operands => exprsLeaves operands
  | .or operands => exprsLeaves operands
  | .not operand => operand.leaves
  | .single operand => operand.leaves
  | .always => []
  | .never => []
termination_by structural tree => tree

def Select.leaves : Select → List Leaf
  | ⟨columns, _, condition, ordering, _, _⟩ =>
    exprsLeaves columns ++ conditionLeaves condition ++ orderingLeaves ordering
termination_by structural select => select

def exprsLeaves : List Expr → List Leaf
  | [] => []
  | expr :: rest => expr.leaves ++ exprsLeaves rest
termination_by structural exprs => exprs

def conditionLeaves : Option ConditionTree → List Leaf
  | some tree => tree.leaves
  | none => []
termination_by structural tree => tree

def orderingLeaves : List (Expr × Option SortOrder) → List Leaf
  | [] => []
  | (expr, _) :: rest => expr.leaves ++ orderingLeaves rest
termination_by structural terms => terms
end

def Query.leaves : Query → List Leaf
  | .select s => s.leaves
  | .insert i => exprsLeaves (i.values.map Prod.snd)
  | .update u => exprsLeaves (u.values.map Prod.snd) ++ conditionLeaves u.condition
  | .delete d => conditionLeaves d.condition
  | .raw text => [.fragment text]

/-- The values among leaves. -/
def valuesOf (leaves : List Leaf) : List Value := leaves.filterMap Leaf.value?

@[simp] lemma valuesOf_append (leaves others : List Leaf) :
    valuesOf (leaves ++ others) = valuesOf leaves ++ valuesOf others := List.filterMap_append

/-- A binary expression is written out unless it tests for nothing. -/
lemma pieces_binary (operator : Operator) (left right : Expr) :
    (ExprKind.binary operator left right).pieces =
      if operator.testsNothing right then [.text (operator.onEmptyRow.getD "")]
      else left.pieces ++ .text operator.text :: right.pieces := by
  obtain ⟨kind, asName⟩ := right
  rw [ExprKind.pieces]
  cases operator with
  | compare => rfl
  | isIn => rcases kind with _ | _ | _ | (_ | _) | _ <;> rfl
  | notIn => rcases kind with _ | _ | _ | (_ | _) | _ <;> rfl

mutual
/-- An expression sends the values among its leaves. -/
theorem Expr.pieceParams_pieces (expr : Expr) :
    pieceParams expr.pieces = valuesOf expr.leaves := by
  obtain ⟨kind, asName⟩ := expr
  rw [Expr.pieces, Expr.leaves, pieceParams_append, pieceParams_namePieces, List.append_nil,
    kind.pieceParams_pieces]
termination_by structural expr

theorem ExprKind.pieceParams_pieces (kind : ExprKind) :
    pieceParams kind.pieces = valuesOf kind.leaves := by
  cases kind with
  | param value => rfl
  | raw text => rfl
  | column column => exact column.pieceParams_pieces
  | row items =>
    rw [ExprKind.pieces, ExprKind.leaves, pieceParams_parenthesized, pieceParams_separated,
      flatMap_exprPieces items]
  | select select =>
    rw [ExprKind.pieces, ExprKind.leaves, pieceParams_parenthesized, select.pieceParams_pieces]
  | condition tree => exact tree.pieceParams_pieces
  | binary operator left right =>
    rw [pieces_binary, ExprKind.leaves]
    cases operator.testsNothing right with
    | true => rfl
    | false =>
      simp only [Bool.false_eq_true, if_false, pieceParams_append, pieceParams_text_cons,
        left.pieceParams_pieces, right.pieceParams_pieces, valuesOf_append]
  | isNull operand =>
    rw [ExprKind.pieces, ExprKind.leaves, pieceParams_append, operand.pieceParams_pieces]
    exact List.append_nil _
  | isNotNull operand =>
    rw [ExprKind.pieces, ExprKind.leaves, pieceParams_append, operand.pieceParams_pieces]
    exact List.append_nil _
  | asterisk table => cases table <;> rfl
  | default => rfl
termination_by structural kind

theorem ConditionTree.pieceParams_pieces (tree : ConditionTree) :
    pieceParams tree.pieces = valuesOf tree.leaves := by
  cases tree with
  | and operands =>
    rw [ConditionTree.pieces, ConditionTree.leaves, pieceParams_conjunction,
      flatMap_exprPieces operands]
  | or operands =>
    rw [ConditionTree.pieces, ConditionTree.leaves, pieceParams_conjunction,
      flatMap_exprPieces operands]
  | not operand =>
    rw [ConditionTree.pieces, ConditionTree.leaves, pieceParams_text_cons,
      pieceParams_parenthesized, operand.pieceParams_pieces]
  | single operand => exact operand.pieceParams_pieces
  | always => rfl
  | never => rfl
termination_by structural tree

theorem Select.pieceParams_pieces (select : Select) :
    pieceParams select.pieces = valuesOf select.leaves := by
  obtain ⟨columns, tables, condition, ordering, limit, offset⟩ := select
  have htables : (tables.map TableRef.pieces).flatMap pieceParams = [] := by
    simp [List.flatMap_map]
  have hcolumns : pieceParams (if columns.isEmpty then [.text "*"]
      else separated ", " (exprPieces columns)) = valuesOf (exprsLeaves columns) := by
    rw [← flatMap_exprPieces columns]
    cases columns with
    | nil => rfl
    | cons first rest => exact pieceParams_separated _ _
  simp only [Select.pieces, Select.leaves, List.cons_append, pieceParams_text_cons,
    pieceParams_append, pieceParams_clause, pieceParams_countClause, pieceParams_separated,
    List.append_nil, htables, hcolumns, pieceParams_conditionPieces condition,
    flatMap_orderingPieces_leaves ordering, valuesOf_append]
termination_by structural select

theorem flatMap_exprPieces (exprs : List Expr) :
    (exprPieces exprs).flatMap pieceParams = valuesOf (exprsLeaves exprs) := by
  cases exprs with
  | nil => rfl
  | cons expr rest =>
    rw [exprPieces, exprsLeaves, List.flatMap_cons, expr.pieceParams_pieces,
      flatMap_exprPieces rest, valuesOf_append]
termination_by structural exprs

theorem pieceParams_conditionPieces (tree : Option ConditionTree) :
    pieceParams (conditionPieces tree) = valuesOf (conditionLeaves tree) := by
  cases tree with
  | none => rfl
  | some tree => exact tree.pieceParams_pieces
termination_by structural tree

theorem flatMap_orderingPieces_leaves (terms : List (Expr × Option SortOrder)) :
    (orderingPieces terms).flatMap pieceParams = valuesOf (orderingLeaves terms) := by
  match terms with
  | [] => rfl
  | (expr, order) :: rest =>
    rw [orderingPieces, orderingLeaves, List.flatMap_cons, pieceParams_append,
      expr.pieceParams_pieces, flatMap_orderingPieces_leaves rest, valuesOf_append]
    exact congrArg (· ++ _) (List.append_nil _)
termination_by structural terms
end

lemma flatMap_settings (values : List (ColumnRef × Expr)) :
    (values.map fun (c, expr) => .name [c.name] :: .text " = " :: expr.pieces).flatMap pieceParams =
      valuesOf (exprsLeaves (values.map Prod.snd)) := by
  rw [← flatMap_exprPieces, exprPieces_eq_map, List.map_map, List.flatMap_map, List.flatMap_map]
  rfl

theorem Query.params_statement (query : Query) :
    query.statement.params = valuesOf query.leaves := by
  show pieceParams query.pieces = _
  cases query with
  | select select => exact select.pieceParams_pieces
  | insert insert =>
    obtain ⟨table, values, skips, returning⟩ := insert
    have hnames : (values.map fun (c, _) => [.name [c.name]]).flatMap pieceParams = [] := by
      simp [List.flatMap_map]
    have hskips : pieceParams (if skips then [.text " ON CONFLICT DO NOTHING"] else []) = [] := by
      cases skips <;> rfl
    have hrow : pieceParams (Expr.row (values.map Prod.snd)).pieces =
        valuesOf (exprsLeaves (values.map Prod.snd)) := Expr.pieceParams_pieces _
    simp only [Query.pieces, Query.leaves, Insert.pieces, List.cons_append, pieceParams_text_cons,
      pieceParams_append, TableRef.pieceParams_pieces, hskips, pieceParams_returningPieces,
      List.append_nil, List.nil_append]
    cases values with
    | nil => rfl
    | cons first rest =>
      rw [← hrow]
      simp only [List.isEmpty_cons, Bool.false_eq_true, if_false, pieceParams_text_cons,
        pieceParams_append, pieceParams_parenthesized, pieceParams_separated, hnames,
        List.nil_append]
  | update update =>
    simp only [Query.pieces, Query.leaves, Update.pieces, List.cons_append, pieceParams_text_cons,
      pieceParams_append, TableRef.pieceParams_pieces, pieceParams_separated, flatMap_settings,
      pieceParams_clause, pieceParams_conditionPieces, pieceParams_returningPieces,
      List.append_nil, List.nil_append, valuesOf_append]
  | delete delete =>
    simp only [Query.pieces, Query.leaves, Delete.pieces, List.cons_append, pieceParams_text_cons,
      pieceParams_append, TableRef.pieceParams_pieces, pieceParams_clause,
      pieceParams_conditionPieces, pieceParams_returningPieces, List.append_nil, List.nil_append]
  | raw text => rfl

/-! ### Placeholders in the places of values -/

def placeholder (number : Nat) : String := "$" ++ toString number

mutual
/-- The values behind `count` others are replaced by their placeholders, given as text. -/
def Expr.marked (count : Nat) : Expr → Expr
  | ⟨kind, asName⟩ => ⟨kind.marked count, asName⟩
termination_by structural expr => expr

def ExprKind.marked (count : Nat) : ExprKind → ExprKind
  | .param _ => .raw (placeholder (count + 1))
  | .raw text => .raw text
  | .column column => .column column
  | .row items => .row (exprsMarked count items)
  | .select select => .select (select.marked count)
  | .condition tree => .condition (tree.marked count)
  | .binary operator left right =>
    if operator.testsNothing right then .binary operator left right
    else .binary operator (left.marked count)
      (right.marked (count + (valuesOf left.leaves).length))
  | .isNull operand => .isNull (operand.marked count)
  | .isNotNull operand => .isNotNull (operand.marked count)
  | .asterisk table => .asterisk table
  | .default => .default
termination_by structural kind => kind

def ConditionTree.marked (count : Nat) : ConditionTree → ConditionTree
  | .and operands => .and (exprsMarked count operands)
  | .or operands => .or (exprsMarked count operands)
  | .not operand => .not (operand.marked count)
  | .single operand => .single (operand.marked count)
  | .always => .always
  | .never => .never
termination_by structural tree => tree

def Select.marked (count : Nat) : Select → Select
  | ⟨columns, tables, condition, ordering, limit, offset⟩ =>
    let behindColumns := count + (valuesOf (exprsLeaves columns)).length
    let behindCondition := behindColumns + (valuesOf (conditionLeaves condition)).length
    ⟨exprsMarked count columns, tables, conditionMarked behindColumns condition,
      orderingMarked behindCondition ordering, limit, offset⟩
termination_by structural select => select

def exprsMarked (count : Nat) : List Expr → List Expr
  | [] => []
  | expr :: rest =>
    expr.marked count :: exprsMarked (count + (valuesOf expr.leaves).length) rest
termination_by structural exprs => exprs

def conditionMarked (count : Nat) : Option ConditionTree → Option ConditionTree
  | some tree => some (tree.marked count)
  | none => none
termination_by structural tree => tree

def orderingMarked (count : Nat) :
    List (Expr × Option SortOrder) → List (Expr × Option SortOrder)
  | [] => []
  | (expr, order) :: rest =>
    (expr.marked count, order) :: orderingMarked (count + (valuesOf expr.leaves).length) rest
termination_by structural terms => terms
end

/-- The values that a statement sets its columns to, replaced by their placeholders. -/
def settingsMarked (values : List (ColumnRef × Expr)) : List (ColumnRef × Expr) :=
  (values.map Prod.fst).zip (exprsMarked 0 (values.map Prod.snd))

/-- The query with the placeholder `$k` as text in the place of its `k`-th value. -/
def Query.marked : Query → Query
  | .select s => .select (s.marked 0)
  | .insert i => .insert { i with values := settingsMarked i.values }
  | .update u => .update { u with
      values := settingsMarked u.values
      condition :=
        conditionMarked (valuesOf (exprsLeaves (u.values.map Prod.snd))).length u.condition }
  | .delete d => .delete { d with condition := conditionMarked 0 d.condition }
  | .raw text => .raw text

/-- The pieces with the placeholders of parameters given as text. -/
def numbered (count : Nat) : List Piece → List Piece
  | [] => []
  | .param _ :: rest => .text (placeholder (count + 1)) :: numbered (count + 1) rest
  | .text text :: rest => .text text :: numbered count rest
  | .name path :: rest => .name path :: numbered count rest

def numberedItems (count : Nat) : List (List Piece) → List (List Piece)
  | [] => []
  | item :: rest => numbered count item :: numberedItems (count + (pieceParams item).length) rest

section Numbered

variable {count : Nat}

lemma numbered_append (count : Nat) (pieces others : List Piece) :
    numbered count (pieces ++ others) =
      numbered count pieces ++ numbered (count + (pieceParams pieces).length) others := by
  induction pieces generalizing count with
  | nil => rfl
  | cons piece rest ih =>
    cases piece with
    | text => simp [numbered, ih]
    | name => simp [numbered, ih]
    | param => simp [numbered, ih, Nat.add_assoc, Nat.add_comm 1]

lemma numbered_eq_self {pieces : List Piece} (h : pieceParams pieces = []) (count : Nat) :
    numbered count pieces = pieces := by
  induction pieces generalizing count with
  | nil => rfl
  | cons piece rest ih =>
    cases piece with
    | text => exact congrArg _ (ih h count)
    | name => exact congrArg _ (ih h count)
    | param => cases h

/-- A placeholder is the same text, whether it is numbered while it is written or before. -/
theorem pieceChars_numbered (pieces : List Piece) (count other : Nat) :
    pieceChars other (numbered count pieces) = pieceChars count pieces := by
  induction pieces generalizing count with
  | nil => rfl
  | cons piece rest ih =>
    cases piece with
    | text => simp [numbered, pieceChars, ih]
    | name => simp [numbered, pieceChars, ih]
    | param => simp [numbered, pieceChars, placeholder, ih]

lemma numbered_separated (separator : String) (items : List (List Piece)) (count : Nat) :
    numbered count (separated separator items) =
      separated separator (numberedItems count items) := by
  induction items using separated.induct generalizing count with
  | case1 => rfl
  | case2 item => rfl
  | case3 item rest hrest ih =>
    cases rest with
    | nil => exact absurd rfl hrest
    | cons next others =>
      simp only [separated, numbered_append, numbered, ih, numberedItems]

lemma numbered_parenthesized (pieces : List Piece) :
    numbered count (parenthesized pieces) = parenthesized (numbered count pieces) := by
  simp [parenthesized, numbered, numbered_append]

lemma numbered_conjunction (separator neutral : String) (operands : List (List Piece)) :
    numbered count (conjunction separator neutral operands) =
      conjunction separator neutral (numberedItems count operands) := by
  cases operands with
  | nil => rfl
  | cons first rest =>
    have hwritten : conjunction separator neutral (first :: rest) =
        parenthesized (separated separator (first :: rest)) := rfl
    rw [hwritten, numbered_parenthesized, numbered_separated]
    rfl

lemma numbered_clause (keyword : String) (pieces : List Piece) :
    numbered count (clause keyword pieces) = clause keyword (numbered count pieces) := by
  rcases pieces with _ | ⟨_ | _ | _, rest⟩ <;> rfl

end Numbered

lemma testsNothing_marked (operator : Operator) (right : Expr) (count : Nat) :
    operator.testsNothing (right.marked count) = operator.testsNothing right := by
  obtain ⟨kind, asName⟩ := right
  cases operator with
  | compare => rfl
  | isIn =>
    cases kind with
    | row items => cases items <;> rfl
    | binary other left right => rw [Expr.marked, ExprKind.marked]; split <;> rfl
    | _ => rfl
  | notIn =>
    cases kind with
    | row items => cases items <;> rfl
    | binary other left right => rw [Expr.marked, ExprKind.marked]; split <;> rfl
    | _ => rfl

mutual
/-- Placeholders that stand in the places of values are written where the values are. -/
theorem Expr.pieces_marked (expr : Expr) (count : Nat) :
    (expr.marked count).pieces = numbered count expr.pieces := by
  obtain ⟨kind, asName⟩ := expr
  rw [Expr.marked, Expr.pieces, Expr.pieces, numbered_append, kind.pieces_marked,
    numbered_eq_self (pieceParams_namePieces asName)]
termination_by structural expr

theorem ExprKind.pieces_marked (kind : ExprKind) (count : Nat) :
    (kind.marked count).pieces = numbered count kind.pieces := by
  cases kind with
  | param value => rfl
  | raw text => rfl
  | column column => exact (numbered_eq_self column.pieceParams_pieces count).symm
  | row items =>
    rw [ExprKind.marked, ExprKind.pieces, ExprKind.pieces, numbered_parenthesized,
      numbered_separated, exprPieces_marked items]
  | select select =>
    rw [ExprKind.marked, ExprKind.pieces, ExprKind.pieces, numbered_parenthesized,
      select.pieces_marked]
  | condition tree => exact tree.pieces_marked count
  | binary operator left right =>
    rw [ExprKind.marked, pieces_binary]
    cases htests : operator.testsNothing right with
    | true =>
      rw [if_pos rfl, if_pos rfl, pieces_binary, htests]
      rfl
    | false =>
      simp only [Bool.false_eq_true, if_false, pieces_binary, testsNothing_marked, htests,
        numbered_append, numbered, left.pieces_marked, right.pieces_marked,
        left.pieceParams_pieces]
  | isNull operand =>
    rw [ExprKind.marked, ExprKind.pieces, ExprKind.pieces, numbered_append,
      operand.pieces_marked]
    rfl
  | isNotNull operand =>
    rw [ExprKind.marked, ExprKind.pieces, ExprKind.pieces, numbered_append,
      operand.pieces_marked]
    rfl
  | asterisk table => cases table <;> rfl
  | default => rfl
termination_by structural kind

theorem ConditionTree.pieces_marked (tree : ConditionTree) (count : Nat) :
    (tree.marked count).pieces = numbered count tree.pieces := by
  cases tree with
  | and operands =>
    rw [ConditionTree.marked, ConditionTree.pieces, ConditionTree.pieces, numbered_conjunction,
      exprPieces_marked operands]
  | or operands =>
    rw [ConditionTree.marked, ConditionTree.pieces, ConditionTree.pieces, numbered_conjunction,
      exprPieces_marked operands]
  | not operand =>
    rw [ConditionTree.marked, ConditionTree.pieces, ConditionTree.pieces, numbered,
      numbered_parenthesized, operand.pieces_marked]
  | single operand => exact operand.pieces_marked count
  | always => rfl
  | never => rfl
termination_by structural tree

theorem Select.pieces_marked (select : Select) (count : Nat) :
    (select.marked count).pieces = numbered count select.pieces := by
  obtain ⟨columns, tables, condition, ordering, limit, offset⟩ := select
  have hcolumns : (if (exprsMarked count columns).isEmpty then [.text "*"]
      else separated ", " (exprPieces (exprsMarked count columns))) =
        numbered count (if columns.isEmpty then [.text "*"]
          else separated ", " (exprPieces columns)) := by
    rw [exprPieces_marked columns]
    cases columns with
    | nil => rfl
    | cons first rest => exact (numbered_separated _ _ _).symm
  have hsent : pieceParams (if columns.isEmpty then [.text "*"]
      else separated ", " (exprPieces columns)) = valuesOf (exprsLeaves columns) := by
    rw [← flatMap_exprPieces columns]
    cases columns with
    | nil => rfl
    | cons first rest => exact pieceParams_separated _ _
  have htables (count : Nat) : numbered count (clause " FROM "
      (separated ", " (tables.map TableRef.pieces))) =
        clause " FROM " (separated ", " (tables.map TableRef.pieces)) :=
    numbered_eq_self (by simp [List.flatMap_map]) count
  have hcount (keyword : String) (limit : Option Nat) (count : Nat) :
      numbered count (countClause keyword limit) = countClause keyword limit :=
    numbered_eq_self (pieceParams_countClause _ _) count
  have hnone : pieceParams (clause " FROM " (separated ", " (tables.map TableRef.pieces))) = [] :=
    by simp [List.flatMap_map]
  simp only [Select.marked, Select.pieces, List.cons_append, List.append_assoc, numbered,
    numbered_append, hcolumns, hsent, htables, hnone, hcount, numbered_clause, numbered_separated,
    conditionPieces_marked condition, orderingPieces_marked ordering, pieceParams_clause,
    pieceParams_conditionPieces, List.length_nil, Nat.add_zero]
termination_by structural select

theorem exprPieces_marked (exprs : List Expr) (count : Nat) :
    exprPieces (exprsMarked count exprs) = numberedItems count (exprPieces exprs) := by
  cases exprs with
  | nil => rfl
  | cons expr rest =>
    rw [exprsMarked, exprPieces, exprPieces, numberedItems, expr.pieces_marked,
      exprPieces_marked rest, expr.pieceParams_pieces]
termination_by structural exprs

theorem conditionPieces_marked (tree : Option ConditionTree) (count : Nat) :
    conditionPieces (conditionMarked count tree) = numbered count (conditionPieces tree) := by
  cases tree with
  | none => rfl
  | some tree => exact tree.pieces_marked count
termination_by structural tree

theorem orderingPieces_marked (terms : List (Expr × Option SortOrder)) (count : Nat) :
    orderingPieces (orderingMarked count terms) = numberedItems count (orderingPieces terms) := by
  match terms with
  | [] => rfl
  | (expr, order) :: rest =>
    have hsent : pieceParams (expr.pieces ++ [.text (directionText order)]) =
        valuesOf expr.leaves := by
      rw [pieceParams_append, expr.pieceParams_pieces]
      exact List.append_nil _
    rw [orderingMarked, orderingPieces, orderingPieces, numberedItems, expr.pieces_marked,
      orderingPieces_marked rest, numbered_append, hsent]
    rfl
termination_by structural terms
end

section Settings

variable (values : List (ColumnRef × Expr))

lemma length_exprsMarked (exprs : List Expr) (count : Nat) :
    (exprsMarked count exprs).length = exprs.length := by
  induction exprs generalizing count with
  | nil => rfl
  | cons expr rest ih => exact congrArg Nat.succ (ih _)

lemma map_fst_settingsMarked : (settingsMarked values).map Prod.fst = values.map Prod.fst :=
  List.map_fst_zip (by simp [length_exprsMarked])

lemma map_snd_settingsMarked :
    (settingsMarked values).map Prod.snd = exprsMarked 0 (values.map Prod.snd) :=
  List.map_snd_zip (by simp [length_exprsMarked])

/-- The settings of an update with the placeholders as text, behind `count` others. -/
lemma settings_marked (count : Nat) :
    ((values.map Prod.fst).zip (exprsMarked count (values.map Prod.snd))).map
        (fun (c, expr) => .name [c.name] :: .text " = " :: expr.pieces) =
      numberedItems count (values.map fun (c, expr) =>
        .name [c.name] :: .text " = " :: expr.pieces) := by
  induction values generalizing count with
  | nil => rfl
  | cons setting rest ih =>
    simp only [List.map_cons, exprsMarked, List.zip_cons_cons, ih, numberedItems, numbered,
      setting.2.pieces_marked, pieceParams_name_cons, pieceParams_text_cons,
      setting.2.pieceParams_pieces]

end Settings

lemma numbered_returningPieces (columns : List ColumnRef) (count : Nat) :
    numbered count (returningPieces columns) = returningPieces columns :=
  numbered_eq_self (pieceParams_returningPieces columns) count

lemma numbered_table (table : TableRef) (count : Nat) :
    numbered count table.pieces = table.pieces :=
  numbered_eq_self table.pieceParams_pieces count

lemma Insert.pieces_marked (insert : Insert) :
    Insert.pieces { insert with values := settingsMarked insert.values } =
      numbered 0 insert.pieces := by
  obtain ⟨table, values, skips, returning⟩ := insert
  have hnames (settings : List (ColumnRef × Expr)) : settings.map (fun (c, _) => [.name [c.name]]) =
      (settings.map Prod.fst).map fun c => [Piece.name [c.name]] := by
    rw [List.map_map]
    rfl
  have hnone : pieceParams (parenthesized (separated "," (values.map fun (c, _) =>
      [.name [c.name]]))) = [] := by
    simp [List.flatMap_map]
  have hrow : (Expr.row (exprsMarked 0 (values.map Prod.snd))).pieces =
      numbered 0 (Expr.row (values.map Prod.snd)).pieces :=
    Expr.pieces_marked (Expr.row (values.map Prod.snd)) 0
  have hskips (count : Nat) : numbered count (if skips then [.text " ON CONFLICT DO NOTHING"]
      else []) = if skips then [.text " ON CONFLICT DO NOTHING"] else [] := by
    cases skips <;> rfl
  simp only [Insert.pieces, List.cons_append, numbered, numbered_append, numbered_table, hskips,
    numbered_returningPieces, TableRef.pieceParams_pieces, List.length_nil, Nat.add_zero]
  cases values with
  | nil => rfl
  | cons first rest =>
    have hmarked : (settingsMarked (first :: rest)).isEmpty = false := rfl
    simp only [hmarked, List.isEmpty_cons, Bool.false_eq_true, if_false, hnames,
      map_fst_settingsMarked, map_snd_settingsMarked, hrow, numbered, numbered_append]
    rw [← hnames, numbered_eq_self hnone, hnone]
    rfl

lemma Update.pieces_marked (update : Update) :
    Update.pieces { update with
        values := settingsMarked update.values
        condition := conditionMarked
          (valuesOf (exprsLeaves (update.values.map Prod.snd))).length update.condition } =
      numbered 0 update.pieces := by
  simp only [Update.pieces, List.cons_append, List.append_assoc, numbered, numbered_append,
    numbered_table, numbered_separated, numbered_clause, numbered_returningPieces, settingsMarked,
    settings_marked, conditionPieces_marked, TableRef.pieceParams_pieces, pieceParams_separated,
    flatMap_settings, List.length_nil, Nat.add_zero, Nat.zero_add]

lemma Delete.pieces_marked (delete : Delete) :
    Delete.pieces { delete with condition := conditionMarked 0 delete.condition } =
      numbered 0 delete.pieces := by
  simp only [Delete.pieces, List.cons_append, numbered, numbered_append, numbered_table,
    numbered_clause, numbered_returningPieces, conditionPieces_marked,
    TableRef.pieceParams_pieces, List.length_nil, Nat.add_zero]

/-- The text of a statement is the one with the placeholder `$k` in the place of its `k`-th
value. -/
theorem Query.text_marked (query : Query) :
    query.marked.statement.text = query.statement.text := by
  have hpieces : query.marked.pieces = numbered 0 query.pieces := by
    cases query with
    | select select => exact select.pieces_marked 0
    | insert insert => exact insert.pieces_marked
    | update update => exact update.pieces_marked
    | delete delete => exact delete.pieces_marked
    | raw text => rfl
  rw [Query.statement, Query.statement, Statement.ofPieces, Statement.ofPieces, hpieces,
    pieceChars_numbered]

end EntityGraph.Sql
