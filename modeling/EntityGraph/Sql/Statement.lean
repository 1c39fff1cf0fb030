import EntityGraph.Sql.Identifier
import EntityGraph.Sql.Query
/-!
Statements: the text of a query and the values sent beside it. A query is first written as a list
of pieces; each parameter among them becomes a numbered placeholder.
-/
namespace EntityGraph.Sql

inductive Piece where
  | text (text : String)
  /-- A name, its parts quoted and joined by points. -/
  | name (path : List String)
  | param (value : Value)

/-- The lists of pieces with a separator between them. -/
def separated (separator : String) : List (List Piece) → List Piece
  | [] => []
  | [item] => item
  | item :: rest => item ++ .text separator :: separated separator rest

def parenthesized (pieces : List Piece) : List Piece := .text "(" :: pieces ++ [.text ")"]

/-- What follows an expression or a table that is given a name. -/
def namePieces : Option String → List Piece
  | some name => [.text " AS ", .name [name]]
  | none => []

/-- A table where it is introduced. -/
def TableRef.pieces (table : TableRef) : List Piece := .name [table.name] :: namePieces table.asName

def ColumnRef.pieces (column : ColumnRef) : List Piece :=
  match column.table with
  | some table => .name [table.referenceName, column.name] :: namePieces column.asName
  | none => .name [column.name] :: namePieces column.asName

def Operator.text : Operator → String
  | .compare .equal => " = "
  | .compare .notEqual => " <> "
  | .compare .less => " < "
  | .compare .lessOrEqual => " <= "
  | .compare .greater => " > "
  | .compare .greaterOrEqual => " >= "
  | .isIn => " IN "
  | .notIn => " NOT IN "

/-- Membership in an empty row is written as the truth value that it has. -/
def Operator.onEmptyRow : Operator → Option String
  | .isIn => some "1=0"
  | .notIn => some "1=1"
  | _ => none

def directionText : Option SortOrder → String
  | some .ascending => " ASC"
  | some .descending => " DESC"
  | none => ""

def clause (keyword : String) (pieces : List Piece) : List Piece :=
  if pieces.isEmpty then [] else .text keyword :: pieces

def countClause (keyword : String) : Option Nat → List Piece
  | some n => [.text s!"{keyword}{n}"]
  | none => []

/-- The conjunction or disjunction of the written operands, `neutral` standing for none. -/
def conjunction (separator neutral : String) (operands : List (List Piece)) : List Piece :=
  if operands.isEmpty then [.text neutral] else parenthesized (separated separator operands)

mutual
def Expr.pieces : Expr → List Piece
  | ⟨kind, asName⟩ => kind.pieces ++ namePieces asName
termination_by structural expr => expr

def ExprKind.pieces : ExprKind → List Piece
  | .param value => [.param value]
  | .raw text => [.text text]
  | .column column => column.pieces
  | .row items => parenthesized (separated "," (exprPieces items))
  | .select select => parenthesized select.pieces
  | .condition tree => tree.pieces
  | .binary operator left right =>
    match operator.onEmptyRow, right.asRow? with
    | some truth, some [] => [.text truth]
    | _, _ => left.pieces ++ .text operator.text :: right.pieces
  | .isNull operand => operand.pieces ++ [.text " IS NULL"]
  | .isNotNull operand => operand.pieces ++ [.text " IS NOT NULL"]
  | .asterisk (some table) => [.name [table.referenceName], .text ".*"]
  | .asterisk none => [.text "*"]
  | .default => [.text "DEFAULT"]
termination_by structural kind => kind

def ConditionTree.pieces : ConditionTree → List Piece
  | .and operands => conjunction " AND " "1=1" (exprPieces operands)
  | .or operands => conjunction " OR " "1=0" (exprPieces operands)
  | .not operand => .text "NOT " :: parenthesized operand.pieces
  | .single operand => operand.pieces
  | .always => [.text "1=1"]
  | .never => [.text "1=0"]
termination_by structural tree => tree

def Select.pieces : Select → List Piece
  | ⟨columns, tables, condition, ordering, limit, offset⟩ =>
    .text "SELECT " ::
      (if columns.isEmpty then [.text "*"] else separated ", " (exprPieces columns)) ++
      clause " FROM " (separated ", " (tables.map TableRef.pieces)) ++
      clause " WHERE " (conditionPieces condition) ++
      clause " ORDER BY " (separated ", " (orderingPieces ordering)) ++
      countClause " LIMIT " limit ++ countClause " OFFSET " offset
termination_by structural select => select

def exprPieces : List Expr → List (List Piece)
  | [] => []
  | expr :: rest => expr.pieces :: exprPieces rest
termination_by structural exprs => exprs

def conditionPieces : Option ConditionTree → List Piece
  | some tree => tree.pieces
  | none => []
termination_by structural tree => tree

def orderingPieces : List (Expr × Option SortOrder) → List (List Piece)
  | [] => []
  | (expr, order) :: rest =>
    (expr.pieces ++ [.text (directionText order)]) :: orderingPieces rest
termination_by structural terms => terms
end

def returningPieces (columns : List ColumnRef) : List Piece :=
  clause " RETURNING " (separated ", " (columns.map ColumnRef.pieces))

def Insert.pieces (insert : Insert) : List Piece :=
  .text "INSERT INTO " :: insert.table.pieces ++
    (if insert.values.isEmpty then [.text " DEFAULT VALUES"]
     else
      .text " " :: parenthesized (separated "," (insert.values.map fun (c, _) => [.name [c.name]])) ++
        .text " VALUES " :: (Expr.row (insert.values.map Prod.snd)).pieces) ++
    (if insert.skipsConflicts then [.text " ON CONFLICT DO NOTHING"] else []) ++
    returningPieces insert.returning

def Update.pieces (update : Update) : List Piece :=
  .text "UPDATE " :: update.table.pieces ++
    .text " SET " :: separated ", " (update.values.map fun (c, expr) =>
      .name [c.name] :: .text " = " :: expr.pieces) ++
    clause " WHERE " (conditionPieces update.condition) ++ returningPieces update.returning

def Delete.pieces (delete : Delete) : List Piece :=
  .text "DELETE FROM " :: delete.table.pieces ++
    clause " WHERE " (conditionPieces delete.condition) ++ returningPieces delete.returning

def Query.pieces : Query → List Piece
  | .select s => s.pieces
  | .insert i => i.pieces
  | .update u => u.pieces
  | .delete d => d.pieces
  | .raw text => [.text text]

/-- The characters of the pieces after `count` parameters. -/
def pieceChars (count : Nat) : List Piece → List Char
  | [] => []
  | .text text :: rest => text.toList ++ pieceChars count rest
  | .name path :: rest => quotedPath path ++ pieceChars count rest
  | .param _ :: rest => '$' :: (toString (count + 1)).toList ++ pieceChars (count + 1) rest

def pieceParams : List Piece → List Value
  | [] => []
  | .param value :: rest => value :: pieceParams rest
  | _ :: rest => pieceParams rest

structure Statement where
  text : String
  params : List Value

def Statement.ofPieces (pieces : List Piece) : Statement :=
  ⟨.ofList (pieceChars 0 pieces), pieceParams pieces⟩

def Query.statement (query : Query) : Statement := .ofPieces query.pieces

@[simp] theorem pieceParams_append (a b : List Piece) :
    pieceParams (a ++ b) = pieceParams a ++ pieceParams b := by
  induction a with
  | nil => rfl
  | cons piece rest ih => cases piece <;> simp [pieceParams, ih]

end EntityGraph.Sql
