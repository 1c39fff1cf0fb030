import EntityGraph.Exchange.Value
import EntityGraph.Sql.Statement
/-!
SQL queries in exchange documents. A condition tree may be given by the builder that makes it.
-/
namespace EntityGraph.Exchange

open Sql (ColumnRef ConditionTree Expr ExprKind Select TableRef)

def tableRef : Json → Reading TableRef
  | .string name => .ok (Sql.table name)
  | json => do return ⟨← text "name" json, ← optional "alias" json asText⟩

def columnRef : Json → Reading ColumnRef
  | .string name => .ok (Sql.column name)
  | json => do
    return ⟨← text "name" json, ← optional "table" json tableRef, ← optional "alias" json asText⟩

def orderingTerm (json : Json) : Reading (Expr × Option SortOrder) := do
  return (.column (← required "column" json columnRef),
    ← optional "dir" json (word SortOrder.ofText?))

def operator? : String → Option Sql.Operator
  | "eq" => some (.compare .equal)
  | "notEq" => some (.compare .notEqual)
  | "lt" => some (.compare .less)
  | "lte" => some (.compare .lessOrEqual)
  | "gt" => some (.compare .greater)
  | "gte" => some (.compare .greaterOrEqual)
  | "in" => some .isIn
  | "notIn" => some .notIn
  | _ => none

def leafTree : String → Reading ConditionTree
  | "never" => .ok .never
  | "none" | "default" => .ok .always
  | name => .error s!"unknown condition tree {name}"

/-- The parts of a selection, in whatever order they were given. -/
structure SelectParts where
  table : Option TableRef := none
  column : List ColumnRef := []
  columns : List ColumnRef := []
  values : List Expr := []
  condition : Option ConditionTree := none
  further : List ConditionTree := []
  ordering : List (Expr × Option SortOrder) := []
  limit : Option Nat := none
  offset : Option Nat := none

def SelectParts.select (parts : SelectParts) : Select :=
  parts.further.foldl Select.andFiltered
    ⟨(parts.column ++ parts.columns).map Expr.column ++ parts.values, parts.table.toList,
      parts.condition, parts.ordering, parts.limit, parts.offset⟩

/-- A part of a selection that holds no expressions. -/
def selectPart (parts : SelectParts) (key : String) (json : Json) : Reading SelectParts :=
  match key with
  | "from" => do return { parts with table := some (← tableRef json) }
  | "column" => do return { parts with column := [← columnRef json] }
  | "columns" => do return { parts with columns := ← listOf columnRef json }
  | "order" => do return { parts with ordering := ← listOf orderingTerm json }
  | "limit" => do return { parts with limit := some (← asNat json) }
  | "offset" => do return { parts with offset := some (← asNat json) }
  | _ => .error s!"unknown part {key}"

mutual
def expr : Json → Reading Expr
  | .string "default" => .ok (.ofKind .default)
  | .object members => exprMembers none none members
  | _ => .error "malformed expression"
termination_by structural json => json

/-- The kind of an expression and its name stand beside each other. -/
def exprMembers (kind : Option ExprKind) (asName : Option String) : Table Json → Reading Expr
  | [] =>
    match kind with
    | some kind => .ok ⟨kind, asName⟩
    | none => .error "malformed expression"
  | ("alias", .string name) :: rest => exprMembers kind (some name) rest
  | ("alias", _) :: rest => exprMembers kind asName rest
  | (key, json) :: rest => do
    let kind ← exprKind key json
    exprMembers (some kind) asName rest
termination_by structural members => members

def exprKind : String → Json → Reading ExprKind
  | "value", json => .param <$> value json
  | "raw", json => .raw <$> asText json
  | "column", json => .column <$> columnRef json
  | "row", .array items => .row <$> exprs items
  | "select", .object members => (.select ∘ SelectParts.select) <$> selectParts {} members
  | "cond", .string name => .condition <$> leafTree name
  | "cond", .object [(key, json)] => .condition <$> treeKind key json
  | "compare", .object [(key, json)] => comparison key json
  | "asterisk", .null => .ok (.asterisk none)
  | "asterisk", json => (.asterisk ∘ some) <$> tableRef json
  | key, _ => .error s!"malformed expression {key}"
termination_by structural _ json => json

def comparison : String → Json → Reading ExprKind
  | key, .array [left, right] => do
    match operator? key with
    | some operator =>
      let left ← expr left
      let right ← expr right
      .ok (.binary operator left right)
    | none => .error s!"unknown comparison {key}"
  | "null", .object members => .isNull <$> exprMembers none none members
  | "notNull", .object members => .isNotNull <$> exprMembers none none members
  | "null", .string "default" => .ok (.isNull (.ofKind .default))
  | "notNull", .string "default" => .ok (.isNotNull (.ofKind .default))
  | key, _ => .error s!"malformed comparison {key}"
termination_by structural _ json => json

def exprs : List Json → Reading (List Expr)
  | [] => .ok []
  | item :: rest => do
    let head ← expr item
    let tail ← exprs rest
    .ok (head :: tail)
termination_by structural items => items

def tree : Json → Reading ConditionTree
  | .string name => leafTree name
  | .object [(key, json)] => treeKind key json
  | _ => .error "malformed condition tree"
termination_by structural json => json

def treeKind : String → Json → Reading ConditionTree
  | "andWith", .array [left, right] => do
    let left ← tree left
    let right ← tree right
    .ok (left.andWith right)
  | "invertIf", .array [flag, json] => do
    let invert ← asFlag flag
    let inner ← tree json
    .ok (if invert then inner.negation else inner)
  | "compare", .object [(key, json)] => (.single ∘ .ofKind) <$> comparison key json
  | key, .array operands =>
    if key = "and" ∨ key = "binaryAnd" ∨ key = "conjAnd" then .and <$> exprs operands
    else if key = "or" ∨ key = "binaryOr" ∨ key = "conjOr" then .or <$> exprs operands
    else .error s!"malformed condition tree {key}"
  | key, .object members => do
    let operand ← exprMembers none none members
    if key = "not" ∨ key = "conjNot" then .ok (.not operand)
    else if key = "single" then .ok (.single operand)
    else if key = "from" then .ok (.ofExpr operand)
    else .error s!"malformed condition tree {key}"
  | "not", .string "default" | "conjNot", .string "default" => .ok (.not (.ofKind .default))
  | "single", .string "default" | "from", .string "default" => .ok (.single (.ofKind .default))
  | key, _ => .error s!"malformed condition tree {key}"
termination_by structural _ json => json

def trees : List Json → Reading (List ConditionTree)
  | [] => .ok []
  | item :: rest => do
    let head ← tree item
    let tail ← trees rest
    .ok (head :: tail)
termination_by structural items => items

def selectParts (parts : SelectParts) : Table Json → Reading SelectParts
  | [] => .ok parts
  | (_, .null) :: rest => selectParts parts rest
  | ("values", .array items) :: rest => do
    let values ← exprs items
    selectParts { parts with values } rest
  | ("where", json) :: rest => do
    let condition ← tree json
    selectParts { parts with condition := some condition } rest
  | ("andWhere", .array items) :: rest => do
    let further ← trees items
    selectParts { parts with further } rest
  | (key, json) :: rest => do
    let parts ← selectPart parts key json
    selectParts parts rest
termination_by structural members => members
end

def select (json : Json) : Reading Select := do
  SelectParts.select <$> selectParts {} (← asMembers json)

def assignments (key : String) (json : Json) : Reading (List (ColumnRef × Expr)) :=
  orElse key json [] (listOf (pairOf columnRef expr))

def insert (json : Json) : Reading Sql.Insert := do
  return ⟨← required "into" json tableRef, ← assignments "values" json, flag "doNothing" json,
    ← orElse "returning" json [] (listOf columnRef)⟩

def update (json : Json) : Reading Sql.Update := do
  return ⟨← required "table" json tableRef, ← assignments "set" json, ← optional "where" json tree,
    ← orElse "returning" json [] (listOf columnRef)⟩

def delete (json : Json) : Reading Sql.Delete := do
  return ⟨← required "from" json tableRef, ← optional "where" json tree,
    ← orElse "returning" json [] (listOf columnRef)⟩

def query (json : Json) : Reading Sql.Query := do
  match ← single json with
  | ("select", body) => .select <$> select body
  | ("insert", body) => .insert <$> insert body
  | ("update", body) => .update <$> update body
  | ("delete", body) => .delete <$> delete body
  | ("raw", text) => .raw <$> asText text
  | (kind, _) => .error s!"unknown query {kind}"

def ofStatement (statement : Sql.Statement) : Json :=
  .object [("sql", .string statement.text), ("params", ofValues statement.params)]

end EntityGraph.Exchange
