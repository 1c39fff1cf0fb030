import EntityGraph.Proofs.Filter.Meaning
import EntityGraph.Proofs.Sql.Rendering
/-!
What a filter contributes to a statement. The translation of a filter commutes with the replacement
of its values, so the text of a statement follows from the shape of the filter; the values are sent
beside the text in the order in which the filter has them.
-/
namespace EntityGraph

open Sql (ColumnRef ConditionTree Expr ExprKind Piece Query Select pieceParams)

namespace Condition

mutual
def mapValues (f : Value → Value) : Condition → Condition
  | and operands => .and (allMapValues f operands)
  | or operands => .or (allMapValues f operands)
  | not operand => .not (mapValues f operand)
  | compare comparison value => .compare comparison (f value)
  | oneOf values => .oneOf (values.map f)
  | noneOf values => .noneOf (values.map f)
  | isNull flag => .isNull flag
  | null flag => .null flag
  | never => .never
  | always => .always
termination_by structural condition => condition

def allMapValues (f : Value → Value) : List Condition → List Condition
  | [] => []
  | operand :: rest => mapValues f operand :: allMapValues f rest
termination_by structural operands => operands
end

mutual
/-- The values of a condition from left to right. -/
def values : Condition → List Value
  | and operands => allValues operands
  | or operands => allValues operands
  | not operand => values operand
  | compare _ value => [value]
  | oneOf options => options
  | noneOf options => options
  | isNull _ | null _ | never | always => []
termination_by structural condition => condition

def allValues : List Condition → List Value
  | [] => []
  | operand :: rest => values operand ++ allValues rest
termination_by structural operands => operands
end

end Condition

namespace Filter

mutual
def mapValues (f : Value → Value) : Filter → Filter
  | ⟨and, or, not, fields⟩ =>
    ⟨operandsMapValues f and, operandsMapValues f or, negationMapValues f not,
      fieldsMapValues f fields⟩
termination_by structural filter => filter

def operandsMapValues (f : Value → Value) : List Filter → List Filter
  | [] => []
  | operand :: rest => mapValues f operand :: operandsMapValues f rest
termination_by structural operands => operands

def negationMapValues (f : Value → Value) : Option Filter → Option Filter
  | none => none
  | some operand => some (mapValues f operand)
termination_by structural operand => operand

def fieldsMapValues (f : Value → Value) : List (String × FieldFilter) → List (String × FieldFilter)
  | [] => []
  | (name, .condition condition) :: rest =>
    (name, .condition (condition.mapValues f)) :: fieldsMapValues f rest
  | (name, .relation nested) :: rest =>
    (name, .relation (mapValues f nested)) :: fieldsMapValues f rest
termination_by structural fields => fields
end

/-- A filter without its values: each is replaced by `NULL`. -/
def shape (filter : Filter) : Filter := filter.mapValues fun _ => .null

mutual
/-- The values of a filter in the order of its parts: `and`, `or`, `not`, and then the fields. -/
def values : Filter → List Value
  | ⟨and, or, not, fields⟩ =>
    operandsValues and ++ operandsValues or ++ negationValues not ++ fieldsValues fields
termination_by structural filter => filter

def operandsValues : List Filter → List Value
  | [] => []
  | operand :: rest => values operand ++ operandsValues rest
termination_by structural operands => operands

def negationValues : Option Filter → List Value
  | none => []
  | some operand => values operand
termination_by structural operand => operand

def fieldsValues : List (String × FieldFilter) → List Value
  | [] => []
  | (_, .condition condition) :: rest => condition.values ++ fieldsValues rest
  | (_, .relation nested) :: rest => values nested ++ fieldsValues rest
termination_by structural fields => fields
end

end Filter

section Map

variable (f : Value → Value)

namespace Condition

lemma params_mapValues (values : List Value) :
    (Expr.params values).mapValues f = .params (values.map f) := by
  rw [Expr.params, Expr.row, Expr.ofKind, Expr.mapValues, ExprKind.mapValues,
    Sql.exprsMapValues_eq_map, List.map_map, Expr.params, List.map_map]
  rfl

mutual
theorem toTree_mapValues (column : ColumnRef) (condition : Condition) :
    (condition.mapValues f).toTree column = (condition.toTree column).mapValues f := by
  cases condition with
  | and operands =>
    rw [mapValues, toTree, allToExprs_allMapValues column operands, toTree, ConditionTree.mapValues]
  | or operands =>
    rw [mapValues, toTree, allToExprs_allMapValues column operands, toTree, ConditionTree.mapValues]
  | not operand =>
    rw [mapValues, toTree, toTree_mapValues column operand, toTree]
    rfl
  | compare comparison value => rfl
  | oneOf options =>
    rw [mapValues, toTree, ← params_mapValues, toTree]
    rfl
  | noneOf options =>
    rw [mapValues, toTree, ← params_mapValues, toTree]
    rfl
  | isNull flag => cases flag <;> rfl
  | null flag => cases flag <;> rfl
  | never => rfl
  | always => rfl
termination_by structural condition

theorem allToExprs_allMapValues (column : ColumnRef) (operands : List Condition) :
    allToExprs column (allMapValues f operands) =
      Sql.exprsMapValues f (allToExprs column operands) := by
  cases operands with
  | nil => rfl
  | cons operand rest =>
    rw [allMapValues, allToExprs, toTree_mapValues column operand,
      allToExprs_allMapValues column rest, allToExprs]
    rfl
termination_by structural operands
end

end Condition

namespace Filter

variable {schema : Schema}

lemma onKeyOnly?_mapValues (target : Entity) (nested : Filter) :
    onKeyOnly? target (nested.mapValues f) = (onKeyOnly? target nested).map (·.mapValues f) := by
  match nested with
  | ⟨_ :: _, _, _, _⟩ => rfl
  | ⟨[], _ :: _, _, _⟩ => rfl
  | ⟨[], [], some _, _⟩ => rfl
  | ⟨[], [], none, []⟩ => rfl
  | ⟨[], [], none, [(name, .relation _)]⟩ => rfl
  | ⟨[], [], none, (_, .condition _) :: (_, .condition _) :: _⟩ => rfl
  | ⟨[], [], none, (_, .condition _) :: (_, .relation _) :: _⟩ => rfl
  | ⟨[], [], none, (_, .relation _) :: (_, .condition _) :: _⟩ => rfl
  | ⟨[], [], none, (_, .relation _) :: (_, .relation _) :: _⟩ => rfl
  | ⟨[], [], none, [(name, .condition condition)]⟩ =>
    simp only [mapValues, operandsMapValues, negationMapValues, fieldsMapValues, onKeyOnly?]
    split <;> rfl

lemma relationTree_mapValues (entity target : Entity) (relation : Relation) (nested : Filter)
    (tree : Except SchemaError ConditionTree) :
    relationTree schema entity target relation (nested.mapValues f)
        (ConditionTree.mapValues f <$> tree) =
      ConditionTree.mapValues f <$> relationTree schema entity target relation nested tree := by
  unfold relationTree
  cases relation.kind with
  | manyHasOne | oneHasOneOwning =>
    simp only [map_bind, bind_map_left, onKeyOnly?_mapValues]
    refine bind_congr fun joining => ?_
    cases onKeyOnly? target nested with
    | none => simp only [Option.map_none, map_bind]; rfl
    | some condition => simp only [Option.map_some, condition.toTree_mapValues]; rfl
  | oneHasMany | oneHasOneInverse | manyHasManyOwning | manyHasManyInverse =>
    simp only [map_bind, bind_map_left]
    rfl

lemma together_mapValues (trees : List ConditionTree) :
    together (trees.map (ConditionTree.mapValues f)) = (together trees).mapValues f := by
  match trees with
  | [] => rfl
  | [_] => rfl
  | first :: second :: rest =>
    simp only [together, List.map_cons, ConditionTree.mapValues, Sql.exprsMapValues_eq_map,
      List.map_map]
    rfl

lemma operandsTree_mapValues {entity : Entity} (joined : List Expr → ConditionTree)
    (hjoined : ∀ exprs, joined (Sql.exprsMapValues f exprs) = (joined exprs).mapValues f)
    {operands : List Filter}
    (h : operandTrees schema entity (operandsMapValues f operands) =
      Sql.exprsMapValues f <$> operandTrees schema entity operands) :
    operandsTree schema entity joined (operandsMapValues f operands) =
      List.map (ConditionTree.mapValues f) <$> operandsTree schema entity joined operands := by
  cases operands with
  | nil => rfl
  | cons first rest =>
    rw [operandsMapValues] at h ⊢
    rw [operandsTree_cons, h, operandsTree_cons]
    simp only [map_bind, bind_map_left, hjoined]
    rfl

mutual
/-- Translating commutes with the replacement of values. -/
theorem toTree_mapValues (entity : Entity) (filter : Filter) :
    toTree schema entity (filter.mapValues f) =
      ConditionTree.mapValues f <$> toTree schema entity filter := by
  obtain ⟨and, or, not, fields⟩ := filter
  have hand := operandsTree_mapValues f .and (fun _ => rfl)
    (operandTrees_mapValues entity and)
  have hor := operandsTree_mapValues f .or (fun _ => rfl)
    (operandTrees_mapValues entity or)
  rw [mapValues, toTree_eq, toTree_eq, hand, hor, negationTree_mapValues entity not,
    fieldTrees_mapValues entity fields]
  simp only [map_bind, bind_map_left]
  simp only [← List.map_append, together_mapValues]
  rfl
termination_by structural filter

theorem operandTrees_mapValues (entity : Entity) (operands : List Filter) :
    operandTrees schema entity (operandsMapValues f operands) =
      Sql.exprsMapValues f <$> operandTrees schema entity operands := by
  cases operands with
  | nil => rfl
  | cons operand rest =>
    rw [operandsMapValues, operandTrees, operandTrees, toTree_mapValues entity operand,
      operandTrees_mapValues entity rest]
    simp only [map_bind, bind_map_left]
    rfl
termination_by structural operands

theorem negationTree_mapValues (entity : Entity) (not : Option Filter) :
    negationTree schema entity (negationMapValues f not) =
      List.map (ConditionTree.mapValues f) <$> negationTree schema entity not := by
  cases not with
  | none => rfl
  | some operand =>
    rw [negationMapValues, negationTree, negationTree, toTree_mapValues entity operand]
    simp only [map_bind, bind_map_left]
    rfl
termination_by structural not

theorem fieldTrees_mapValues (entity : Entity) (fields : List (String × FieldFilter)) :
    fieldTrees schema entity (fieldsMapValues f fields) =
      List.map (ConditionTree.mapValues f) <$> fieldTrees schema entity fields := by
  match fields with
  | [] => rfl
  | (name, .condition condition) :: rest =>
    rw [fieldsMapValues, fieldTrees, fieldTrees, fieldTrees_mapValues entity rest]
    simp only [map_bind, bind_map_left, condition.toTree_mapValues]
    rfl
  | (name, .relation nested) :: rest =>
    rw [fieldsMapValues, fieldTrees, fieldTrees, fieldTrees_mapValues entity rest]
    simp only [map_bind, bind_map_left, toTree_mapValues _ nested, relationTree_mapValues]
    rfl
termination_by structural fields
end

end Filter

end Map

namespace Condition

mutual
theorem pieceParams_toTree (column : ColumnRef) (condition : Condition) :
    pieceParams (condition.toTree column).pieces = condition.values := by
  cases condition with
  | and operands =>
    rw [toTree, ConditionTree.pieces, Sql.pieceParams_conjunction,
      flatMap_allToExprs column operands, values]
  | or operands =>
    rw [toTree, ConditionTree.pieces, Sql.pieceParams_conjunction,
      flatMap_allToExprs column operands, values]
  | not operand =>
    rw [toTree, ConditionTree.negation, ConditionTree.pieces, Sql.pieceParams_text_cons,
      Sql.pieceParams_parenthesized, Sql.Expr.pieces_condition,
      pieceParams_toTree column operand, values]
  | compare comparison value =>
    rw [toTree, ConditionTree.pieces, compareColumn, Sql.pieceParams_binary_column, values]
    rfl
  | oneOf options =>
    rw [toTree, ConditionTree.pieces, compareColumn, Sql.pieceParams_binary_column,
      Sql.pieceParams_params, values]
  | noneOf options =>
    rw [toTree, ConditionTree.pieces, Sql.pieceParams_text_cons, Sql.pieceParams_parenthesized,
      compareColumn, Sql.pieceParams_binary_column, Sql.pieceParams_params, values]
  | isNull flag | null flag =>
    cases flag <;> simp [toTree, ConditionTree.pieces, values]
  | never => rfl
  | always => rfl
termination_by structural condition

theorem flatMap_allToExprs (column : ColumnRef) (operands : List Condition) :
    (Sql.exprPieces (allToExprs column operands)).flatMap pieceParams = allValues operands := by
  cases operands with
  | nil => rfl
  | cons operand rest =>
    rw [allToExprs, Sql.exprPieces, List.flatMap_cons, Sql.Expr.pieces_condition,
      pieceParams_toTree column operand, flatMap_allToExprs column rest, allValues]
termination_by structural operands
end

end Condition

namespace Filter

variable {schema : Schema}

/-- The values sent by several conditions. -/
def sent (trees : List ConditionTree) : List Value :=
  trees.flatMap fun tree => pieceParams tree.pieces

lemma pieceParams_together (trees : List ConditionTree) :
    pieceParams (together trees).pieces = sent trees := by
  match trees with
  | [] => rfl
  | [tree] => simp [together, sent]
  | first :: second :: rest =>
    have hjoined : together (first :: second :: rest) =
        .and ((first :: second :: rest).map .condition) := rfl
    rw [hjoined, ConditionTree.pieces, Sql.pieceParams_conjunction, Sql.exprPieces_eq_map,
      List.map_map, List.flatMap_map]
    simp only [Function.comp_apply, Sql.Expr.pieces_condition, sent]

lemma pieceParams_memberOf (column : String) (select : Select) :
    pieceParams (memberOf column select).pieces = pieceParams select.pieces := by
  rw [memberOf, Expr.isIn, Sql.pieceParams_binary_column, Sql.Expr.pieceParams_select]

lemma pieceParams_selection (tableName columnName : String) (tree : ConditionTree) :
    pieceParams (selection tableName columnName tree).pieces = pieceParams tree.pieces := by
  simp [selection, Select.fromTable, Select.column, Select.filtered, Select.empty, Select.pieces,
    Sql.exprPieces, Sql.conditionPieces, Sql.orderingPieces, Sql.separated]

lemma pieceParams_relationTree {entity target : Entity} {relation : Relation} {nested : Filter}
    {translated : Except SchemaError ConditionTree}
    (hnested : ∀ inner, translated = .ok inner → pieceParams inner.pieces = nested.values)
    {tree : ConditionTree}
    (h : relationTree schema entity target relation nested translated = .ok tree) :
    pieceParams tree.pieces = nested.values := by
  unfold relationTree at h
  generalize relation.kind = kind at h
  cases kind with
  | manyHasOne | oneHasOneOwning =>
    obtain ⟨joining, -, h⟩ := Except.bind_eq_ok.mp h
    split at h
    · rename_i condition hkey
      cases h
      rw [onKeyOnly?_eq_some hkey, condition.pieceParams_toTree]
      simp [onColumn, ofFields, empty, values, operandsValues, negationValues, fieldsValues]
    · obtain ⟨inner, hinner, h⟩ := Except.bind_eq_ok.mp h
      cases h
      rw [ConditionTree.pieces, pieceParams_memberOf, pieceParams_selection, hnested inner hinner]
  | oneHasMany | oneHasOneInverse =>
    obtain ⟨owning, -, h⟩ := Except.bind_eq_ok.mp h
    obtain ⟨joining, -, h⟩ := Except.bind_eq_ok.mp h
    obtain ⟨inner, hinner, h⟩ := Except.bind_eq_ok.mp h
    cases h
    rw [ConditionTree.pieces, pieceParams_memberOf, pieceParams_selection, hnested inner hinner]
  | manyHasManyOwning | manyHasManyInverse =>
    obtain ⟨⟨tableName, thisColumn, otherColumn⟩, -, h⟩ := Except.bind_eq_ok.mp h
    obtain ⟨inner, hinner, h⟩ := Except.bind_eq_ok.mp h
    cases h
    rw [ConditionTree.pieces, pieceParams_memberOf, pieceParams_selection, ConditionTree.pieces,
      pieceParams_memberOf, pieceParams_selection, hnested inner hinner]

mutual
/-- The condition of a filter sends the values of the filter in their order. -/
theorem pieceParams_toTree (entity : Entity) (filter : Filter) {tree : ConditionTree}
    (h : toTree schema entity filter = .ok tree) : pieceParams tree.pieces = filter.values := by
  obtain ⟨and, or, not, fields⟩ := filter
  rw [toTree_eq] at h
  obtain ⟨all, hall, h⟩ := Except.bind_eq_ok.mp h
  obtain ⟨any, hany, h⟩ := Except.bind_eq_ok.mp h
  obtain ⟨none, hnone, h⟩ := Except.bind_eq_ok.mp h
  obtain ⟨each, heach, h⟩ := Except.bind_eq_ok.mp h
  cases h
  have hand : sent all = operandsValues and := by
    cases and with
    | nil => cases hall; rfl
    | cons first rest =>
      obtain ⟨exprs, hexprs, heq⟩ := Except.bind_eq_ok.mp hall
      cases heq
      rw [← flatMap_operandTrees entity (first :: rest) hexprs]
      simp [sent, ConditionTree.pieces]
  have hor : sent any = operandsValues or := by
    cases or with
    | nil => cases hany; rfl
    | cons first rest =>
      obtain ⟨exprs, hexprs, heq⟩ := Except.bind_eq_ok.mp hany
      cases heq
      rw [← flatMap_operandTrees entity (first :: rest) hexprs]
      simp [sent, ConditionTree.pieces]
  have hparts : sent (all ++ any ++ none ++ each) =
      sent all ++ sent any ++ sent none ++ sent each := by
    simp [sent]
  rw [pieceParams_together, hparts, hand, hor, sent_negationTree entity not hnone,
    sent_fieldTrees entity fields heach, values]
termination_by structural filter

theorem flatMap_operandTrees (entity : Entity) (operands : List Filter) {exprs : List Expr}
    (h : operandTrees schema entity operands = .ok exprs) :
    (Sql.exprPieces exprs).flatMap pieceParams = operandsValues operands := by
  cases operands with
  | nil => cases h; rfl
  | cons operand rest =>
    rw [operandTrees] at h
    obtain ⟨tree, htree, h⟩ := Except.bind_eq_ok.mp h
    obtain ⟨others, hothers, h⟩ := Except.bind_eq_ok.mp h
    cases h
    rw [Sql.exprPieces, List.flatMap_cons, Sql.Expr.pieces_condition,
      pieceParams_toTree entity operand htree, flatMap_operandTrees entity rest hothers,
      operandsValues]
termination_by structural operands

theorem sent_negationTree (entity : Entity) (not : Option Filter) {trees : List ConditionTree}
    (h : negationTree schema entity not = .ok trees) : sent trees = negationValues not := by
  cases not with
  | none => cases h; rfl
  | some operand =>
    rw [negationTree] at h
    obtain ⟨tree, htree, h⟩ := Except.bind_eq_ok.mp h
    cases h
    rw [negationValues, ← pieceParams_toTree entity operand htree]
    simp [sent, ConditionTree.negation, ConditionTree.pieces]
termination_by structural not

theorem sent_fieldTrees (entity : Entity) (fields : List (String × FieldFilter))
    {trees : List ConditionTree} (h : fieldTrees schema entity fields = .ok trees) :
    sent trees = fieldsValues fields := by
  match fields with
  | [] => cases h; rfl
  | (name, .condition condition) :: rest =>
    rw [fieldTrees] at h
    obtain ⟨column, -, h⟩ := Except.bind_eq_ok.mp h
    obtain ⟨others, hothers, h⟩ := Except.bind_eq_ok.mp h
    cases h
    rw [fieldsValues, ← condition.pieceParams_toTree, ← sent_fieldTrees entity rest hothers]
    rfl
  | (name, .relation nested) :: rest =>
    rw [fieldTrees] at h
    obtain ⟨relation, -, h⟩ := Except.bind_eq_ok.mp h
    obtain ⟨target, -, h⟩ := Except.bind_eq_ok.mp h
    obtain ⟨tree, htree, h⟩ := Except.bind_eq_ok.mp h
    obtain ⟨others, hothers, h⟩ := Except.bind_eq_ok.mp h
    cases h
    have hnested := pieceParams_relationTree
      (fun inner hinner => pieceParams_toTree target nested hinner) htree
    rw [fieldsValues, ← hnested, ← sent_fieldTrees entity rest hothers]
    rfl
termination_by structural fields
end

/-- Filters of one shape have conditions of one shape. -/
lemma mapValues_eq_of_shape_eq {entity : Entity} {filter other : Filter}
    (hshape : filter.shape = other.shape) {tree : ConditionTree}
    (h : toTree schema entity filter = .ok tree) :
    ∃ counterpart, toTree schema entity other = .ok counterpart ∧
      (tree.mapValues fun _ => .null) = counterpart.mapValues fun _ => .null := by
  have hmapped : (ConditionTree.mapValues fun _ => .null) <$> toTree schema entity other =
      .ok (tree.mapValues fun _ => .null) := by
    rw [← toTree_mapValues, ← shape, ← hshape, shape, toTree_mapValues, h]
    rfl
  cases hother : toTree schema entity other with
  | error error => simp [hother] at hmapped
  | ok counterpart => exact ⟨counterpart, rfl, by simpa [hother] using hmapped.symm⟩

/-- In a well-formed schema, a filter whose fields fit has a condition, and so has every filter of
its shape. Under either condition a statement has the same text, and the condition sends the values
of its filter in their order, between the values that the statement sends without it. -/
theorem statement_of_shape_eq (hs : schema.WellFormed) {name : String} {entity : Entity}
    (he : schema.entity name = .ok entity) {filter other : Filter}
    (hf : Everywhere schema Fits entity filter) (hshape : filter.shape = other.shape) :
    ∃ tree counterpart, toTree schema entity filter = .ok tree ∧
      toTree schema entity other = .ok counterpart ∧
      ∀ statement : Sql.Conditional,
        (statement.under (some tree)).statement.text =
          (statement.under (some counterpart)).statement.text ∧
        (statement.under (some tree)).statement.params =
          statement.paramsBefore ++ filter.values ++ statement.paramsAfter ∧
        (statement.under (some counterpart)).statement.params =
          statement.paramsBefore ++ other.values ++ statement.paramsAfter := by
  obtain ⟨tree, htree⟩ := exists_tree hs he filter hf
  obtain ⟨counterpart, hcounterpart, hsame⟩ := mapValues_eq_of_shape_eq hshape htree
  refine ⟨tree, counterpart, htree, hcounterpart, fun statement => ⟨?_, ?_, ?_⟩⟩
  · exact Query.text_eq_of_shape_eq (statement.shape_under_congr hsame)
  · rw [statement.params_under, pieceParams_toTree entity filter htree]
  · rw [statement.params_under, pieceParams_toTree entity other hcounterpart]

/-- Posts that are not of an author, by key, and that have one of two titles or a later key. -/
def postFilter (key : Value) (titles : List Value) (bound : Value) : Filter where
  and := []
  or := [onColumn "title" (.oneOf titles), onColumn "id" (.compare .greater bound)]
  not := some (onRelation "author" (onColumn "id" (.compare .equal key)))
  fields := [("author", .relation (onColumn "name" (.isNull false)))]

/-- Values of other kinds, and SQL among them, leave the text as it is. -/
theorem statement_of_shape_eq_posts :
    let post := Entity.ofSteps "Post" postSteps
    let filter := postFilter (.int 1) [.string "a", .string "b"] (.int 2)
    let other := postFilter (.string "1; DROP TABLE post") [.null, .null] (.int 7)
    filter.shape = other.shape ∧
    ∃ tree counterpart, toTree blog post filter = .ok tree ∧
      toTree blog post other = .ok counterpart ∧
      ∀ statement : Sql.Conditional,
        (statement.under (some tree)).statement.text =
          (statement.under (some counterpart)).statement.text ∧
        (statement.under (some tree)).statement.params =
          statement.paramsBefore ++ filter.values ++ statement.paramsAfter ∧
        (statement.under (some counterpart)).statement.params =
          statement.paramsBefore ++ other.values ++ statement.paramsAfter := by
  have hpost : blog.entity "Post" = .ok (.ofSteps "Post" postSteps) := by decide +kernel
  have hname : (Entity.ofSteps "Author" authorSteps).columnName "name" = .ok "name" := by
    decide +kernel
  have hkey : (Entity.ofSteps "Author" authorSteps).columnName "id" = .ok "id" := by decide +kernel
  have htitle : (Entity.ofSteps "Post" postSteps).columnName "title" = .ok "title" := by
    decide +kernel
  have hid : (Entity.ofSteps "Post" postSteps).columnName "id" = .ok "id" := by decide +kernel
  have hauthor : (Entity.ofSteps "Post" postSteps).relation "author" =
      .ok ⟨"author", "Author", .manyHasOne ⟨"author_id", .cascade⟩ true (some "posts")⟩ := by
    decide +kernel
  have htarget : blog.targetEntity
      ⟨"author", "Author", .manyHasOne ⟨"author_id", .cascade⟩ true (some "posts")⟩ =
        .ok (.ofSteps "Author" authorSteps) := by decide +kernel
  have hfields := FieldsFit.relation hauthor htarget
    (FieldsFit.nil.condition hname (.isNull false)).everywhere FieldsFit.nil
  have hblog := Schema.wellFormed_of_build build_blog
  refine ⟨rfl, statement_of_shape_eq hblog hpost ⟨hfields.fits.of_ofFields, trivial,
    ⟨(FieldsFit.nil.condition htitle _).everywhere, (FieldsFit.nil.condition hid _).everywhere,
      trivial⟩,
    (FieldsFit.relation hauthor htarget (FieldsFit.nil.condition hkey _).everywhere
      FieldsFit.nil).everywhere, hfields.inner⟩ rfl⟩

end Filter

end EntityGraph
