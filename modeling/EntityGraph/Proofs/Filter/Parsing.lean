import EntityGraph.Proofs.Filter.Shape
import EntityGraph.Proofs.Sql.Parsing
/-!
# Conditions of filters read back

The condition of a filter is put together from comparisons of columns and memberships in selections,
so its text has one parse, and that parse has its truth.
-/
namespace EntityGraph

open Sql (Assignment Basic Binds ConditionTree Disjunction Expr pieceChars pieceParams tokenize)

namespace Condition

mutual
lemma basic_toTree (name : String) (condition : Condition) :
    Basic (condition.toTree (Sql.column name)) := by
  cases condition with
  | and operands =>
    obtain ⟨trees, hexprs, hbasic⟩ := exists_basic_allToExprs name operands
    rw [toTree, hexprs]
    exact .and hbasic
  | or operands =>
    obtain ⟨trees, hexprs, hbasic⟩ := exists_basic_allToExprs name operands
    rw [toTree, hexprs]
    exact .or hbasic
  | not operand => exact .negation (basic_toTree name operand)
  | compare comparison value => exact .single (.compare name comparison value)
  | oneOf values => exact .single (.isIn name values)
  | noneOf values => exact .not (.isIn name values)
  | isNull flag | null flag =>
    cases flag with
    | true => exact .single (.isNull name)
    | false => exact .not (.isNull name)
  | never => exact .never
  | always => exact .always
termination_by structural condition

lemma exists_basic_allToExprs (name : String) (operands : List Condition) :
    ∃ trees : List ConditionTree, allToExprs (Sql.column name) operands = trees.map .condition ∧
      ∀ tree ∈ trees, Basic tree := by
  cases operands with
  | nil => exact ⟨[], rfl, by simp⟩
  | cons operand rest =>
    obtain ⟨trees, hexprs, hbasic⟩ := exists_basic_allToExprs name rest
    refine ⟨operand.toTree (Sql.column name) :: trees, by rw [allToExprs, hexprs]; rfl, ?_⟩
    exact List.forall_mem_cons.mpr ⟨basic_toTree name operand, hbasic⟩
termination_by structural operands
end

end Condition

namespace Filter

variable {schema : Schema}

lemma basic_memberOf (column tableName selected : String) {tree : ConditionTree} (h : Basic tree) :
    Basic (.single (memberOf column (selection tableName selected tree))) :=
  .member column tableName selected h

lemma basic_together {trees : List ConditionTree} (h : ∀ tree ∈ trees, Basic tree) :
    Basic (together trees) := by
  match trees with
  | [] => exact .always
  | [tree] => exact h tree List.mem_cons_self
  | _ :: _ :: _ => exact .and h

lemma basic_relationTree {entity target : Entity} {relation : Relation} {nested : Filter}
    {translated : Except SchemaError ConditionTree}
    (hnested : ∀ inner, translated = .ok inner → Basic inner) {tree : ConditionTree}
    (h : relationTree schema entity target relation nested translated = .ok tree) :
    Basic tree := by
  unfold relationTree at h
  generalize relation.kind = kind at h
  cases kind with
  | manyHasOne | oneHasOneOwning =>
    obtain ⟨joining, -, h⟩ := Except.bind_eq_ok.mp h
    split at h
    · cases h
      exact Condition.basic_toTree joining _
    · obtain ⟨inner, hinner, h⟩ := Except.bind_eq_ok.mp h
      cases h
      exact basic_memberOf _ _ _ (hnested inner hinner)
  | oneHasMany | oneHasOneInverse =>
    obtain ⟨owning, -, h⟩ := Except.bind_eq_ok.mp h
    obtain ⟨joining, -, h⟩ := Except.bind_eq_ok.mp h
    obtain ⟨inner, hinner, h⟩ := Except.bind_eq_ok.mp h
    cases h
    exact basic_memberOf _ _ _ (hnested inner hinner)
  | manyHasManyOwning | manyHasManyInverse =>
    obtain ⟨⟨tableName, thisColumn, otherColumn⟩, -, h⟩ := Except.bind_eq_ok.mp h
    obtain ⟨inner, hinner, h⟩ := Except.bind_eq_ok.mp h
    cases h
    exact basic_memberOf _ _ _ (basic_memberOf _ _ _ (hnested inner hinner))

/-- Several operands, joined where there are any. -/
lemma basic_operandsTree {entity : Entity} {joined : List Expr → ConditionTree}
    (hjoined : ∀ {trees : List ConditionTree}, (∀ tree ∈ trees, Basic tree) →
      Basic (joined (trees.map .condition)))
    {operands : List Filter}
    (hoperands : ∀ exprs, operandTrees schema entity operands = .ok exprs →
      ∃ trees : List ConditionTree, exprs = trees.map .condition ∧ ∀ tree ∈ trees, Basic tree)
    {trees : List ConditionTree} (h : operandsTree schema entity joined operands = .ok trees) :
    ∀ tree ∈ trees, Basic tree := by
  cases operands with
  | nil => cases h; simp
  | cons first rest =>
    rw [operandsTree_cons] at h
    obtain ⟨exprs, hexprs, h⟩ := Except.bind_eq_ok.mp h
    cases h
    obtain ⟨trees, rfl, hbasic⟩ := hoperands exprs hexprs
    exact List.forall_mem_singleton.mpr (hjoined hbasic)

mutual
/-- The condition of a filter has no other expressions than comparisons and memberships. -/
theorem basic_toTree (entity : Entity) (filter : Filter) {tree : ConditionTree}
    (h : toTree schema entity filter = .ok tree) : Basic tree := by
  obtain ⟨and, or, not, fields⟩ := filter
  rw [toTree_eq] at h
  obtain ⟨all, hall, h⟩ := Except.bind_eq_ok.mp h
  obtain ⟨any, hany, h⟩ := Except.bind_eq_ok.mp h
  obtain ⟨none, hnone, h⟩ := Except.bind_eq_ok.mp h
  obtain ⟨each, heach, h⟩ := Except.bind_eq_ok.mp h
  cases h
  have hand := basic_operandsTree .and (fun _ => exists_basic_operandTrees entity and) hall
  have hor := basic_operandsTree .or (fun _ => exists_basic_operandTrees entity or) hany
  have hnot := basic_negationTree entity not hnone
  have hfields := basic_fieldTrees entity fields heach
  refine basic_together ?_
  simp only [List.forall_mem_append]
  exact ⟨⟨⟨hand, hor⟩, hnot⟩, hfields⟩
termination_by structural filter

lemma exists_basic_operandTrees (entity : Entity) (operands : List Filter) {exprs : List Expr}
    (h : operandTrees schema entity operands = .ok exprs) :
    ∃ trees : List ConditionTree, exprs = trees.map .condition ∧ ∀ tree ∈ trees, Basic tree := by
  cases operands with
  | nil => cases h; exact ⟨[], rfl, by simp⟩
  | cons operand rest =>
    rw [operandTrees] at h
    obtain ⟨tree, htree, h⟩ := Except.bind_eq_ok.mp h
    obtain ⟨others, hothers, h⟩ := Except.bind_eq_ok.mp h
    cases h
    obtain ⟨trees, rfl, hbasic⟩ := exists_basic_operandTrees entity rest hothers
    exact ⟨tree :: trees, rfl,
      List.forall_mem_cons.mpr ⟨basic_toTree entity operand htree, hbasic⟩⟩
termination_by structural operands

lemma basic_negationTree (entity : Entity) (not : Option Filter) {trees : List ConditionTree}
    (h : negationTree schema entity not = .ok trees) : ∀ tree ∈ trees, Basic tree := by
  cases not with
  | none => cases h; simp
  | some operand =>
    rw [negationTree] at h
    obtain ⟨tree, htree, h⟩ := Except.bind_eq_ok.mp h
    cases h
    exact List.forall_mem_singleton.mpr (.negation (basic_toTree entity operand htree))
termination_by structural not

lemma basic_fieldTrees (entity : Entity) (fields : List (String × FieldFilter))
    {trees : List ConditionTree} (h : fieldTrees schema entity fields = .ok trees) :
    ∀ tree ∈ trees, Basic tree := by
  match fields with
  | [] => cases h; simp
  | (name, .condition condition) :: rest =>
    rw [fieldTrees] at h
    obtain ⟨column, -, h⟩ := Except.bind_eq_ok.mp h
    obtain ⟨others, hothers, h⟩ := Except.bind_eq_ok.mp h
    cases h
    exact List.forall_mem_cons.mpr
      ⟨condition.basic_toTree column, basic_fieldTrees entity rest hothers⟩
  | (name, .relation nested) :: rest =>
    rw [fieldTrees] at h
    obtain ⟨relation, -, h⟩ := Except.bind_eq_ok.mp h
    obtain ⟨target, -, h⟩ := Except.bind_eq_ok.mp h
    obtain ⟨tree, htree, h⟩ := Except.bind_eq_ok.mp h
    obtain ⟨others, hothers, h⟩ := Except.bind_eq_ok.mp h
    cases h
    have hnested := basic_relationTree
      (fun inner hinner => basic_toTree target nested hinner) htree
    exact List.forall_mem_cons.mpr ⟨hnested, basic_fieldTrees entity rest hothers⟩
termination_by structural fields
end

/-- The text of a filter, read by the grammar on the rows of a database, holds of the rows that
satisfy the filter. -/
theorem parsed_holds_iff {store : Store} (hs : schema.WellFormed) (hc : store.HasColumns schema)
    (hp : store.PointsAtRows schema) {name : String} {entity : Entity}
    (he : schema.entity name = .ok entity) {filter : Filter}
    (hf : Everywhere schema (Readable schema) entity filter) {tree : ConditionTree}
    (h : toTree schema entity filter = .ok tree) {count : Nat} {parsed : Disjunction}
    (hparsed : parsed.tokens = tokenize (pieceChars count tree.pieces)) {bound : Nat → Value}
    (hbound : Binds bound count (pieceParams tree.pieces)) {row : Row}
    (hrow : row ∈ store.rows entity.tableName) :
    parsed.truth (.ofStore store) bound [(entity.tableName, row)] = .holds ↔
      Holds schema store entity row filter := by
  have hbasic := basic_toTree entity filter h
  obtain ⟨only, honly, htruth⟩ := hbasic.exists_parsed count
  cases (honly parsed).mp hparsed
  obtain ⟨hsome, hread⟩ := reads_toTree hc he filter h [] row hrow
  obtain ⟨truth, hvalue⟩ := Option.isSome_iff_exists.mp hsome
  have hholds : truth = .holds ↔ Holds schema store entity row filter := by
    rw [← Option.some_inj, ← hvalue]
    exact hread ⟨⟨hs, hp⟩, hf⟩
  rw [htruth bound hbound, hbasic.truth_eq hvalue, hholds]

/-- In a well-formed schema, a filter whose fields fit has a condition. Behind any number of
parameters, the tokens of the condition have one derivation in the grammar of conditions. Whatever
the truth of the comparisons is, the derivation has the truth of the condition, selections inside
included, where its placeholders stand for the values that the condition sends. -/
theorem toTree_reads_back (hs : schema.WellFormed) {name : String} {entity : Entity}
    (he : schema.entity name = .ok entity) {filter : Filter}
    (hf : Everywhere schema Fits entity filter) :
    ∃ tree, toTree schema entity filter = .ok tree ∧ ∀ count, ∃ parsed : Disjunction,
      (∀ other : Disjunction,
        other.tokens = tokenize (pieceChars count tree.pieces) ↔ other = parsed) ∧
      ∀ bound, Binds bound count (pieceParams tree.pieces) →
        ∀ {Place : Type} (assignment : Assignment Place) (place : Place),
          parsed.truth assignment bound place = tree.truth assignment place := by
  obtain ⟨tree, htree⟩ := exists_tree hs he filter hf
  exact ⟨tree, htree, (basic_toTree entity filter htree).exists_parsed⟩

/-- Authors without a name or with a later key who have no post but with one of two titles. -/
def nameless (bound : Value) (titles : List Value) : Filter where
  and := []
  or := [onColumn "name" (.null true), onColumn "id" (.compare .greater bound)]
  not := some (onRelation "posts" (onColumn "title" (.noneOf titles)))
  fields := []

/-- A disjunction, a negation and a selection whose own condition is negated. -/
theorem toTree_reads_back_nameless :
    let author := Entity.ofSteps "Author" authorSteps
    let filter := nameless (.int 2) [.string "a", .string "b"]
    ∃ tree, toTree blog author filter = .ok tree ∧ ∀ count, ∃ parsed : Disjunction,
      (∀ other : Disjunction,
        other.tokens = tokenize (pieceChars count tree.pieces) ↔ other = parsed) ∧
      ∀ bound, Binds bound count (pieceParams tree.pieces) →
        ∀ {Place : Type} (assignment : Assignment Place) (place : Place),
          parsed.truth assignment bound place = tree.truth assignment place := by
  have hauthor : blog.entity "Author" = .ok (.ofSteps "Author" authorSteps) := by decide +kernel
  have hname : (Entity.ofSteps "Author" authorSteps).columnName "name" = .ok "name" := by
    decide +kernel
  have hkey : (Entity.ofSteps "Author" authorSteps).columnName "id" = .ok "id" := by decide +kernel
  have htitle : (Entity.ofSteps "Post" postSteps).columnName "title" = .ok "title" := by
    decide +kernel
  have hposts : (Entity.ofSteps "Author" authorSteps).relation "posts" =
      .ok ⟨"posts", "Post", .oneHasMany "author"⟩ := by
    decide +kernel
  have htarget : blog.targetEntity ⟨"posts", "Post", .oneHasMany "author"⟩ =
      .ok (.ofSteps "Post" postSteps) := by decide +kernel
  have hnot := FieldsFit.relation hposts htarget
    (FieldsFit.nil.condition htitle (.noneOf [.string "a", .string "b"])).everywhere FieldsFit.nil
  have hnone : FieldsFit blog (.ofSteps "Author" authorSteps) [] := .nil
  have hblog := Schema.wellFormed_of_build build_blog
  exact toTree_reads_back hblog hauthor ⟨hnone.fits.of_ofFields, trivial,
    ⟨(FieldsFit.nil.condition hname _).everywhere, (FieldsFit.nil.condition hkey _).everywhere,
      trivial⟩, hnot.everywhere, trivial⟩

end Filter

end EntityGraph
