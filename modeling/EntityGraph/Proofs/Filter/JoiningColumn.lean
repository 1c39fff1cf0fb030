import EntityGraph.Proofs.Filter.Negation
/-!
# Conditions on the key of a target

A filter on nothing but the key of a has-one relation's target is put on the joining column, and
spares the selection from the target. On a joining column that points at a row this selects the
same rows. One that is `NULL` points at no row and is in no selection, and yet a condition may hold
of it: `IS NULL` does, and so does what restricts nothing.
-/
namespace EntityGraph.Filter

open Sql (ConditionTree Scope)

variable {schema : Schema} {store : Store} {entity target : Entity} {name : String}
  {relation : Relation} {joining : JoiningColumn} {condition : Condition}

/-- The rows whose joining column is among the keys of the target that satisfy a condition. -/
def amongKeys (target : Entity) (joining : JoiningColumn) (condition : Condition) : ConditionTree :=
  .single (memberOf joining.columnName (selection target.tableName target.primaryColumn
    (condition.toTree (Sql.column target.primaryColumn))))

lemma onKeyOnly?_onColumn : onKeyOnly? target (onColumn target.primary condition) =
    some condition := if_pos rfl

section

variable (hr : entity.relation relation.name = .ok relation)
  (hj : relation.joiningColumn? = some joining) (ht : schema.targetEntity relation = .ok target)
include hr hj ht

/-- A restriction of the target's key is the condition on the joining column. -/
lemma toTree_onKey :
    toTree schema entity (onRelation relation.name (onColumn target.primary condition)) =
      .ok (condition.toTree (Sql.column joining.columnName)) := by
  rw [toTree_onRelation hr ht, relationTree_of_column (Entity.columnName_of_relation hr hj) hj,
    onKeyOnly?_onColumn]

/-- Being among the keys reads as the condition on a joining column that is not `NULL`. -/
lemma reads_amongKeys (hc : store.HasColumns schema) (hp : store.PointsAtRows schema)
    (he : schema.entity name = .ok entity) (condition : Condition) :
    Reads store entity.tableName True (amongKeys target joining condition) fun row =>
      ∃ value, row.find? joining.columnName = some value ∧ value.isNull = false ∧
        condition.truth value = .holds := by
  have hcolumn : ∀ row ∈ store.rows entity.tableName,
      ∃ value, row.find? joining.columnName = some value :=
    fun row hrow => hc.field he row hrow (Entity.columnName_of_relation hr hj)
  have hkeys : Reads store target.tableName True
      (condition.toTree (Sql.column target.primaryColumn)) _ :=
    reads_column (hc.primary ht) condition
  intro outer row hrow
  obtain ⟨hsome, hread⟩ := hkeys.memberOf hcolumn (hc.primary ht) outer row hrow
  refine ⟨hsome, fun _ => (hread trivial).trans ⟨?_, ?_⟩⟩
  · rintro ⟨other, ho, ⟨value, key, hv, hkey, hequal⟩, found, hfound, hholds⟩
    cases hkey.symm.trans hfound
    refine ⟨value, hv, (Comparison.equal_test_eq_holds.mp hequal).1, ?_⟩
    rw [Condition.truth_congr hequal]
    exact hholds
  · rintro ⟨value, hv, hnull, hholds⟩
    obtain ⟨other, ho, found, key, hfound, hkey, hequal⟩ :=
      hp he hr hj ht row hrow value hv hnull
    cases hv.symm.trans hfound
    refine ⟨other, ho, ⟨value, key, hv, hkey, hequal⟩, key, hkey, ?_⟩
    rw [← Condition.truth_congr hequal]
    exact hholds

/-- The condition that is put on the joining column holds of the rows whose joining column is among
the keys that satisfy it, and if it holds of `NULL`, of the rows without a target as well. -/
theorem onKey_holds_iff (hc : store.HasColumns schema) (hp : store.PointsAtRows schema)
    (he : schema.entity name = .ok entity) (condition : Condition) :
    ∃ tree,
      toTree schema entity (onRelation relation.name (onColumn target.primary condition)) =
        .ok tree ∧
      ∀ outer : Scope, ∀ row ∈ store.rows entity.tableName,
        let scope := (entity.tableName, row) :: outer
        let keys := amongKeys target joining condition
        (tree.truth? store scope).isSome ∧ (keys.truth? store scope).isSome ∧
          (tree.truth? store scope = some .holds ↔ keys.truth? store scope = some .holds ∨
            row.IsNull joining.columnName ∧ condition.truth .null = .holds) ∧
          (row.IsNull joining.columnName → keys.truth? store scope ≠ some .holds) := by
  refine ⟨_, toTree_onKey hr hj ht, fun outer row hrow => ?_⟩
  obtain ⟨hsome, hread⟩ := reads_amongKeys hr hj ht hc hp he condition outer row hrow
  obtain ⟨value, hv⟩ := hc.field he row hrow (Entity.columnName_of_relation hr hj)
  have htree : (condition.toTree (Sql.column joining.columnName)).truth? store
      ((entity.tableName, row) :: outer) = some (condition.truth value) :=
    Condition.truth?_toTree hv condition
  have hkeys : (amongKeys target joining condition).truth? store
      ((entity.tableName, row) :: outer) = some .holds ↔
        value.isNull = false ∧ condition.truth value = .holds := by
    rw [hread trivial]
    simp [hv]
  refine ⟨by rw [htree]; rfl, hsome, ?_⟩
  rw [htree, Option.some_inj, hkeys, ne_eq, hkeys]
  by_cases hnull : row.IsNull joining.columnName
  · cases hv.symm.trans hnull.find?_eq
    simp [hnull, Value.isNull]
  · have hpresent : value.isNull = false := Bool.eq_false_iff.mpr (mt (Row.isNull_iff hv).mpr hnull)
    simp [hnull, hpresent]

end

/-- The author of a post. -/
def postAuthor : Relation :=
  ⟨"author", "Author", .manyHasOne ⟨"author_id", .cascade⟩ true (some "posts")⟩

lemma relation_postAuthor :
    (Entity.ofSteps "Post" postSteps).relation postAuthor.name = .ok postAuthor := rfl

lemma targetEntity_postAuthor :
    blog.targetEntity postAuthor = .ok (.ofSteps "Author" authorSteps) := rfl

/-- Posts by what holds of the key of their author: here, that it is 1. -/
theorem onKey_holds_iff_firstAuthor :
    let post := Entity.ofSteps "Post" postSteps
    let condition := Condition.compare .equal (.int 1)
    ∃ tree, toTree blog post (onRelation "author" (onColumn "id" condition)) = .ok tree ∧
      ∀ outer : Scope, ∀ row ∈ blogStore.rows "post",
        let scope := ("post", row) :: outer
        let keys :=
          amongKeys (Entity.ofSteps "Author" authorSteps) ⟨"author_id", .cascade⟩ condition
        (tree.truth? blogStore scope).isSome ∧ (keys.truth? blogStore scope).isSome ∧
          (tree.truth? blogStore scope = some .holds ↔ keys.truth? blogStore scope = some .holds ∨
            row.IsNull "author_id" ∧ condition.truth .null = .holds) ∧
          (row.IsNull "author_id" → keys.truth? blogStore scope ≠ some .holds) := by
  have hpost : blog.entity "Post" = .ok (.ofSteps "Post" postSteps) := rfl
  exact onKey_holds_iff relation_postAuthor rfl targetEntity_postAuthor hasColumns_blogStore
    pointsAtRows_blogStore hpost (.compare .equal (.int 1))

/-- The post without an author is found by its author's key being `NULL`, although no author has
such a key: in a database with all its keys, the condition on the joining column holds and the
selection from the target has no row. -/
theorem stray_post_found :
    let post := Entity.ofSteps "Post" postSteps
    let row : Row := [("id", .int 2), ("title", .string "c"), ("author_id", .null)]
    strayPost.HasColumns blog ∧ strayPost.KeysPresent blog ∧ strayPost.KeysUnique blog ∧
      strayPost.PointsAtRows blog ∧ post.relation "author" = .ok postAuthor ∧
      row ∈ strayPost.rows "post" ∧
      ∃ tree, toTree blog post (onRelation "author" (onColumn "id" (.isNull true))) = .ok tree ∧
        ¬ (tree.truth? strayPost [("post", row)] = some .holds ↔
          (amongKeys (Entity.ofSteps "Author" authorSteps) ⟨"author_id", .cascade⟩
            (.isNull true)).truth? strayPost [("post", row)] = some .holds) := by
  intro post row
  have hkey : (Entity.ofSteps "Author" authorSteps).primary = "id" := rfl
  have htree : toTree blog post (onRelation "author" (onColumn "id" (.isNull true))) =
      .ok ((Condition.isNull true).toTree (Sql.column "author_id")) := by
    rw [← hkey]
    exact toTree_onKey relation_postAuthor rfl targetEntity_postAuthor
  exact ⟨hasColumns_strayPost, keysPresent_strayPost, by decide, pointsAtRows_strayPost,
    relation_postAuthor, by simp [row, strayPost], _, htree, by decide⟩

end EntityGraph.Filter
