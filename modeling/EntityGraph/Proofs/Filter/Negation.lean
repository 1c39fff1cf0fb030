import EntityGraph.Proofs.Filter.Meaning
/-!
Negated restrictions of relations. A membership in a selection fails only where every selected
value differs, and no value differs from `NULL`. So a negated restriction selects the rows without
a linked row that satisfies the restriction, except where a joining column that is `NULL` leaves it
unknown.
-/
namespace EntityGraph.Filter

open Sql (ConditionTree Expr Scope)

/-- Whether the conditions that a filter puts on columns are never unknown. -/
def TwoValued (store : Store) (entity : Entity) (filter : Filter) : Prop :=
  ∀ name condition column, (name, .condition condition) ∈ filter.fields →
    entity.columnName name = .ok column → ∀ row ∈ store.rows entity.tableName, ∀ value,
    row.find? column = some value → condition.truth value ≠ .unknown

/-- Whether a joining column that is `NULL` keeps a restriction of a relation from failing on a row.
It may be the column of the row itself, or that of a row which is not linked to any. -/
inductive Obscured (schema : Schema) (store : Store) (target : Entity) (relation : Relation)
    (nested : Filter) (row : Row) : Prop where
  | key {joining : JoiningColumn} {condition : Condition}
      (hj : relation.joiningColumn? = some joining)
      (hkey : onKeyOnly? target nested = some condition) (hnull : row.IsNull joining.columnName)
      (hcondition : condition.truth .null ≠ .fails)
  | joining {joining : JoiningColumn} {other : Row} (hj : relation.joiningColumn? = some joining)
      (hkey : onKeyOnly? target nested = none) (hnull : row.IsNull joining.columnName)
      (ho : other ∈ store.rows target.tableName) (hholds : Holds schema store target other nested)
  | inverse {owning : Relation} {joining : JoiningColumn} {other : Row}
      (hk : relation.kind.isOwning = false)
      (hpaired : schema.targetRelation relation = .ok (some owning))
      (hj : owning.joiningColumn? = some joining) (ho : other ∈ store.rows target.tableName)
      (hnull : other.IsNull joining.columnName) (hholds : Holds schema store target other nested)

/-- Whether no row that is linked through a relation satisfies a filter. -/
def NoneLinked (schema : Schema) (store : Store) (entity target : Entity) (relation : Relation)
    (nested : Filter) (row : Row) : Prop :=
  ∀ other ∈ store.rows target.tableName, relation.Linked schema store entity target row other →
    ¬ Holds schema store target other nested

/-- Whether a tree fails, of the rows of a table, on those that satisfy `P`. -/
def Rejects (store : Store) (tableName : String) (tree : ConditionTree) (P : Row → Prop) : Prop :=
  ∀ outer : Scope, ∀ row ∈ store.rows tableName,
    tree.truth? store ((tableName, row) :: outer) = some .fails ↔ P row

variable {schema : Schema} {store : Store} {entity target : Entity} {name field : String}
  {relation : Relation} {nested : Filter} {translated : Except SchemaError ConditionTree}
  {tree : ConditionTree}

/-- Membership in a selection is rejected where every row that is read differs. -/
lemma rejects_memberOf {assumption : Prop} {tableName source column linked : String}
    {P : Row → Prop} (h : Reads store source assumption tree P) (ha : assumption)
    (hcolumn : ∀ row ∈ store.rows tableName, ∃ value, row.find? column = some value)
    (hlinked : ∀ row ∈ store.rows source, ∃ value, row.find? linked = some value) :
    Rejects store tableName (.single (memberOf column (selection source linked tree))) fun row =>
      ∀ other ∈ store.rows source, P other → row.Differ column other linked := by
  intro outer row hrow
  rw [Sql.truth?_single, truth?_memberOf_eq_fails (hcolumn row hrow) hlinked
    fun other ho => (h ((tableName, row) :: outer) other ho).1]
  refine forall₂_congr fun other ho => ?_
  rw [(h ((tableName, row) :: outer) other ho).2 ha]

lemma not_obscured_of_junction (hs : schema.WellFormed) (he : schema.entity name = .ok entity)
    (hr : entity.relation field = .ok relation) (ht : schema.targetEntity relation = .ok target)
    (hk : relation.kind = .manyHasManyOwning ∨ relation.kind = .manyHasManyInverse) {row : Row} :
    ¬ Obscured schema store target relation nested row := by
  have hjoining : relation.joiningColumn? = none := by
    rw [← Option.not_isSome_iff_eq_none, Relation.joiningColumn?_isSome]
    rcases hk with hk | hk <;> rw [hk] <;> decide
  intro hobscured
  cases hobscured with
  | key hj => cases hjoining.symm.trans hj
  | joining hj => cases hjoining.symm.trans hj
  | inverse hinverse hpaired hj =>
    obtain ⟨paired, -, hfound, hkind⟩ := owning_of_inverse hs he hr ht hinverse
    cases hpaired.symm.trans hfound
    have hhas := Relation.joiningColumn?_isSome _ ▸ Option.isSome_of_eq_some hj
    rw [hkind] at hhas
    rcases hk with hk | hk <;> rw [hk] at hhas <;> contradiction

/-- An entry of a junction names the row on either side. -/
lemma not_isNull_of_junctionOf (hn : store.KeysPresent schema)
    (he : schema.entity name = .ok entity) (hr : entity.relation field = .ok relation)
    {tableName thisColumn otherColumn : String}
    (h : junctionOf schema entity relation = .ok (tableName, thisColumn, otherColumn)) :
    ∀ entry ∈ store.rows tableName, ¬ entry.IsNull thisColumn := by
  obtain ⟨_, _, _, _, _, hd, ho, hj, rfl, ⟨rfl, -⟩ | ⟨rfl, -⟩⟩ := declared_of_junctionOf he hr h
  · exact fun entry hentry => (hn.junction hd ho hj entry hentry).1
  · exact fun entry hentry => (hn.junction hd ho hj entry hentry).2

section Kinds

variable (hs : schema.WellFormed) (hc : store.HasColumns schema) (hn : store.KeysPresent schema)
  (he : schema.entity name = .ok entity) (hr : entity.relation field = .ok relation)
  (ht : schema.targetEntity relation = .ok target)
  (h : relationTree schema entity target relation nested translated = .ok tree)
include hs hc hn he hr ht h

/-- A restriction of an owning has-one relation through the rows of the target. -/
lemma rejects_joining {joining : JoiningColumn} (hj : relation.joiningColumn? = some joining)
    (hkey : onKeyOnly? target nested = none)
    (htree : ∀ inner, translated = .ok inner → Reads store target.tableName True inner fun row =>
      Holds schema store target row nested) :
    Rejects store entity.tableName tree fun row =>
      NoneLinked schema store entity target relation nested row ∧
        ¬ Obscured schema store target relation nested row := by
  rw [relationTree_of_joining (hs.wellFormed he) hr hj, hkey] at h
  obtain ⟨inner, hinner, heq⟩ := Except.bind_eq_ok.mp h
  cases heq
  have hcolumn : ∀ row ∈ store.rows entity.tableName,
      ∃ value, row.find? joining.columnName = some value :=
    fun row hrow => hc.field he row hrow (Entity.columnName_of_relation hr hj)
  intro outer row hrow
  rw [rejects_memberOf (htree inner hinner) trivial hcolumn (hc.primary ht) outer row hrow]
  have hdiffer : ∀ other ∈ store.rows target.tableName,
      (row.Differ joining.columnName other target.primaryColumn ↔
        ¬ row.IsNull joining.columnName ∧
          ¬ relation.Linked schema store entity target row other) := fun other ho => by
    rw [Row.differ_iff (hcolumn row hrow) (hc.primary ht other ho),
      Relation.linked_iff_of_joining hj]
    exact and_congr_right fun _ => and_iff_right (hn.primary ht other ho)
  constructor
  · refine fun hall => ⟨fun other ho hlinked hholds => ?_, fun hobscured => ?_⟩
    · exact ((hdiffer other ho).mp (hall other ho hholds)).2 hlinked
    · cases hobscured with
      | key _ hsome => cases hkey.symm.trans hsome
      | joining hjoining _ hnull ho hholds =>
        cases hj.symm.trans hjoining
        exact ((hdiffer _ ho).mp (hall _ ho hholds)).1 hnull
      | inverse hinverse => exact absurd (Relation.isOwning_of_joining hj) (by simp [hinverse])
  · rintro ⟨hunlinked, hclear⟩ other ho hholds
    exact (hdiffer other ho).mpr ⟨fun hnull => hclear (.joining hj hkey hnull ho hholds),
      fun hlinked => hunlinked other ho hlinked hholds⟩

omit hn in
/-- A restriction of the key that an owning has-one relation points at, put on its joining
column. -/
lemma rejects_key (hp : store.PointsAtRows schema) {joining : JoiningColumn}
    (hj : relation.joiningColumn? = some joining) {condition : Condition}
    (hkey : onKeyOnly? target nested = some condition) (hw : nested.WellTyped target)
    (htwo : nested.TwoValued store target) :
    Rejects store entity.tableName tree fun row =>
      NoneLinked schema store entity target relation nested row ∧
        ¬ Obscured schema store target relation nested row := by
  rw [relationTree_of_joining (hs.wellFormed he) hr hj, hkey] at h
  cases h
  have hnested := onKeyOnly?_eq_some hkey
  intro outer row hrow
  obtain ⟨value, hv⟩ := hc.field he row hrow (Entity.columnName_of_relation hr hj)
  rw [Condition.truth?_toTree hv, Option.some_inj]
  have hholds : ∀ other ∈ store.rows target.tableName,
      relation.Linked schema store entity target row other →
        (Holds schema store target other nested ↔ condition.truth value = .holds) ∧
          condition.truth value ≠ .unknown := by
    intro other ho hlinked
    obtain ⟨a, b, ha, hb, hab⟩ := (Relation.linked_iff_of_joining hj).mp hlinked
    cases hv.symm.trans ha
    subst hnested
    obtain ⟨column, hcolumn, hprimary⟩ := hw.condition List.mem_cons_self
    cases hprimary rfl
    rw [holds_onKey_iff hw hb, Condition.truth_congr hab]
    exact ⟨.rfl, htwo _ _ _ List.mem_cons_self hcolumn other ho b hb⟩
  constructor
  · refine fun hfails => ⟨fun other ho hlinked hh => ?_, fun hobscured => ?_⟩
    · cases hfails.symm.trans ((hholds other ho hlinked).1.mp hh)
    · cases hobscured with
      | key hjoining hcondition hnull hneq =>
        cases hj.symm.trans hjoining
        cases hkey.symm.trans hcondition
        cases hv.symm.trans hnull.find?_eq
        exact hneq hfails
      | joining _ hnone => cases hkey.symm.trans hnone
      | inverse hinverse => exact absurd (Relation.isOwning_of_joining hj) (by simp [hinverse])
  · rintro ⟨hunlinked, hclear⟩
    by_cases hnull : value.isNull = true
    · have hisNull := (Row.isNull_iff hv).mpr hnull
      by_contra hfails
      cases hv.symm.trans hisNull.find?_eq
      exact hclear (.key hj hkey hisNull hfails)
    · obtain ⟨other, ho, hagree⟩ :=
        hp he hr hj ht row hrow value hv (Bool.eq_false_iff.mpr hnull)
      have hlinked : relation.Linked schema store entity target row other :=
        (Relation.linked_iff_of_joining hj).mpr hagree
      obtain ⟨hiff, hknown⟩ := hholds other ho hlinked
      have hfalse := mt hiff.mpr (hunlinked other ho hlinked)
      cases htruth : condition.truth value with
      | holds => exact absurd htruth hfalse
      | fails => rfl
      | unknown => exact absurd htruth hknown

/-- A restriction of the inverse of a has-one relation. -/
lemma rejects_inverse (hk : relation.kind = .oneHasMany ∨ relation.kind = .oneHasOneInverse)
    (htree : ∀ inner, translated = .ok inner → Reads store target.tableName True inner fun row =>
      Holds schema store target row nested) :
    Rejects store entity.tableName tree fun row =>
      NoneLinked schema store entity target relation nested row ∧
        ¬ Obscured schema store target relation nested row := by
  have hinverse : relation.kind.isOwning = false := by rcases hk with hk | hk <;> rw [hk] <;> rfl
  have hnone : relation.joiningColumn? = none := by
    rw [← Option.not_isSome_iff_eq_none, Relation.joiningColumn?_isSome]
    rcases hk with hk | hk <;> rw [hk] <;> decide
  obtain ⟨owning, joining, howning, htarget, hj, hkind⟩ := joining_of_inverse hs he hr ht hk
  rw [relationTree_of_inverse howning htarget hj hkind] at h
  obtain ⟨inner, hinner, heq⟩ := Except.bind_eq_ok.mp h
  cases heq
  have hcolumn : ∀ other ∈ store.rows target.tableName,
      ∃ value, other.find? joining.columnName = some value :=
    fun other ho => hc.field ht other ho (Entity.columnName_of_relation howning hj)
  intro outer row hrow
  rw [rejects_memberOf (htree inner hinner) trivial (hc.primary he) hcolumn outer row hrow]
  have hdiffer : ∀ other ∈ store.rows target.tableName,
      (row.Differ entity.primaryColumn other joining.columnName ↔
        ¬ other.IsNull joining.columnName ∧
          ¬ relation.Linked schema store entity target row other) := fun other ho => by
    rw [Row.differ_iff (hc.primary he row hrow) (hcolumn other ho),
      Relation.linked_iff_of_inverse hinverse htarget (Relation.isOwning_of_joining hj),
      Relation.linked_iff_of_joining hj, @Row.agree_comm other]
    exact and_iff_right (hn.primary he row hrow)
  constructor
  · refine fun hall => ⟨fun other ho hlinked hholds => ?_, fun hobscured => ?_⟩
    · exact ((hdiffer other ho).mp (hall other ho hholds)).2 hlinked
    · cases hobscured with
      | key hjoining => cases hnone.symm.trans hjoining
      | joining hjoining => cases hnone.symm.trans hjoining
      | inverse _ hpaired hjoining ho hnull hholds =>
        cases htarget.symm.trans hpaired
        cases hj.symm.trans hjoining
        exact ((hdiffer _ ho).mp (hall _ ho hholds)).1 hnull
  · rintro ⟨hunlinked, hclear⟩ other ho hholds
    exact (hdiffer other ho).mpr
      ⟨fun hnull => hclear (.inverse hinverse htarget hj ho hnull hholds),
        fun hlinked => hunlinked other ho hlinked hholds⟩

/-- A restriction of a many-to-many relation, whose junction always names both rows. -/
lemma rejects_junction
    (hk : relation.kind = .manyHasManyOwning ∨ relation.kind = .manyHasManyInverse)
    (htree : ∀ inner, translated = .ok inner → Reads store target.tableName True inner fun row =>
      Holds schema store target row nested) :
    Rejects store entity.tableName tree fun row =>
      NoneLinked schema store entity target relation nested row ∧
        ¬ Obscured schema store target relation nested row := by
  obtain ⟨tableName, thisColumn, otherColumn, hjunction, hlinked⟩ :=
    junctionOf_of_manyHasMany hs he hr ht hk
  have hcolumns := exists_columns_of_junctionOf hc he hr hjunction
  rw [relationTree_of_junction hk hjunction] at h
  obtain ⟨inner, hinner, heq⟩ := Except.bind_eq_ok.mp h
  cases heq
  have hentries : Reads store tableName True (.single (memberOf otherColumn
      (selection target.tableName target.primaryColumn inner))) _ :=
    (htree inner hinner).memberOf (fun entry hentry => (hcolumns entry hentry).2) (hc.primary ht)
  intro outer row hrow
  rw [rejects_memberOf hentries trivial (hc.primary he)
    (fun entry hentry => (hcolumns entry hentry).1) outer row hrow]
  have hdiffer : ∀ entry ∈ store.rows tableName, (row.Differ entity.primaryColumn entry thisColumn ↔
      ¬ row.Agree entity.primaryColumn entry thisColumn) := fun entry hentry => by
    rw [Row.differ_iff (hc.primary he row hrow) (hcolumns entry hentry).1,
      and_iff_right (hn.primary he row hrow),
      and_iff_right (not_isNull_of_junctionOf hn he hr hjunction entry hentry)]
  constructor
  · refine fun hall => ⟨fun other ho hlink hholds => ?_, not_obscured_of_junction hs he hr ht hk⟩
    obtain ⟨entry, hentry, hthis, hother⟩ := (hlinked store row other).mp hlink
    exact (hdiffer entry hentry).mp (hall entry hentry ⟨other, ho, hother, hholds⟩) hthis
  · rintro ⟨hunlinked, -⟩ entry hentry ⟨other, ho, hother, hholds⟩
    exact (hdiffer entry hentry).mpr fun hthis =>
      hunlinked other ho ((hlinked store row other).mpr ⟨entry, hentry, hthis, hother⟩) hholds

/-- A restriction of a relation fails on the rows without a linked row that satisfies it, unless a
`NULL` obscures that. -/
theorem rejects_relationTree (hp : store.PointsAtRows schema) (hw : nested.WellTyped target)
    (htwo : nested.TwoValued store target)
    (htree : ∀ inner, translated = .ok inner → Reads store target.tableName True inner fun row =>
      Holds schema store target row nested) :
    Rejects store entity.tableName tree fun row =>
      NoneLinked schema store entity target relation nested row ∧
        ¬ Obscured schema store target relation nested row := by
  rcases kind_cases relation with ⟨joining, hj⟩ | hk | hk
  · cases hkey : onKeyOnly? target nested with
    | none => exact rejects_joining hs hc hn he hr ht h hj hkey htree
    | some condition => exact rejects_key hs hc he hr ht h hp hj hkey hw htwo
  · exact rejects_inverse hs hc hn he hr ht h hk htree
  · exact rejects_junction hs hc hn he hr ht h hk htree

end Kinds

lemma toTree_onRelation (hr : entity.relation field = .ok relation)
    (ht : schema.targetEntity relation = .ok target) :
    toTree schema entity (onRelation field nested) =
      relationTree schema entity target relation nested (toTree schema target nested) := by
  rw [onRelation, ofFields, empty, toTree_eq, fieldTrees, hr, fieldTrees]
  show (schema.targetEntity relation >>= _) >>= _ = _
  rw [ht]
  show (relationTree _ _ _ _ _ _ >>= _) >>= _ = _
  cases relationTree schema entity target relation nested (toTree schema target nested) <;> rfl

lemma toTree_negation {operand : Filter} (h : toTree schema entity operand = .ok tree) :
    toTree schema entity (negation operand) = .ok tree.negation := by
  rw [negation, empty, toTree_eq, negationTree, h]
  rfl

/-- In the database of a well-formed schema, the negation of a restricted relation selects the rows
without a linked row that satisfies the restriction, except for those on which a joining column
that is `NULL` obscures this. -/
theorem negation_holds_iff (hs : schema.WellFormed) (hc : store.HasColumns schema)
    (hn : store.KeysPresent schema) (hp : store.PointsAtRows schema)
    (he : schema.entity name = .ok entity) (hr : entity.relation field = .ok relation)
    (ht : schema.targetEntity relation = .ok target)
    (hf : Everywhere schema (Readable schema) target nested)
    (htwo : nested.TwoValued store target) :
    ∃ tree, toTree schema entity (negation (onRelation field nested)) = .ok tree ∧
      ∀ row ∈ store.rows entity.tableName,
        (tree.truth? store [(entity.tableName, row)] = some .holds ↔
          NoneLinked schema store entity target relation nested row ∧
            ¬ Obscured schema store target relation nested row) := by
  obtain ⟨inner, hinner⟩ := exists_toTree hs ht nested hf
  obtain ⟨tree, htree⟩ : ∃ tree, relationTree schema entity target relation nested
      (toTree schema target nested) = .ok tree := exists_relationTree hs he hr ht ⟨inner, hinner⟩
  have hreads : ∀ inner, toTree schema target nested = .ok inner →
      Reads store target.tableName True inner fun row => Holds schema store target row nested :=
    fun inner hinner => (reads_toTree hc ht nested hinner).mono fun _ => ⟨⟨hs, hp⟩, hf⟩
  have hrejects := rejects_relationTree hs hc hn he hr ht htree hp
    hf.root.wellTyped htwo hreads
  refine ⟨tree.negation, toTree_negation ((toTree_onRelation hr ht).trans htree),
    fun row hrow => ?_⟩
  refine Iff.trans ?_ (hrejects [] row hrow)
  rw [Sql.truth?_negation]
  cases tree.truth? store [(entity.tableName, row)] <;> simp [Truth.not_eq_holds]

/-- The posts of an author. -/
def posts : Relation := ⟨"posts", "Post", .oneHasMany "author"⟩

/-- An author with one post, and another post without an author. -/
def strayPost : Store where
  rows
    | "author" => [[("id", .int 1), ("name", .string "Ada")]]
    | "post" =>
      [[("id", .int 1), ("title", .string "a"), ("author_id", .int 1)],
       [("id", .int 2), ("title", .string "c"), ("author_id", .null)]]
    | _ => []

def titled (title : String) : Filter := onColumn "title" (.compare .equal (.string title))

lemma hasColumns_strayPost : strayPost.HasColumns blog :=
  Store.hasColumns_of_forall_mem (by decide) (by decide)

lemma keysPresent_strayPost : strayPost.KeysPresent blog :=
  Store.keysPresent_of_forall_mem (by decide) (by decide)

lemma pointsAtRows_strayPost : strayPost.PointsAtRows blog :=
  Store.pointsAtRows_of_forall_mem (by decide)

lemma columnName_title : (Entity.ofSteps "Post" postSteps).columnName "title" = .ok "title" := by
  decide

lemma readable_titled (title : String) :
    Everywhere blog (Readable blog) (Entity.ofSteps "Post" postSteps) (titled title) := by
  refine ⟨⟨⟨fun hm => ?_, fun hm => ?_⟩, rfl, ?_⟩, trivial, trivial, trivial, trivial⟩
  · cases List.mem_singleton.mp hm
    exact ⟨"title", columnName_title, by decide⟩
  · cases List.mem_singleton.mp hm
  · intro name nested relation target condition hm
    cases List.mem_singleton.mp hm

lemma twoValued_titled (title : String) :
    (titled title).TwoValued strayPost (Entity.ofSteps "Post" postSteps) := by
  intro name condition column hm hcolumn row hrow value hv
  cases List.mem_singleton.mp hm
  cases columnName_title.symm.trans hcolumn
  have hpresent : ∀ row ∈ strayPost.rows "post", ¬ row.IsNull "title" := by decide
  have hnull : value.isNull = false :=
    Bool.eq_false_iff.mpr (mt (Row.isNull_iff hv).mpr (hpresent row hrow))
  rw [Condition.truth, Comparison.test, hnull]
  cases Comparison.equal.accepts (Value.compare value (.string title)) <;> rintro ⟨⟩

/-- The author has no post with the title of the stray post. -/
lemma noneLinked_strayPost :
    NoneLinked blog strayPost (Entity.ofSteps "Author" authorSteps)
      (Entity.ofSteps "Post" postSteps) posts (titled "c")
      [("id", .int 1), ("name", .string "Ada")] := by
  have hauthor : blog.targetRelation posts =
      .ok (some ⟨"author", "Author", .manyHasOne ⟨"author_id", .cascade⟩ true (some "posts")⟩) := by
    decide
  have hrows : ∀ other ∈ strayPost.rows "post",
      other.Agree "author_id" [("id", .int 1), ("name", .string "Ada")] "id" →
        (other.find? "title").all fun value =>
          (Condition.compare .equal (.string "c")).truth value ≠ .holds := by
    decide
  intro other ho hlinked hholds
  rw [Relation.linked_iff_of_inverse rfl hauthor rfl, Relation.linked_iff_of_joining rfl] at hlinked
  obtain ⟨-, -, -, ⟨column, value, hcolumn, hv, htrue⟩, -⟩ := hholds
  cases columnName_title.symm.trans hcolumn
  have hdiffers := hrows other ho hlinked
  rw [hv, Option.all_some, decide_eq_true_iff] at hdiffers
  exact hdiffers htrue

/-- Authors without a post of a title, where a post of the title has no author. -/
theorem negation_holds_iff_titled :
    let author := Entity.ofSteps "Author" authorSteps
    let post := Entity.ofSteps "Post" postSteps
    ∃ tree, toTree blog author (negation (onRelation "posts" (titled "c"))) = .ok tree ∧
      ∀ row ∈ strayPost.rows "author",
        (tree.truth? strayPost [("author", row)] = some .holds ↔
          NoneLinked blog strayPost author post posts (titled "c") row ∧
            ¬ Obscured blog strayPost post posts (titled "c") row) := by
  have hauthor : blog.entity "Author" = .ok (.ofSteps "Author" authorSteps) := by decide +kernel
  exact negation_holds_iff (Schema.wellFormed_of_build build_blog) hasColumns_strayPost
    keysPresent_strayPost pointsAtRows_strayPost hauthor (by decide +kernel) (by decide +kernel)
    (readable_titled "c") (twoValued_titled "c")

/-- A post without an author keeps every author from having no post of its title: in a database
with all its keys, no post of the author has the title, and still the author is not selected. -/
theorem stray_post_hides_author :
    let author := Entity.ofSteps "Author" authorSteps
    let post := Entity.ofSteps "Post" postSteps
    let row : Row := [("id", .int 1), ("name", .string "Ada")]
    strayPost.HasColumns blog ∧ strayPost.KeysPresent blog ∧ strayPost.KeysUnique blog ∧
      strayPost.PointsAtRows blog ∧ author.relation "posts" = .ok posts ∧
      Everywhere blog (Readable blog) post (titled "c") ∧
      (titled "c").TwoValued strayPost post ∧ row ∈ strayPost.rows "author" ∧
      ∃ tree, toTree blog author (negation (onRelation "posts" (titled "c"))) = .ok tree ∧
        ¬ (tree.truth? strayPost [("author", row)] = some .holds ↔
          NoneLinked blog strayPost author post posts (titled "c") row) := by
  intro author post row
  refine ⟨hasColumns_strayPost, keysPresent_strayPost, by decide +kernel, pointsAtRows_strayPost,
    by decide +kernel, readable_titled "c", twoValued_titled "c", List.mem_singleton_self row, ?_⟩
  have hunknown : (match toTree blog author (negation (onRelation "posts" (titled "c"))) with
      | .ok tree => tree.truth? strayPost [("author", row)]
      | .error _ => none) = some .unknown := by
    decide +kernel
  cases htree : toTree blog author (negation (onRelation "posts" (titled "c"))) with
  | error e => simp [htree] at hunknown
  | ok tree =>
    rw [htree] at hunknown
    exact ⟨tree, rfl, fun hiff => nomatch hunknown.symm.trans (hiff.mpr noneLinked_strayPost)⟩

end EntityGraph.Filter
