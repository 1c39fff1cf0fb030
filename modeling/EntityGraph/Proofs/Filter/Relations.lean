import EntityGraph.Proofs.Filter.Selection
/-!
Restrictions of relations. Each of the six kinds is translated through the side that stores its
links, and reads as a linked row of the target.
-/
namespace EntityGraph

open Sql (ConditionTree Expr Scope)

variable {schema : Schema} {store : Store} {entity target : Entity} {name field : String}
  {relation : Relation}

namespace Relation

lemma linked_iff_of_joining {joining : JoiningColumn} (h : relation.joiningColumn? = some joining)
    {row other : Row} :
    relation.Linked schema store entity target row other ↔
      row.Agree joining.columnName other target.primaryColumn := by
  obtain ⟨relationName, targetName, link⟩ := relation
  cases link <;> cases h <;> rfl

lemma linked_iff_of_junction {junction : JoiningTable} (h : relation.joiningTable? = some junction)
    {row other : Row} :
    relation.Linked schema store entity target row other ↔
      ∃ entry ∈ store.rows junction.tableName,
        row.Agree entity.primaryColumn entry junction.joiningColumn.columnName ∧
          entry.Agree junction.inverseJoiningColumn.columnName other target.primaryColumn := by
  obtain ⟨relationName, targetName, link⟩ := relation
  cases link <;> cases h
  rfl

lemma linked_iff_of_inverse {owning : Relation} (hk : relation.kind.isOwning = false)
    (ho : schema.targetRelation relation = .ok (some owning)) (howning : owning.kind.isOwning)
    {row other : Row} :
    relation.Linked schema store entity target row other ↔
      owning.Linked schema store target entity other row := by
  simp [Linked, hk, ho, howning]

lemma isOwning_of_joining {joining : JoiningColumn} (h : relation.joiningColumn? = some joining) :
    relation.kind.isOwning := by
  obtain ⟨relationName, targetName, link⟩ := relation
  cases link <;> cases h <;> rfl

lemma isOwning_of_junction {junction : JoiningTable} (h : relation.joiningTable? = some junction) :
    relation.kind.isOwning := by
  obtain ⟨relationName, targetName, link⟩ := relation
  cases link <;> cases h
  rfl

end Relation

namespace Filter

/-- The relation behind an inverse relation stores the links and is a field of the target. -/
lemma owning_of_inverse (hs : schema.WellFormed) (he : schema.entity name = .ok entity)
    (hr : entity.relation field = .ok relation) (ht : schema.targetEntity relation = .ok target)
    (hk : relation.kind.isOwning = false) :
    ∃ owning, target.relation owning.name = .ok owning ∧
      schema.targetRelation relation = .ok (some owning) ∧
      owning.kind = relation.kind.opposite := by
  obtain ⟨pairedName, hp⟩ := Relation.exists_pairedName hk
  obtain ⟨paired, hpaired, htarget, hkind, -⟩ := hs.paired he hr hp ht
  have hname := (hs.wellFormed ht).relation_name hpaired
  exact ⟨paired, hname ▸ hpaired, htarget, hkind⟩

/-- The side that stores the links of an inverse relation is a field of the target. -/
lemma exists_field_of_owningSide {owning : Relation}
    (h : owningSide schema entity relation = .ok owning) :
    ∃ target field, schema.targetEntity relation = .ok target ∧
      target.relation field = .ok owning := by
  obtain ⟨paired, hpaired, h⟩ := Except.bind_eq_ok.mp h
  cases paired with
  | none => contradiction
  | some paired =>
    cases h
    obtain ⟨target, htarget, hpaired⟩ := Except.bind_eq_ok.mp hpaired
    cases hname : relation.pairedName? with
    | none =>
      simp only [hname] at hpaired
      cases hpaired
    | some field =>
      simp only [hname] at hpaired
      cases hfield : target.relation field with
      | error e => simp [hfield] at hpaired
      | ok found =>
        rw [hfield] at hpaired
        cases hpaired
        exact ⟨target, field, htarget, hfield⟩

/-- A junction table is declared by a relation that owns it, and is read from either side. -/
lemma declared_of_junctionOf (he : schema.entity name = .ok entity)
    (hr : entity.relation field = .ok relation) {tableName thisColumn otherColumn : String}
    (h : junctionOf schema entity relation = .ok (tableName, thisColumn, otherColumn)) :
    ∃ declaring declarer field owning junction, schema.entity declaring = .ok declarer ∧
      declarer.relation field = .ok owning ∧ owning.joiningTable? = some junction ∧
      junction.tableName = tableName ∧
      (junction.joiningColumn.columnName = thisColumn ∧
          junction.inverseJoiningColumn.columnName = otherColumn ∨
        junction.inverseJoiningColumn.columnName = thisColumn ∧
          junction.joiningColumn.columnName = otherColumn) := by
  unfold junctionOf at h
  cases howns : relation.kind.isOwning with
  | true =>
    simp only [howns, if_true, pure_bind] at h
    split at h
    · contradiction
    · rename_i junction hjunction
      cases h
      exact ⟨name, entity, field, relation, junction, he, hr, hjunction, rfl, .inl ⟨rfl, rfl⟩⟩
  | false =>
    simp only [howns, Bool.false_eq_true, if_false] at h
    obtain ⟨owning, hside, h⟩ := Except.bind_eq_ok.mp h
    obtain ⟨target, paired, ht, howning⟩ := exists_field_of_owningSide hside
    split at h
    · contradiction
    · rename_i junction hjunction
      cases h
      exact ⟨_, target, paired, owning, junction, ht, howning, hjunction, rfl, .inr ⟨rfl, rfl⟩⟩

/-- The entries of a junction have both of the columns by which it is read. -/
lemma exists_columns_of_junctionOf (hc : store.HasColumns schema)
    (he : schema.entity name = .ok entity) (hr : entity.relation field = .ok relation)
    {tableName thisColumn otherColumn : String}
    (h : junctionOf schema entity relation = .ok (tableName, thisColumn, otherColumn)) :
    ∀ entry ∈ store.rows tableName, (∃ value, entry.find? thisColumn = some value) ∧
      ∃ value, entry.find? otherColumn = some value := by
  obtain ⟨_, _, _, _, _, hd, ho, hj, rfl, ⟨rfl, rfl⟩ | ⟨rfl, rfl⟩⟩ := declared_of_junctionOf he hr h
  · exact hc.junction hd ho hj
  · exact fun entry hentry => (hc.junction hd ho hj entry hentry).symm

variable {assumption : Prop} {nested : Filter} {translated : Except SchemaError ConditionTree}
  {tree : ConditionTree} {P : Row → Prop}

lemma relationTree_of_column {joining : JoiningColumn}
    (hcolumn : entity.columnName relation.name = .ok joining.columnName)
    (hj : relation.joiningColumn? = some joining) :
    relationTree schema entity target relation nested translated =
      match onKeyOnly? target nested with
      | some condition => .ok (condition.toTree (Sql.column joining.columnName))
      | none => translated >>= fun inner => .ok (.single (memberOf joining.columnName
          (selection target.tableName target.primaryColumn inner))) := by
  obtain ⟨relationName, targetName, link⟩ := relation
  cases link <;> cases hj <;> simp only [relationTree, Relation.kind, hcolumn] <;> rfl

lemma relationTree_of_joining (hw : entity.WellFormed) (hr : entity.relation field = .ok relation)
    {joining : JoiningColumn} (hj : relation.joiningColumn? = some joining) :
    relationTree schema entity target relation nested translated =
      match onKeyOnly? target nested with
      | some condition => .ok (condition.toTree (Sql.column joining.columnName))
      | none => translated >>= fun inner => .ok (.single (memberOf joining.columnName
          (selection target.tableName target.primaryColumn inner))) := by
  refine relationTree_of_column ?_ hj
  rw [hw.relation_name hr]
  exact Entity.columnName_of_relation hr hj

lemma relationTree_of_inverse {owning : Relation} {joining : JoiningColumn}
    (ht : target.relation owning.name = .ok owning)
    (ho : schema.targetRelation relation = .ok (some owning))
    (hj : owning.joiningColumn? = some joining) (hk : owning.kind = relation.kind.opposite) :
    relationTree schema entity target relation nested translated =
      translated >>= fun inner => .ok (.single (memberOf entity.primaryColumn
        (selection target.tableName joining.columnName inner))) := by
  have hside : owningSide schema entity relation = .ok owning := by
    rw [owningSide, ho]
    rfl
  have hhas : relation.kind.opposite.hasJoiningColumn := by
    rw [← hk, ← Relation.joiningColumn?_isSome, hj]
    rfl
  obtain ⟨relationName, targetName, link⟩ := relation
  cases link <;> simp only [Relation.kind, RelationKind.opposite,
    RelationKind.hasJoiningColumn] at hhas <;> try contradiction
  all_goals
    simp only [relationTree, Relation.kind, hside]
    show Except.bind (target.columnName owning.name) _ = _
    rw [Entity.columnName_of_relation ht hj]
    rfl

lemma relationTree_of_junction {tableName thisColumn otherColumn : String}
    (hk : relation.kind = .manyHasManyOwning ∨ relation.kind = .manyHasManyInverse)
    (h : junctionOf schema entity relation = .ok (tableName, thisColumn, otherColumn)) :
    relationTree schema entity target relation nested translated =
      translated >>= fun inner => .ok (.single (memberOf entity.primaryColumn
        (selection tableName thisColumn (.single (memberOf otherColumn
          (selection target.tableName target.primaryColumn inner)))))) := by
  obtain ⟨relationName, targetName, link⟩ := relation
  cases link <;> simp [Relation.kind] at hk
  all_goals
    simp only [relationTree, Relation.kind, h]
    rfl

/-- The side that stores the links of the inverse of a has-one relation. -/
lemma joining_of_inverse (hs : schema.WellFormed) (he : schema.entity name = .ok entity)
    (hr : entity.relation field = .ok relation) (ht : schema.targetEntity relation = .ok target)
    (hk : relation.kind = .oneHasMany ∨ relation.kind = .oneHasOneInverse) :
    ∃ owning joining, target.relation owning.name = .ok owning ∧
      schema.targetRelation relation = .ok (some owning) ∧
      owning.joiningColumn? = some joining ∧ owning.kind = relation.kind.opposite := by
  have hinverse : relation.kind.isOwning = false := by rcases hk with hk | hk <;> rw [hk] <;> rfl
  obtain ⟨owning, howning, htarget, hkind⟩ := owning_of_inverse hs he hr ht hinverse
  obtain ⟨joining, hj⟩ : ∃ joining, owning.joiningColumn? = some joining := by
    rw [← Option.isSome_iff_exists, Relation.joiningColumn?_isSome, hkind]
    rcases hk with hk | hk <;> rw [hk] <;> rfl
  exact ⟨owning, joining, howning, htarget, hj, hkind⟩

lemma joiningTable?_of_kind (h : relation.kind = .manyHasManyOwning) :
    ∃ junction, relation.joiningTable? = some junction := by
  rw [← Option.isSome_iff_exists, Relation.joiningTable?_isSome, h]
  rfl

/-- The junction of a many-to-many relation, seen from the side of its entity. -/
lemma junctionOf_of_manyHasMany (hs : schema.WellFormed) (he : schema.entity name = .ok entity)
    (hr : entity.relation field = .ok relation) (ht : schema.targetEntity relation = .ok target)
    (hk : relation.kind = .manyHasManyOwning ∨ relation.kind = .manyHasManyInverse) :
    ∃ tableName thisColumn otherColumn,
      junctionOf schema entity relation = .ok (tableName, thisColumn, otherColumn) ∧
      ∀ (store : Store) row other, relation.Linked schema store entity target row other ↔
        ∃ entry ∈ store.rows tableName, row.Agree entity.primaryColumn entry thisColumn ∧
          entry.Agree otherColumn other target.primaryColumn := by
  rcases hk with hk | hk
  · obtain ⟨junction, hj⟩ := joiningTable?_of_kind hk
    refine ⟨_, _, _, ?_, fun store row other => Relation.linked_iff_of_junction hj⟩
    simp only [junctionOf, hk, RelationKind.isOwning, if_true, pure_bind, hj]
  · have hinverse : relation.kind.isOwning = false := by rw [hk]; rfl
    obtain ⟨owning, howning, htarget, hkind⟩ := owning_of_inverse hs he hr ht hinverse
    rw [hk] at hkind
    obtain ⟨junction, hj⟩ := joiningTable?_of_kind hkind
    have hside : owningSide schema entity relation = .ok owning := by
      rw [owningSide, htarget]
      rfl
    refine ⟨junction.tableName, junction.inverseJoiningColumn.columnName,
      junction.joiningColumn.columnName, ?_, fun store row other => ?_⟩
    · simp only [junctionOf, hinverse, hside, Bool.false_eq_true, if_false, bind, Except.bind, hj]
    · rw [Relation.linked_iff_of_inverse hinverse htarget (Relation.isOwning_of_junction hj),
        Relation.linked_iff_of_junction hj]
      refine exists_congr fun entry => and_congr_right fun _ => ?_
      rw [Row.agree_comm, @Row.agree_comm row, and_comm]

/-- A restriction of an owning has-one relation, through the joining column or, where only the key
of the target is restricted, on the joining column itself. -/
lemma reads_joining (hs : schema.WellFormed) (hc : store.HasColumns schema)
    (he : schema.entity name = .ok entity) (hr : entity.relation field = .ok relation)
    (ht : schema.targetEntity relation = .ok target) {joining : JoiningColumn}
    (hj : relation.joiningColumn? = some joining)
    (h : relationTree schema entity target relation nested translated = .ok tree)
    (htree : ∀ inner, translated = .ok inner → Reads store target.tableName assumption inner P)
    (hkey : ∀ condition, onKeyOnly? target nested = some condition → assumption →
      store.PointsAtRows schema ∧ condition.truth .null ≠ .holds ∧
        ∀ other ∈ store.rows target.tableName, ∀ value,
          other.find? target.primaryColumn = some value →
          (P other ↔ condition.truth value = .holds)) :
    Reads store entity.tableName assumption tree fun row =>
      ∃ other ∈ store.rows target.tableName,
        relation.Linked schema store entity target row other ∧ P other := by
  simp only [Relation.linked_iff_of_joining hj]
  rw [relationTree_of_joining (hs.wellFormed he) hr hj] at h
  cases hkeyOnly : onKeyOnly? target nested with
  | none =>
    rw [hkeyOnly] at h
    obtain ⟨inner, hinner, heq⟩ := Except.bind_eq_ok.mp h
    cases heq
    exact (htree inner hinner).memberOf
      (fun row hrow => hc.field he row hrow (Entity.columnName_of_relation hr hj)) (hc.primary ht)
  | some condition =>
    rw [hkeyOnly] at h
    cases h
    intro outer row hrow
    obtain ⟨value, hv⟩ := hc.field he row hrow (Entity.columnName_of_relation hr hj)
    rw [Condition.truth?_toTree hv, Option.some_inj]
    refine ⟨rfl, fun ha => ?_⟩
    obtain ⟨hpoints, hnull, hP⟩ := hkey condition hkeyOnly ha
    constructor
    · intro hholds
      have hvalue : value.isNull = false := by
        cases value <;> first | rfl | exact absurd hholds hnull
      obtain ⟨other, ho, a, b, hfa, hfb, hab⟩ := hpoints he hr hj ht row hrow value hv hvalue
      cases hv.symm.trans hfa
      refine ⟨other, ho, ⟨value, b, hfa, hfb, hab⟩, (hP other ho b hfb).mpr ?_⟩
      rw [← Condition.truth_congr hab condition]
      exact hholds
    · rintro ⟨other, ho, ⟨a, b, hfa, hfb, hab⟩, hPother⟩
      cases hv.symm.trans hfa
      rw [Condition.truth_congr hab condition]
      exact (hP other ho b hfb).mp hPother

/-- A restriction of the inverse of a has-one relation. -/
lemma reads_inverse (hs : schema.WellFormed) (hc : store.HasColumns schema)
    (he : schema.entity name = .ok entity) (hr : entity.relation field = .ok relation)
    (ht : schema.targetEntity relation = .ok target)
    (hk : relation.kind = .oneHasMany ∨ relation.kind = .oneHasOneInverse)
    (h : relationTree schema entity target relation nested translated = .ok tree)
    (htree : ∀ inner, translated = .ok inner → Reads store target.tableName assumption inner P) :
    Reads store entity.tableName assumption tree fun row =>
      ∃ other ∈ store.rows target.tableName,
        relation.Linked schema store entity target row other ∧ P other := by
  have hinverse : relation.kind.isOwning = false := by rcases hk with hk | hk <;> rw [hk] <;> rfl
  obtain ⟨owning, joining, howning, htarget, hj, hkind⟩ := joining_of_inverse hs he hr ht hk
  rw [relationTree_of_inverse howning htarget hj hkind] at h
  obtain ⟨inner, hinner, heq⟩ := Except.bind_eq_ok.mp h
  cases heq
  simp only [Relation.linked_iff_of_inverse hinverse htarget (Relation.isOwning_of_joining hj),
    Relation.linked_iff_of_joining hj]
  simp only [@Row.agree_comm _ _ _ entity.primaryColumn]
  exact (htree inner hinner).memberOf (hc.primary he)
    (fun other ho => hc.field ht other ho (Entity.columnName_of_relation howning hj))

/-- A restriction of a many-to-many relation, through the entries of its junction table. -/
lemma reads_junction (hs : schema.WellFormed) (hc : store.HasColumns schema)
    (he : schema.entity name = .ok entity) (hr : entity.relation field = .ok relation)
    (ht : schema.targetEntity relation = .ok target)
    (hk : relation.kind = .manyHasManyOwning ∨ relation.kind = .manyHasManyInverse)
    (h : relationTree schema entity target relation nested translated = .ok tree)
    (htree : ∀ inner, translated = .ok inner → Reads store target.tableName assumption inner P) :
    Reads store entity.tableName assumption tree fun row =>
      ∃ other ∈ store.rows target.tableName,
        relation.Linked schema store entity target row other ∧ P other := by
  obtain ⟨tableName, thisColumn, otherColumn, hjunction, hlinked⟩ :=
    junctionOf_of_manyHasMany hs he hr ht hk
  have hcolumns := exists_columns_of_junctionOf hc he hr hjunction
  rw [relationTree_of_junction hk hjunction] at h
  obtain ⟨inner, hinner, heq⟩ := Except.bind_eq_ok.mp h
  cases heq
  have hentries : Reads store tableName assumption (.single (memberOf otherColumn
      (selection target.tableName target.primaryColumn inner))) _ :=
    (htree inner hinner).memberOf (fun entry hentry => (hcolumns entry hentry).2) (hc.primary ht)
  have hrows := hentries.memberOf (hc.primary he) fun entry hentry => (hcolumns entry hentry).1
  intro outer row hrow
  obtain ⟨hsome, hread⟩ := hrows outer row hrow
  refine ⟨hsome, fun ha => (hread ha).trans ?_⟩
  constructor
  · rintro ⟨entry, hentry, hthis, other, ho, hother, hP⟩
    exact ⟨other, ho, (hlinked store row other).mpr ⟨entry, hentry, hthis, hother⟩, hP⟩
  · rintro ⟨other, ho, hlink, hP⟩
    obtain ⟨entry, hentry, hthis, hother⟩ := (hlinked store row other).mp hlink
    exact ⟨entry, hentry, hthis, other, ho, hother, hP⟩

/-- The three ways in which a relation can be restricted, by the side that stores the links. -/
lemma kind_cases (relation : Relation) :
    (∃ joining, relation.joiningColumn? = some joining) ∨
      (relation.kind = .oneHasMany ∨ relation.kind = .oneHasOneInverse) ∨
      (relation.kind = .manyHasManyOwning ∨ relation.kind = .manyHasManyInverse) := by
  obtain ⟨relationName, targetName, link⟩ := relation
  cases link <;> simp [Relation.kind, Relation.joiningColumn?]

/-- The condition of a restricted relation has a truth value on every row. The columns that it names
are there whether or not the schema is well formed. -/
lemma isSome_relationTree (hc : store.HasColumns schema) (he : schema.entity name = .ok entity)
    (hr : entity.relation field = .ok relation) (ht : schema.targetEntity relation = .ok target)
    (h : relationTree schema entity target relation nested translated = .ok tree)
    (htree : ∀ inner, translated = .ok inner → Reads store target.tableName assumption inner P)
    (outer : Scope) {row : Row} (hrow : row ∈ store.rows entity.tableName) :
    (tree.truth? store ((entity.tableName, row) :: outer)).isSome := by
  unfold relationTree at h
  generalize relation.kind = kind at h
  cases kind
  case manyHasOne | oneHasOneOwning =>
    obtain ⟨column, hcolumn, h⟩ := Except.bind_eq_ok.mp h
    have hrows : ∀ row ∈ store.rows entity.tableName, ∃ value, row.find? column = some value :=
      fun row hrow => hc.field he row hrow hcolumn
    cases hkey : onKeyOnly? target nested with
    | some condition =>
      rw [hkey] at h
      cases h
      obtain ⟨value, hv⟩ := hrows row hrow
      rw [Condition.truth?_toTree hv]
      rfl
    | none =>
      rw [hkey] at h
      obtain ⟨inner, hinner, h⟩ := Except.bind_eq_ok.mp h
      cases h
      exact ((htree inner hinner).memberOf hrows (hc.primary ht) outer row hrow).1
  case oneHasMany | oneHasOneInverse =>
    obtain ⟨owning, -, h⟩ := Except.bind_eq_ok.mp h
    obtain ⟨column, hcolumn, h⟩ := Except.bind_eq_ok.mp h
    obtain ⟨inner, hinner, h⟩ := Except.bind_eq_ok.mp h
    cases h
    have hlinked : ∀ other ∈ store.rows target.tableName,
        ∃ value, other.find? column = some value :=
      fun other hother => hc.field ht other hother hcolumn
    exact ((htree inner hinner).memberOf (hc.primary he) hlinked outer row hrow).1
  case manyHasManyOwning | manyHasManyInverse =>
    obtain ⟨⟨tableName, thisColumn, otherColumn⟩, hjunction, h⟩ := Except.bind_eq_ok.mp h
    obtain ⟨inner, hinner, h⟩ := Except.bind_eq_ok.mp h
    cases h
    have hcolumns := exists_columns_of_junctionOf hc he hr hjunction
    have hentries : Reads store tableName assumption (.single (memberOf otherColumn
        (selection target.tableName target.primaryColumn inner))) _ :=
      (htree inner hinner).memberOf (fun entry hentry => (hcolumns entry hentry).2) (hc.primary ht)
    exact (hentries.memberOf (hc.primary he) (fun entry hentry => (hcolumns entry hentry).1)
      outer row hrow).1

/-- The condition of a restricted relation reads as a linked row that satisfies the restriction, in
a schema that is well formed. -/
theorem reads_relationTree (hs : assumption → schema.WellFormed) (hc : store.HasColumns schema)
    (he : schema.entity name = .ok entity) (hr : entity.relation field = .ok relation)
    (ht : schema.targetEntity relation = .ok target)
    (h : relationTree schema entity target relation nested translated = .ok tree)
    (htree : ∀ inner, translated = .ok inner → Reads store target.tableName assumption inner P)
    (hkey : ∀ condition, onKeyOnly? target nested = some condition →
      relation.kind.hasJoiningColumn → assumption →
      store.PointsAtRows schema ∧ condition.truth .null ≠ .holds ∧
        ∀ other ∈ store.rows target.tableName, ∀ value,
          other.find? target.primaryColumn = some value →
          (P other ↔ condition.truth value = .holds)) :
    Reads store entity.tableName assumption tree fun row =>
      ∃ other ∈ store.rows target.tableName,
        relation.Linked schema store entity target row other ∧ P other := by
  intro outer row hrow
  refine ⟨isSome_relationTree hc he hr ht h htree outer hrow, fun ha => ?_⟩
  rcases kind_cases relation with ⟨joining, hj⟩ | hk | hk
  · have hhas : relation.kind.hasJoiningColumn := by
      rw [← Relation.joiningColumn?_isSome, hj]
      rfl
    exact (reads_joining (hs ha) hc he hr ht hj h htree
      (fun condition hcondition => hkey condition hcondition hhas) outer row hrow).2 ha
  · exact (reads_inverse (hs ha) hc he hr ht hk h htree outer row hrow).2 ha
  · exact (reads_junction (hs ha) hc he hr ht hk h htree outer row hrow).2 ha

/-- A restriction of a relation has a condition when the restriction of the target has one. -/
theorem exists_relationTree (hs : schema.WellFormed) (he : schema.entity name = .ok entity)
    (hr : entity.relation field = .ok relation) (ht : schema.targetEntity relation = .ok target)
    (htree : ∃ inner, translated = .ok inner) :
    ∃ tree, relationTree schema entity target relation nested translated = .ok tree := by
  obtain ⟨inner, rfl⟩ := htree
  rcases kind_cases relation with ⟨joining, hj⟩ | hk | hk
  · rw [relationTree_of_joining (hs.wellFormed he) hr hj]
    cases onKeyOnly? target nested <;> exact ⟨_, rfl⟩
  · obtain ⟨owning, joining, howning, htarget, hj, hkind⟩ := joining_of_inverse hs he hr ht hk
    rw [relationTree_of_inverse howning htarget hj hkind]
    exact ⟨_, rfl⟩
  · obtain ⟨tableName, thisColumn, otherColumn, hjunction, -⟩ :=
      junctionOf_of_manyHasMany hs he hr ht hk
    rw [relationTree_of_junction hk hjunction]
    exact ⟨_, rfl⟩

end Filter

end EntityGraph
