import EntityGraph.Proofs.Mutation.Access
import EntityGraph.Proofs.Mutation.Junction
/-!
# Conditions that only the rows of one parent satisfy

A row is reached through a relation by a unique where that restricts the other side of the relation
to the key of the row. The condition of such a unique where holds only of rows with the key in their
joining column, whatever else it asks for and whatever the access rules add to it.
-/
namespace EntityGraph

open Sql (ConditionTree Expr)

namespace Sql

variable {store : Store} {scope : Scope}

lemma exists_truth_of_mem {exprs : List Expr} {truths : List Truth}
    (h : exprTruths? store exprs scope = some truths) {expr : Expr} (hmem : expr ∈ exprs) :
    ∃ truth ∈ truths, expr.truth? store scope = some truth := by
  induction exprs generalizing truths with
  | nil => cases hmem
  | cons first rest ih =>
    obtain ⟨truth, htruth, h⟩ := Option.bind_eq_some_iff.mp h
    obtain ⟨others, hothers, h⟩ := Option.bind_eq_some_iff.mp h
    cases h
    obtain rfl | hmem := List.mem_cons.mp hmem
    · exact ⟨truth, List.mem_cons_self, htruth⟩
    · obtain ⟨own, hown, heq⟩ := ih hothers hmem
      exact ⟨own, List.mem_cons_of_mem _ hown, heq⟩

namespace ConditionTree

/-- Where a conjunction holds, each of its operands holds. -/
lemma holds_of_and {operands : List Expr}
    (h : (ConditionTree.and operands).truth? store scope = some .holds) {expr : Expr}
    (hmem : expr ∈ operands) : expr.truth? store scope = some .holds := by
  obtain ⟨truths, htruths, hall⟩ := Option.map_eq_some_iff.mp h
  obtain ⟨truth, hmem, htruth⟩ := exists_truth_of_mem htruths hmem
  rw [htruth, Truth.all_eq_holds.mp hall truth hmem]

/-- Of the rows of a table, the condition holds only of those with the value in the column. -/
def Confines (tree : ConditionTree) (tableName column : String) (value : Value) : Prop :=
  ∀ (store : Store) (row : Row), tree.truth? store [(tableName, row)] = some .holds →
    row.Has column value

variable {tree own : ConditionTree} {tableName column : String} {value : Value}

lemma Confines.of_imp (h : own.Confines tableName column value)
    (himp : ∀ store scope, tree.truth? store scope = some .holds →
      own.truth? store scope = some .holds) : tree.Confines tableName column value :=
  fun store row hholds => h store row (himp store _ hholds)

lemma confines_equal (tableName column : String) (value : Value) :
    ((Condition.compare .equal value).toTree (Sql.column column)).Confines tableName column
      value := by
  intro store row hholds
  obtain ⟨stored, hstored, htest⟩ := Option.bind_eq_some_iff.mp hholds
  have hfind : (row.find? column).or none = some stored := hstored
  rw [Option.or_none] at hfind
  exact ⟨stored, hfind, Option.some.inj htest⟩

end ConditionTree

end Sql

namespace Filter

variable {schema : Schema} {entity target : Entity} {filter predicate nested : Filter}
  {tree : ConditionTree} {field : String} {relation : Relation}

/-- Where conditions hold together, each of them holds. -/
lemma holds_of_together {trees : List ConditionTree} {store : Store} {scope : Sql.Scope}
    (h : (together trees).truth? store scope = some .holds) (hmem : tree ∈ trees) :
    tree.truth? store scope = some .holds := by
  obtain _ | ⟨first, _ | ⟨second, rest⟩⟩ := trees
  · cases hmem
  · rwa [List.mem_singleton.mp hmem]
  · exact ConditionTree.holds_of_and h (List.mem_map_of_mem hmem)

/-- What holds under a filter and a predicate together holds under the filter alone. -/
lemma filter_holds_of_andWith (h : (filter.andWith predicate).toTree schema entity = .ok tree) :
    ∃ own, filter.toTree schema entity = .ok own ∧
      ∀ store scope, tree.truth? store scope = some .holds →
        own.truth? store scope = some .holds := by
  unfold andWith at h
  split at h
  · rename_i hempty
    rw [eq_empty_of_isEmpty hempty]
    exact ⟨.always, rfl, fun _ _ _ => rfl⟩
  · split at h
    · exact ⟨tree, h, fun _ _ => id⟩
    · obtain ⟨first, second, hfirst, -, rfl⟩ := toTree_all_pair h
      exact ⟨first, hfirst, fun _ _ hholds =>
        ConditionTree.holds_of_and hholds List.mem_cons_self⟩

/-- The restriction of a relation is among the conditions of the fields. -/
lemma exists_tree_of_relation {fields : List (String × FieldFilter)} {trees : List ConditionTree}
    (h : fieldTrees schema entity fields = .ok trees) (hmem : (field, .relation nested) ∈ fields) :
    ∃ relation target tree, entity.relation field = .ok relation ∧
      schema.targetEntity relation = .ok target ∧
      relationTree schema entity target relation nested (toTree schema target nested) = .ok tree ∧
      tree ∈ trees := by
  induction fields generalizing trees with
  | nil => cases hmem
  | cons pair rest ih =>
    obtain ⟨name, condition | other⟩ := pair
    · obtain ⟨column, -, h⟩ := Except.bind_eq_ok.mp h
      obtain ⟨later, hlater, h⟩ := Except.bind_eq_ok.mp h
      cases h
      obtain heq | hmem := List.mem_cons.mp hmem
      · cases heq
      · obtain ⟨relation, target, tree, hr, ht, htree, hin⟩ := ih hlater hmem
        exact ⟨relation, target, tree, hr, ht, htree, List.mem_cons_of_mem _ hin⟩
    · obtain ⟨relation, hr, h⟩ := Except.bind_eq_ok.mp h
      obtain ⟨target, ht, h⟩ := Except.bind_eq_ok.mp h
      obtain ⟨tree, htree, h⟩ := Except.bind_eq_ok.mp h
      obtain ⟨later, hlater, h⟩ := Except.bind_eq_ok.mp h
      cases h
      obtain heq | hmem := List.mem_cons.mp hmem
      · cases heq
        exact ⟨relation, target, tree, hr, ht, htree, List.mem_cons_self⟩
      · obtain ⟨relation, target, tree, hr, ht, htree, hin⟩ := ih hlater hmem
        exact ⟨relation, target, tree, hr, ht, htree, List.mem_cons_of_mem _ hin⟩

/-- A filter that restricts an owning relation to a key holds only of rows with the key in the
joining column. -/
theorem confines_of_toTree (hw : entity.WellFormed) (hr : entity.relation field = .ok relation)
    (ht : schema.targetEntity relation = .ok target) {joining : JoiningColumn}
    (hj : relation.joiningColumn? = some joining) {key : Value}
    (hmem : (field, .relation (onColumn target.primary (.compare .equal key))) ∈ filter.fields)
    (h : filter.toTree schema entity = .ok tree) :
    tree.Confines entity.tableName joining.columnName key := by
  obtain ⟨and, or, not, fields⟩ := filter
  rw [toTree_eq] at h
  obtain ⟨all, -, h⟩ := Except.bind_eq_ok.mp h
  obtain ⟨any, -, h⟩ := Except.bind_eq_ok.mp h
  obtain ⟨none, -, h⟩ := Except.bind_eq_ok.mp h
  obtain ⟨each, heach, h⟩ := Except.bind_eq_ok.mp h
  cases h
  obtain ⟨_, _, own, hr', ht', hown, hin⟩ := exists_tree_of_relation heach hmem
  cases hr.symm.trans hr'
  cases ht.symm.trans ht'
  have hkey : onKeyOnly? target (onColumn target.primary (.compare .equal key)) =
      some (.compare .equal key) := if_pos rfl
  rw [relationTree_of_joining hw hr hj, hkey] at hown
  cases hown
  exact (ConditionTree.confines_equal _ _ _).of_imp fun store scope hholds =>
    holds_of_together hholds (List.mem_append_right _ hin)

end Filter

namespace UniqueWhere

lemma mem_nodesToFields {nodes : List (String × UniqueNode)} {field : String}
    {nested : UniqueWhere} (h : (field, .relation nested) ∈ nodes) :
    (field, .relation nested.toFilter) ∈ nodesToFields nodes := by
  induction nodes with
  | nil => cases h
  | cons pair rest ih =>
    obtain heq | hmem := List.mem_cons.mp h
    · cases heq
      exact List.mem_cons_self
    · obtain ⟨name, value | other⟩ := pair <;> exact List.mem_cons_of_mem _ (ih hmem)

/-- A unique where that is restricted by a relation is so as a filter. -/
lemma mem_fields_of_expand {which nested : UniqueWhere} {field : String} {entity : Entity}
    {filter : Filter} (h : (which.withRelation field nested).expand entity = .ok filter) :
    (field, .relation nested.toFilter) ∈ filter.fields := by
  rw [expand] at h
  split at h
  · cases h
    exact mem_nodesToFields (Table.mem_of_find? (Table.find?_insert_self field _ which.nodes))
  · cases h

end UniqueWhere

namespace Mutation

/-- The links of a relation are stored with its target, in the joining column of the relation that
it is paired with, which leads back. -/
structure RelationSides.StoredBy (schema : Schema) (sides : RelationSides) (paired : Relation)
    (joining : JoiningColumn) : Prop where
  wellFormed : sides.target.WellFormed
  pair : sides.pair = .ok paired
  relation : sides.target.relation paired.name = .ok paired
  joiningColumn : paired.joiningColumn? = some joining
  leads_back : schema.targetEntity paired = .ok sides.entity

section Sides

variable {schema : Schema} {sides : RelationSides} {paired : Relation} {joining : JoiningColumn}

lemma RelationSides.exists_storedBy (hs : schema.WellFormed) {entity : Entity}
    (hentity : schema.Declares entity) {field : String}
    (hsides : ofField schema entity field = .ok sides)
    (hkind : sides.kind = .oneHasMany ∨ sides.kind = .oneHasOneInverse) :
    ∃ paired joining, sides.StoredBy schema paired joining := by
  have htargetRelation := EntityGraph.RelationSides.targetRelation_of_ofField hsides
  obtain ⟨relation, hr, h⟩ := Except.bind_eq_ok.mp (Except.eq_ok_of_mapError hsides)
  obtain ⟨target, ht, h⟩ := Except.bind_eq_ok.mp h
  obtain ⟨other, hother, h⟩ := Except.bind_eq_ok.mp h
  cases h
  obtain ⟨owning, joining, howning, hp, hj, -⟩ :=
    Filter.joining_of_inverse hs hentity hr ht hkind
  cases hp.symm.trans htargetRelation
  obtain ⟨-, hback, -⟩ := hs.leads_back hentity hr ht hp
  exact ⟨owning, joining, ⟨hs.wellFormed ht, rfl, howning, hj, hback⟩⟩

/-- The condition of a unique where for the target that is to point at a row holds only of targets
with the key of the row in their joining column, whatever the access rules add to it. -/
theorem RelationSides.StoredBy.confines (h : sides.StoredBy schema paired joining)
    {primary : Value} {which : UniqueWhere} {filter predicate : Filter} {tree : ConditionTree}
    (hfilter : (RelatedRow.pointingHere ⟨sides, primary⟩ paired which).expand sides.target =
      .ok filter) (htree : (filter.andWith predicate).toTree schema sides.target = .ok tree) :
    tree.Confines sides.target.tableName joining.columnName primary := by
  obtain ⟨own, hown, himp⟩ := Filter.filter_holds_of_andWith htree
  have hmem := UniqueWhere.mem_fields_of_expand hfilter
  exact (Filter.confines_of_toTree h.wellFormed h.relation h.leads_back h.joiningColumn hmem
    hown).of_imp himp

end Sides

end Mutation

end EntityGraph
