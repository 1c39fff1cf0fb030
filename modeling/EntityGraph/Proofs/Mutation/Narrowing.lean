import EntityGraph.Proofs.Filter.JoiningColumn
import EntityGraph.Proofs.Json.Canonical
import EntityGraph.Proofs.Mutation.Confinement
import EntityGraph.Proofs.UniqueWhere.Determination
/-!
# Unique wheres restricted to one parent

A related row is addressed by a unique where whose node for the relation that leads back holds the
key of the parent. What the unique where asked of that relation itself is replaced: the rows that
are addressed are those of its other nodes with the parent's key in their joining column.
-/
namespace EntityGraph

open Sql (ConditionTree)

namespace Table

variable {α : Type} {table : Table α} {key : String} {entry : α} {pair : String × α}

/-- An entry takes the place of the one under its key, and leaves the others. -/
lemma mem_insert_iff (h : table.Ascending) :
    pair ∈ table.insert key entry ↔ pair = (key, entry) ∨ pair ∈ table ∧ pair.1 ≠ key := by
  obtain ⟨name, found⟩ := pair
  have hinserted := (h.insert key entry).nodup_keys
  rw [← find?_eq_some_iff hinserted, ← find?_eq_some_iff h.nodup_keys]
  by_cases hname : name = key
  · subst hname
    simp [eq_comm]
  · simp [find?_insert_of_ne hname, hname]

end Table

namespace UniqueWhere

variable {schema : Schema} {store : Store} {entity target : Entity} {name field : String}
  {which nested : UniqueWhere} {nodes : List (String × UniqueNode)} {node : String × UniqueNode}
  {relation : Relation} {joining : JoiningColumn} {key : Value} {row : Row}

/-- A unique where without its node for a field. -/
def without (which : UniqueWhere) (field : String) : UniqueWhere :=
  ⟨which.nodes.filter fun node => node.1 ≠ field⟩

lemma without_eq_self (h : Table.Ascending which.nodes) (hnone : which.get? field = none) :
    which.without field = which := by
  obtain ⟨nodes⟩ := which
  refine congrArg UniqueWhere.mk (List.filter_eq_self.mpr fun node hmem => decide_eq_true ?_)
  rintro rfl
  have hfound := (Table.find?_eq_some_iff h.nodup_keys).mpr hmem
  cases hnone.symm.trans hfound

lemma expand_eq_ok {filter : Filter} :
    which.expand entity = .ok filter ↔ which.coversKey entity = true ∧ which.toFilter = filter := by
  rw [expand]
  split <;> simp_all

/-- A key that is covered still is when a node is added or replaced. -/
lemma coversKey_withRelation (h : which.coversKey entity = true) :
    (which.withRelation field nested).coversKey entity = true := by
  obtain ⟨fields, hmem, hall⟩ := List.any_eq_true.mp h
  refine List.any_eq_true.mpr ⟨fields, hmem, List.all_eq_true.mpr fun other hother => ?_⟩
  by_cases hname : other = field
  · rw [hname, get?, withRelation, Table.find?_insert_self]
    rfl
  · rw [get?, withRelation, Table.find?_insert_of_ne hname]
    exact List.all_eq_true.mp hall other hother

/-! ### Node by node -/

lemma nodesSelect_cons : NodesSelect schema store entity row (node :: nodes) ↔
    NodesSelect schema store entity row [node] ∧ NodesSelect schema store entity row nodes := by
  obtain ⟨name, value | nested⟩ := node <;> simp only [NodesSelect, and_true]

lemma nodesSelect_iff : NodesSelect schema store entity row nodes ↔
    ∀ node ∈ nodes, NodesSelect schema store entity row [node] := by
  induction nodes with
  | nil => simp [NodesSelect]
  | cons node rest ih => rw [nodesSelect_cons, ih, List.forall_mem_cons]

/-- Whether there is a condition for each of some nodes. -/
def NodesTranslate (schema : Schema) (entity : Entity) (nodes : List (String × UniqueNode)) :
    Prop :=
  ∃ trees, Filter.fieldTrees schema entity (nodesToFields nodes) = .ok trees

lemma nodesTranslate_cons : NodesTranslate schema entity (node :: nodes) ↔
    NodesTranslate schema entity [node] ∧ NodesTranslate schema entity nodes := by
  obtain ⟨name, value | nested⟩ := node
  · simp only [NodesTranslate, nodesToFields, Filter.fieldTrees]
    cases entity.columnName name <;>
      cases Filter.fieldTrees schema entity (nodesToFields nodes) <;>
      simp [bind, Except.bind]
  · simp only [NodesTranslate, nodesToFields, Filter.fieldTrees]
    cases entity.relation name with
    | error e => simp [bind, Except.bind]
    | ok relation =>
      cases htarget : schema.targetEntity relation with
      | error e => simp [bind, Except.bind, htarget]
      | ok target =>
        cases htree : Filter.relationTree schema entity target relation nested.toFilter
            (nested.toFilter.toTree schema target) <;>
          cases Filter.fieldTrees schema entity (nodesToFields nodes) <;>
          simp [bind, Except.bind, htarget, htree]

lemma nodesTranslate_iff : NodesTranslate schema entity nodes ↔
    ∀ node ∈ nodes, NodesTranslate schema entity [node] := by
  induction nodes with
  | nil => exact ⟨fun _ _ hmem => absurd hmem List.not_mem_nil, fun _ => ⟨[], rfl⟩⟩
  | cons node rest ih => rw [nodesTranslate_cons, ih, List.forall_mem_cons]

lemma exists_tree_iff : (∃ tree, which.toFilter.toTree schema entity = .ok tree) ↔
    NodesTranslate schema entity which.nodes := by
  obtain ⟨nodes⟩ := which
  rw [toFilter, Filter.ofFields, Filter.empty, Filter.toTree_eq]
  constructor
  · rintro ⟨tree, h⟩
    obtain ⟨trees, htrees, -⟩ := Except.bind_eq_ok.mp
      (show Filter.fieldTrees schema entity (nodesToFields nodes) >>= _ = .ok tree from h)
    exact ⟨trees, htrees⟩
  · rintro ⟨trees, htrees⟩
    refine ⟨Filter.together trees, ?_⟩
    show Filter.fieldTrees schema entity (nodesToFields nodes) >>= _ = _
    rw [htrees]
    rfl

lemma selects_iff : Selects schema store entity row which ↔
    ∀ node ∈ which.nodes, NodesSelect schema store entity row [node] := by
  obtain ⟨nodes⟩ := which
  rw [Selects, nodesSelect_iff]

/-- A relation takes the place of the node under its field, and leaves the others. -/
lemma mem_withRelation (h : Table.Ascending which.nodes) :
    node ∈ (which.withRelation field nested).nodes ↔
      node = (field, .relation nested) ∨ node ∈ (which.without field).nodes := by
  rw [withRelation, Table.mem_insert_iff h, without, List.mem_filter, decide_eq_true_iff]

lemma selects_withRelation (h : Table.Ascending which.nodes) :
    Selects schema store entity row (which.withRelation field nested) ↔
      Selects schema store entity row (which.without field) ∧
        NodesSelect schema store entity row [(field, .relation nested)] := by
  simp only [selects_iff, mem_withRelation h, or_imp, forall_and, forall_eq]
  exact and_comm

lemma selects_without (h : Selects schema store entity row which) :
    Selects schema store entity row (which.without field) :=
  selects_iff.mpr fun node hmem => selects_iff.mp h node (List.mem_of_mem_filter hmem)

lemma nodesTranslate_without (h : NodesTranslate schema entity which.nodes) :
    NodesTranslate schema entity (which.without field).nodes :=
  nodesTranslate_iff.mpr fun node hmem => nodesTranslate_iff.mp h node (List.mem_of_mem_filter hmem)

/-! ### A relation restricted to a key -/

section Key

variable (hr : entity.relation field = .ok relation)
  (ht : schema.targetEntity relation = .ok target) (hj : relation.joiningColumn? = some joining)
include hr ht hj

lemma nodesSelect_key :
    NodesSelect schema store entity row [(field, .relation (.single target.primary key))] ↔
      row.Has joining.columnName key := by
  have hkey : Filter.onKeyOnly? target (single target.primary key).toFilter =
      some (.compare .equal key) := if_pos rfl
  constructor
  · rintro ⟨⟨_, _, hr', ht', hselects⟩, -⟩
    cases hr.symm.trans hr'
    cases ht.symm.trans ht'
    rw [hj, hkey] at hselects
    exact hselects
  · intro hhas
    refine ⟨⟨relation, target, hr, ht, ?_⟩, trivial⟩
    rw [hj, hkey]
    exact hhas

lemma nodesTranslate_withKey (hw : entity.WellFormed) (h : Table.Ascending which.nodes)
    (hwhich : NodesTranslate schema entity which.nodes) :
    NodesTranslate schema entity (which.withRelation field (.single target.primary key)).nodes := by
  have hkey : Filter.onKeyOnly? target (single target.primary key).toFilter =
      some (.compare .equal key) := if_pos rfl
  have htree : Filter.relationTree schema entity target relation
      (single target.primary key).toFilter
      ((single target.primary key).toFilter.toTree schema target) =
        .ok ((Condition.compare .equal key).toTree (Sql.column joining.columnName)) := by
    rw [Filter.relationTree_of_joining hw hr hj, hkey]
  refine nodesTranslate_iff.mpr fun node hmem => ?_
  obtain rfl | hmem := (mem_withRelation h).mp hmem
  · exact ⟨_, Except.bind_eq_ok.mpr ⟨relation, hr, Except.bind_eq_ok.mpr ⟨target, ht,
      Except.bind_eq_ok.mpr ⟨_, htree, rfl⟩⟩⟩⟩
  · exact nodesTranslate_iff.mp (nodesTranslate_without hwhich) node hmem

end Key

end UniqueWhere

namespace Mutation

open UniqueWhere (without)

variable {schema : Schema} {store : Store} {entity : Entity} {field : String}
  {sides : RelationSides} {paired : Relation} {which : UniqueWhere} {filter : Filter}

/-- The target of a relation can be looked up in the schema. -/
lemma RelationSides.exists_entity_target
    (hsides : RelationSides.ofField schema entity field = .ok sides) :
    ∃ name, schema.entity name = .ok sides.target := by
  obtain ⟨relation, -, h⟩ := Except.bind_eq_ok.mp (Except.eq_ok_of_mapError hsides)
  obtain ⟨target, htarget, h⟩ := Except.bind_eq_ok.mp h
  obtain ⟨_, -, h⟩ := Except.bind_eq_ok.mp h
  cases h
  exact ⟨_, htarget⟩

/-- A unique where for the target of an inverse has-one or a has-many relation addresses, once it is
to point at a row, the rows of its nodes for other fields that have the key of the row in their
joining column. These are the rows it addressed itself that do so, unless it has a node for the
relation that leads back, which is dropped. -/
theorem RelatedRow.pointingHere_holds_iff (hs : schema.WellFormed) (hc : store.HasColumns schema)
    (hentity : schema.Declares entity)
    (hsides : RelationSides.ofField schema entity field = .ok sides)
    (hkind : sides.kind = .oneHasMany ∨ sides.kind = .oneHasOneInverse)
    (hpair : sides.pair = .ok paired) (hfits : which.Fits schema sides.target)
    (hordered : Table.Ascending which.nodes) (hwhich : which.expand sides.target = .ok filter)
    (primary : Value) :
    ∃ joining here own tree rest, paired.joiningColumn? = some joining ∧
      (RelatedRow.pointingHere ⟨sides, primary⟩ paired which).expand sides.target = .ok here ∧
      filter.toTree schema sides.target = .ok own ∧
      here.toTree schema sides.target = .ok tree ∧
      (which.without paired.name).toFilter.toTree schema sides.target = .ok rest ∧
      ∀ row ∈ store.rows sides.target.tableName,
        let scope := [(sides.target.tableName, row)]
        (tree.truth? store scope = some .holds ↔
          rest.truth? store scope = some .holds ∧ row.Has joining.columnName primary) ∧
        (own.truth? store scope = some .holds → rest.truth? store scope = some .holds) ∧
        (which.get? paired.name = none →
          (tree.truth? store scope = some .holds ↔
            own.truth? store scope = some .holds ∧ row.Has joining.columnName primary)) := by
  obtain ⟨_, joining, hstored⟩ := RelationSides.exists_storedBy hs hentity hsides hkind
  cases hpair.symm.trans hstored.pair
  obtain ⟨name, htarget⟩ := RelationSides.exists_entity_target hsides
  obtain ⟨hcovers, rfl⟩ := UniqueWhere.expand_eq_ok.mp hwhich
  obtain ⟨own, hown⟩ := Filter.exists_tree hs htarget _ hfits.everywhere_toFilter
  have htranslate := UniqueWhere.exists_tree_iff.mp ⟨own, hown⟩
  obtain ⟨tree, htree⟩ := UniqueWhere.exists_tree_iff.mpr
    (UniqueWhere.nodesTranslate_withKey hstored.relation hstored.leads_back hstored.joiningColumn
      hstored.wellFormed hordered htranslate)
  obtain ⟨rest, hrest⟩ := UniqueWhere.exists_tree_iff.mpr
    (UniqueWhere.nodesTranslate_without htranslate)
  refine ⟨joining, _, own, tree, rest, hstored.joiningColumn, UniqueWhere.expand_eq_ok.mpr
    ⟨UniqueWhere.coversKey_withRelation hcovers, rfl⟩, hown, htree, hrest, ?_⟩
  intro row hrow
  have hreads {which : UniqueWhere} {tree : ConditionTree}
      (h : which.toFilter.toTree schema sides.target = .ok tree) :=
    (UniqueWhere.reads_toFilter hs hc htarget which h [] row hrow).2 trivial
  simp only [hreads hown, hreads htree, hreads hrest]
  rw [UniqueWhere.selects_withRelation hordered, UniqueWhere.nodesSelect_key hstored.relation
    hstored.leads_back hstored.joiningColumn]
  refine ⟨.rfl, UniqueWhere.selects_without, fun hnone => ?_⟩
  rw [UniqueWhere.without_eq_self hordered hnone]

section Blog

open EntityGraph.Filter (blog blogStore postAuthor)

/-- The entity of posts. -/
def postEntity : Entity := .ofSteps "Post" Filter.postSteps

/-- Authors and their posts. -/
def authorPosts : RelationSides :=
  ⟨.ofSteps "Author" Filter.authorSteps, Filter.posts, postEntity, some postAuthor⟩

/-- The post with the key 1, provided that it is one of the author 8. -/
def postOfOtherAuthor : UniqueWhere :=
  ⟨[("author", .relation (.single "id" (.int 8))), ("id", .value (.int 1))]⟩

lemma ofField_posts : RelationSides.ofField blog (.ofSteps "Author" Filter.authorSteps) "posts" =
    .ok authorPosts := rfl

lemma fits_postOfOtherAuthor : postOfOtherAuthor.Fits blog postEntity := by
  have hkey : (Entity.ofSteps "Author" Filter.authorSteps).columnName "id" = .ok "id" := rfl
  have hid : postEntity.columnName "id" = .ok "id" := rfl
  have hauthor := UniqueNode.Fits.relation Filter.relation_postAuthor
    Filter.targetEntity_postAuthor (UniqueWhere.fits_single hkey (.int 8))
  exact .intro (List.forall_mem_cons.mpr ⟨hauthor, List.forall_mem_singleton.mpr (.value hid)⟩)

lemma ascending_postOfOtherAuthor : Table.Ascending postOfOtherAuthor.nodes := by
  show List.Pairwise (· < ·) ["author", "id"]
  decide

/-- For the author 1 the post of the author 8 is the post 1 of the author 1. -/
theorem RelatedRow.pointingHere_holds_iff_otherAuthor :
    ∃ filter joining here own tree rest, postOfOtherAuthor.expand postEntity = .ok filter ∧
      postAuthor.joiningColumn? = some joining ∧
      (pointingHere ⟨authorPosts, .int 1⟩ postAuthor postOfOtherAuthor).expand postEntity =
        .ok here ∧
      filter.toTree blog postEntity = .ok own ∧ here.toTree blog postEntity = .ok tree ∧
      (postOfOtherAuthor.without "author").toFilter.toTree blog postEntity = .ok rest ∧
      ∀ row ∈ blogStore.rows "post",
        (tree.truth? blogStore [("post", row)] = some .holds ↔
          rest.truth? blogStore [("post", row)] = some .holds ∧
            row.Has joining.columnName (.int 1)) := by
  have hschema := Schema.wellFormed_of_build Filter.build_blog
  have hauthor : blog.Declares (.ofSteps "Author" Filter.authorSteps) :=
    hschema.declares (show blog.entity "Author" = _ from rfl)
  have hexpand : postOfOtherAuthor.expand postEntity = .ok postOfOtherAuthor.toFilter := rfl
  obtain ⟨joining, here, own, tree, rest, hjoining, hhere, hown, htree, hrest, hrows⟩ :=
    pointingHere_holds_iff hschema Filter.hasColumns_blogStore hauthor ofField_posts (.inl rfl) rfl
      fits_postOfOtherAuthor ascending_postOfOtherAuthor hexpand (.int 1)
  exact ⟨_, joining, here, own, tree, rest, hexpand, hjoining, hhere, hown, htree, hrest,
    fun row hrow => (hrows row hrow).1⟩

/-- The post of the author 1 is not the one that was asked for: it is addressed by the unique where
that is to point at the author 1, and not by the unique where itself, which names the author 8. -/
theorem own_constraint_dropped :
    let row : Row := [("id", .int 1), ("title", .string "a"), ("author_id", .int 1)]
    blogStore.HasColumns blog ∧
      RelationSides.ofField blog (.ofSteps "Author" Filter.authorSteps) "posts" = .ok authorPosts ∧
      authorPosts.kind = .oneHasMany ∧ authorPosts.pair = .ok postAuthor ∧
      postOfOtherAuthor.Fits blog postEntity ∧ Table.Ascending postOfOtherAuthor.nodes ∧
      row ∈ blogStore.rows "post" ∧
      ∃ filter here own tree, postOfOtherAuthor.expand postEntity = .ok filter ∧
        (RelatedRow.pointingHere ⟨authorPosts, .int 1⟩ postAuthor postOfOtherAuthor).expand
          postEntity = .ok here ∧
        filter.toTree blog postEntity = .ok own ∧ here.toTree blog postEntity = .ok tree ∧
        ¬ (tree.truth? blogStore [("post", row)] = some .holds ↔
          own.truth? blogStore [("post", row)] = some .holds ∧ row.Has "author_id" (.int 1)) := by
  intro row
  have hrow : row ∈ blogStore.rows "post" := List.mem_cons_self
  have hown : postOfOtherAuthor.toFilter.toTree blog postEntity =
      .ok (Filter.together [(Condition.compare .equal (.int 8)).toTree (Sql.column "author_id"),
        (Condition.compare .equal (.int 1)).toTree (Sql.column "id")]) := rfl
  have hhere : (RelatedRow.pointingHere ⟨authorPosts, .int 1⟩ postAuthor
      postOfOtherAuthor).toFilter.toTree blog postEntity =
      .ok (Filter.together [(Condition.compare .equal (.int 1)).toTree (Sql.column "author_id"),
        (Condition.compare .equal (.int 1)).toTree (Sql.column "id")]) := rfl
  refine ⟨Filter.hasColumns_blogStore, ofField_posts, rfl, rfl, fits_postOfOtherAuthor,
    ascending_postOfOtherAuthor, hrow, _, _, _, _, rfl, rfl, hown, hhere, fun hiff => ?_⟩
  have hfails : (Filter.together
      [(Condition.compare .equal (.int 8)).toTree (Sql.column "author_id"),
        (Condition.compare .equal (.int 1)).toTree (Sql.column "id")]).truth? blogStore
      [("post", row)] ≠ some .holds := by decide
  exact hfails (hiff.mp (by decide)).1

end Blog

end Mutation

end EntityGraph
