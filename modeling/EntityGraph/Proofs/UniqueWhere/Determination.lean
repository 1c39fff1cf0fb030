import EntityGraph.UniqueWhere.Key
import EntityGraph.Proofs.Filter.Meaning
/-!
How many rows a unique where selects. A where that fixes every field of a unique key, be it through
the keys of related rows, selects at most one row; covering a key is not enough, since a relation
in the key may lead to several rows.
-/
namespace EntityGraph.UniqueWhere

open Sql (ConditionTree)

variable {schema : Schema} {store : Store}

section Selection

variable (schema : Schema) (store : Store)

mutual
/-- Whether the condition of a unique where holds of a row. A relation whose target is given by its
key alone compares the joining column with that key. -/
def Selects (entity : Entity) (row : Row) : UniqueWhere → Prop
  | ⟨nodes⟩ => NodesSelect entity row nodes
termination_by structural which => which

def NodesSelect (entity : Entity) (row : Row) : List (String × UniqueNode) → Prop
  | [] => True
  | (name, .value value) :: rest =>
    (∃ column found, entity.columnName name = .ok column ∧ row.find? column = some found ∧
      Comparison.equal.test found value = .holds) ∧ NodesSelect entity row rest
  | (name, .relation nested) :: rest =>
    (∃ relation target, entity.relation name = .ok relation ∧
      schema.targetEntity relation = .ok target ∧
      match relation.joiningColumn?, Filter.onKeyOnly? target nested.toFilter with
      | some joining, some condition =>
        ∃ found, row.find? joining.columnName = some found ∧ condition.truth found = .holds
      | _, _ => ∃ other ∈ store.rows target.tableName,
        relation.Linked schema store entity target row other ∧ Selects target other nested) ∧
    NodesSelect entity row rest
termination_by structural nodes => nodes
end

end Selection

mutual
theorem reads_toFilter (hs : schema.WellFormed) (hc : store.HasColumns schema) {name : String}
    {entity : Entity} (he : schema.entity name = .ok entity) (which : UniqueWhere)
    {tree : ConditionTree} (h : which.toFilter.toTree schema entity = .ok tree) :
    Filter.Reads store entity.tableName True tree fun row =>
      Selects schema store entity row which := by
  obtain ⟨nodes⟩ := which
  rw [toFilter, Filter.ofFields, Filter.empty, Filter.toTree_eq] at h
  have hfields : Filter.fieldTrees schema entity (nodesToFields nodes) >>=
      (fun each => .ok (Filter.together each)) = .ok tree := h
  obtain ⟨trees, htrees, heq⟩ := Except.bind_eq_ok.mp hfields
  cases heq
  exact (readTogether_nodesToFields hs hc he nodes htrees).together
termination_by structural which

theorem readTogether_nodesToFields (hs : schema.WellFormed) (hc : store.HasColumns schema)
    {name : String} {entity : Entity} (he : schema.entity name = .ok entity)
    (nodes : List (String × UniqueNode)) {trees : List ConditionTree}
    (h : Filter.fieldTrees schema entity (nodesToFields nodes) = .ok trees) :
    Filter.ReadTogether store entity.tableName True trees
      fun row => NodesSelect schema store entity row nodes := by
  match nodes with
  | [] =>
    cases h
    exact Filter.readTogether_nil fun _ => trivial
  | (field, .value value) :: rest =>
    rw [nodesToFields, Filter.fieldTrees] at h
    obtain ⟨column, hcolumn, h⟩ := Except.bind_eq_ok.mp h
    obtain ⟨others, hothers, h⟩ := Except.bind_eq_ok.mp h
    cases h
    have hvalue : ∀ row ∈ store.rows entity.tableName, ∃ found, row.find? column = some found :=
      fun row hrow => hc.field he row hrow hcolumn
    refine Filter.Reads.cons
      ((Filter.reads_column hvalue (.compare .equal value)).congr fun row => ?_)
      (readTogether_nodesToFields hs hc he rest hothers)
    simp only [hcolumn, Except.ok.injEq, exists_and_left, exists_eq_left', Condition.truth]
  | (field, .relation nested) :: rest =>
    rw [nodesToFields, Filter.fieldTrees] at h
    obtain ⟨relation, hrelation, h⟩ := Except.bind_eq_ok.mp h
    obtain ⟨target, htarget, h⟩ := Except.bind_eq_ok.mp h
    obtain ⟨tree, htree, h⟩ := Except.bind_eq_ok.mp h
    obtain ⟨others, hothers, h⟩ := Except.bind_eq_ok.mp h
    cases h
    refine Filter.Reads.cons ?_ (readTogether_nodesToFields hs hc he rest hothers)
    have hread : Filter.Reads store entity.tableName True tree fun row =>
        match relation.joiningColumn?, Filter.onKeyOnly? target nested.toFilter with
        | some joining, some condition =>
          ∃ found, row.find? joining.columnName = some found ∧ condition.truth found = .holds
        | _, _ => ∃ other ∈ store.rows target.tableName,
          relation.Linked schema store entity target row other ∧
            Selects schema store target other nested := by
      split
      · next joining condition hj hkey =>
        rw [Filter.relationTree_of_joining (hs.wellFormed he) hrelation hj, hkey] at htree
        cases htree
        have hcolumn := Entity.columnName_of_relation hrelation hj
        exact Filter.reads_column (fun row hrow => hc.field he row hrow hcolumn) condition
      · next hneither =>
        refine Filter.reads_relationTree (fun _ => hs) hc he hrelation htarget htree
          (fun inner hinner => reads_toFilter hs hc htarget nested hinner) ?_
        intro condition hkey hjoining
        rw [← Relation.joiningColumn?_isSome, Option.isSome_iff_exists] at hjoining
        obtain ⟨joining, hj⟩ := hjoining
        exact absurd hkey (hneither joining condition hj)
    refine hread.congr fun row => ?_
    simp only [hrelation, Except.ok.injEq, exists_and_left, exists_eq_left', htarget]
termination_by structural nodes
end

section Determination

variable (schema : Schema)

/-- The target of a relation of one of some kinds. -/
def targetOver? (entity : Entity) (name : String) (kinds : RelationKind → Bool) : Option Entity :=
  match entity.relation name with
  | .ok relation => if kinds relation.kind then (schema.targetEntity relation).toOption else none
  | .error _ => none

mutual
/-- Whether a unique where fixes every field of a unique key, or leads through the inverse of a
has-one relation to a row that is fixed, which points at one row only. -/
def determines (entity : Entity) : UniqueWhere → Bool
  | ⟨nodes⟩ => (entity.uniqueKeys.any fun key => key.all (fixedFields entity nodes).contains) ||
    leadsBack entity nodes
termination_by structural which => which

/-- The fields whose columns are equal in all selected rows. -/
def fixedFields (entity : Entity) : List (String × UniqueNode) → List String
  | [] => []
  | (name, .value _) :: rest => name :: fixedFields entity rest
  | (name, .relation nested) :: rest =>
    if (targetOver? schema entity name RelationKind.hasJoiningColumn).any fun target =>
      determines target nested then name :: fixedFields entity rest else fixedFields entity rest
termination_by structural nodes => nodes

def leadsBack (entity : Entity) : List (String × UniqueNode) → Bool
  | [] => false
  | (_, .value _) :: rest => leadsBack entity rest
  | (name, .relation nested) :: rest =>
    ((targetOver? schema entity name fun kind => kind.opposite.hasJoiningColumn).any fun target =>
      determines target nested) || leadsBack entity rest
termination_by structural nodes => nodes
end

end Determination

lemma targetOver?_eq_some {entity target : Entity} {name : String} {kinds : RelationKind → Bool}
    (h : targetOver? schema entity name kinds = some target) :
    ∃ relation, entity.relation name = .ok relation ∧ kinds relation.kind ∧
      schema.targetEntity relation = .ok target := by
  unfold targetOver? at h
  split at h
  · next relation hrelation =>
    split at h
    · next hkind =>
      refine ⟨relation, hrelation, hkind, ?_⟩
      cases htarget : schema.targetEntity relation with
      | error e => simp [htarget, Except.toOption] at h
      | ok found =>
        rw [htarget] at h
        cases h
        rfl
    · contradiction
  · contradiction

/-- The only condition of a unique where is equality with a value. -/
lemma onKeyOnly?_toFilter {target : Entity} {nested : UniqueWhere} {condition : Condition}
    (h : Filter.onKeyOnly? target nested.toFilter = some condition) :
    ∃ value, condition = .compare .equal value := by
  have heq := Filter.onKeyOnly?_eq_some h
  obtain ⟨nodes⟩ := nested
  rw [toFilter, Filter.onColumn] at heq
  have hnodes : nodesToFields nodes = [(target.primary, .condition condition)] := by
    injection heq
  cases nodes with
  | nil => contradiction
  | cons node rest =>
    obtain ⟨field, node⟩ := node
    cases node with
    | value value =>
      rw [nodesToFields] at hnodes
      injection hnodes with hfirst
      injection hfirst with _ hcondition
      injection hcondition with hcondition
      exact ⟨value, hcondition.symm⟩
    | relation _ =>
      rw [nodesToFields] at hnodes
      injection hnodes with hfirst
      injection hfirst with _ hcondition
      contradiction

/-- Two rows that agree with one row agree with each other. -/
lemma agree_of_equal {row other : Row} {column : String} {value : Value} {a b : Value}
    (ha : row.find? column = some a) (hb : other.find? column = some b)
    (hav : Comparison.equal.test a value = .holds) (hbv : Comparison.equal.test b value = .holds) :
    row.Agree column other column :=
  ⟨a, b, ha, hb, Comparison.equal_test_trans hav (Comparison.equal_test_comm.mp hbv)⟩

variable {name : String} {entity : Entity} {row other : Row}

mutual
/-- Any two rows that a determining where selects agree on a unique key. -/
theorem identified_of_determines (hs : schema.WellFormed) (hu : store.KeysUnique schema)
    {name : String} {entity : Entity} (he : schema.entity name = .ok entity) (which : UniqueWhere)
    (hd : which.determines schema entity) {row other : Row}
    (hrow : Selects schema store entity row which)
    (hother : Selects schema store entity other which) : entity.Identified row other := by
  obtain ⟨nodes⟩ := which
  rw [determines, Bool.or_eq_true, List.any_eq_true] at hd
  rcases hd with ⟨key, hkey, hall⟩ | hback
  · rw [List.all_eq_true] at hall
    refine .inr ⟨key, hkey, fun field hfield => ?_⟩
    exact agree_of_mem_fixedFields hs hu he nodes
      (by simpa using hall field hfield) hrow hother
  · exact .inl (agree_of_leadsBack hs hu he nodes hback hrow hother)
termination_by structural which

theorem agree_of_mem_fixedFields (hs : schema.WellFormed) (hu : store.KeysUnique schema)
    {name : String} {entity : Entity} (he : schema.entity name = .ok entity)
    (nodes : List (String × UniqueNode)) {field : String}
    (hf : field ∈ fixedFields schema entity nodes) {row other : Row}
    (hrow : NodesSelect schema store entity row nodes)
    (hother : NodesSelect schema store entity other nodes) :
    ∃ column, entity.columnName field = .ok column ∧ row.Agree column other column := by
  match nodes with
  | [] => simp [fixedFields] at hf
  | (first, .value value) :: rest =>
    rw [fixedFields, List.mem_cons] at hf
    rcases hf with rfl | hf
    · obtain ⟨column, a, hcolumn, ha, hav⟩ := hrow.1
      obtain ⟨column', b, hcolumn', hb, hbv⟩ := hother.1
      cases hcolumn.symm.trans hcolumn'
      exact ⟨column, hcolumn, agree_of_equal ha hb hav hbv⟩
    · exact agree_of_mem_fixedFields hs hu he rest hf hrow.2 hother.2
  | (first, .relation nested) :: rest =>
    rw [fixedFields] at hf
    split at hf
    · next hreached =>
      rcases List.mem_cons.mp hf with rfl | hf
      · rw [Option.any_eq_true] at hreached
        obtain ⟨target, htarget, hd⟩ := hreached
        obtain ⟨relation, hrelation, hkind, htarget⟩ := targetOver?_eq_some htarget
        rw [← Relation.joiningColumn?_isSome, Option.isSome_iff_exists] at hkind
        obtain ⟨joining, hj⟩ := hkind
        obtain ⟨⟨_, _, hr, ht, hrow⟩, -⟩ := hrow
        obtain ⟨⟨_, _, hr', ht', hother⟩, -⟩ := hother
        cases hrelation.symm.trans hr
        cases hrelation.symm.trans hr'
        cases htarget.symm.trans ht
        cases htarget.symm.trans ht'
        refine ⟨joining.columnName, Entity.columnName_of_relation hrelation hj, ?_⟩
        rw [hj] at hrow hother
        cases hkey : Filter.onKeyOnly? target nested.toFilter with
        | some condition =>
          rw [hkey] at hrow hother
          obtain ⟨value, rfl⟩ := onKeyOnly?_toFilter hkey
          obtain ⟨a, ha, hav⟩ := hrow
          obtain ⟨b, hb, hbv⟩ := hother
          exact agree_of_equal ha hb hav hbv
        | none =>
          rw [hkey] at hrow hother
          obtain ⟨o, ho, hlink, hselect⟩ := hrow
          obtain ⟨o', ho', hlink', hselect'⟩ := hother
          rw [Relation.linked_iff_of_joining hj] at hlink hlink'
          cases hu.eq_of_identified htarget ho ho'
            (identified_of_determines hs hu htarget nested hd hselect hselect')
          exact hlink.trans (Row.agree_comm.mp hlink')
      · exact agree_of_mem_fixedFields hs hu he rest hf hrow.2 hother.2
    · exact agree_of_mem_fixedFields hs hu he rest hf hrow.2 hother.2
termination_by structural nodes

theorem agree_of_leadsBack (hs : schema.WellFormed) (hu : store.KeysUnique schema)
    {name : String} {entity : Entity} (he : schema.entity name = .ok entity)
    (nodes : List (String × UniqueNode)) (hb : leadsBack schema entity nodes) {row other : Row}
    (hrow : NodesSelect schema store entity row nodes)
    (hother : NodesSelect schema store entity other nodes) :
    row.Agree entity.primaryColumn other entity.primaryColumn := by
  match nodes with
  | [] => contradiction
  | (first, .value value) :: rest => exact agree_of_leadsBack hs hu he rest hb hrow.2 hother.2
  | (first, .relation nested) :: rest =>
    rw [leadsBack, Bool.or_eq_true, Option.any_eq_true] at hb
    rcases hb with ⟨target, htarget, hd⟩ | hb
    · obtain ⟨relation, hrelation, hkind, htarget⟩ := targetOver?_eq_some htarget
      obtain ⟨⟨_, _, hr, ht, hrow⟩, -⟩ := hrow
      obtain ⟨⟨_, _, hr', ht', hother⟩, -⟩ := hother
      cases hrelation.symm.trans hr
      cases hrelation.symm.trans hr'
      cases htarget.symm.trans ht
      cases htarget.symm.trans ht'
      have hinverse : relation.kind = .oneHasMany ∨ relation.kind = .oneHasOneInverse := by
        cases hk : relation.kind <;> simp [hk, RelationKind.opposite,
          RelationKind.hasJoiningColumn] at hkind ⊢
      have hnone : relation.joiningColumn? = none := by
        rw [← Option.not_isSome_iff_eq_none, Relation.joiningColumn?_isSome]
        rcases hinverse with hk | hk <;> simp [hk, RelationKind.hasJoiningColumn]
      have hnot : relation.kind.isOwning = false := by
        rcases hinverse with hk | hk <;> rw [hk] <;> rfl
      obtain ⟨owning, joining, -, howning, hj, -⟩ :=
        Filter.joining_of_inverse hs he hrelation htarget hinverse
      rw [hnone] at hrow hother
      obtain ⟨o, ho, hlink, hselect⟩ := hrow
      obtain ⟨o', ho', hlink', hselect'⟩ := hother
      rw [Relation.linked_iff_of_inverse hnot howning (Relation.isOwning_of_joining hj),
        Relation.linked_iff_of_joining hj] at hlink hlink'
      cases hu.eq_of_identified htarget ho ho'
        (identified_of_determines hs hu htarget nested hd hselect hselect')
      exact (Row.agree_comm.mp hlink).trans hlink'
    · exact agree_of_leadsBack hs hu he rest hb hrow.2 hother.2
termination_by structural nodes
end

/-- A unique where that covers a key and determines its rows selects at most one row of a database
whose keys are unique. -/
theorem length_selected_le_one (hs : schema.WellFormed) (hc : store.HasColumns schema)
    (hu : store.KeysUnique schema) (he : schema.entity name = .ok entity) {which : UniqueWhere}
    (hd : which.determines schema entity) {filter : Filter} (hf : which.expand entity = .ok filter)
    {tree : ConditionTree} (ht : filter.toTree schema entity = .ok tree) :
    ((store.rows entity.tableName).filter fun row =>
      tree.truth? store [(entity.tableName, row)] = some .holds).length ≤ 1 := by
  have hfilter : which.toFilter = filter := by
    rw [expand] at hf
    split at hf
    · exact Except.ok.inj hf
    · contradiction
  subst hfilter
  have hread := reads_toFilter hs hc he which ht []
  have hpairwise := (hu.pairwise he).filter fun row =>
    decide (tree.truth? store [(entity.tableName, row)] = some .holds)
  by_contra hlength
  match hkept : (store.rows entity.tableName).filter fun row =>
      tree.truth? store [(entity.tableName, row)] = some .holds with
  | [] => simp [hkept] at hlength
  | [row] => simp [hkept] at hlength
  | row :: other :: rest =>
    have hselects : ∀ kept ∈ row :: other :: rest, Selects schema store entity kept which := by
      intro kept hk
      rw [← hkept, List.mem_filter] at hk
      exact ((hread kept hk.1).2 trivial).mp (by simpa using hk.2)
    rw [hkept, List.pairwise_cons] at hpairwise
    exact hpairwise.1 other List.mem_cons_self (identified_of_determines hs hu he which hd
      (hselects row List.mem_cons_self)
      (hselects other (List.mem_cons_of_mem _ List.mem_cons_self)))

def profileSteps : List EntityStep := [.oneHasOne "author" "Author" {}]

/-- Profiles, each of one author. -/
def profiles : Schema :=
  .ofDefinitions [("Author", [.column "name" .string]), ("Profile", profileSteps)]

/-- Two authors of one name, each with a profile. -/
def namesakes : Store where
  rows
    | "author" =>
      [[("id", .int 1), ("name", .string "John")], [("id", .int 2), ("name", .string "John")]]
    | "profile" =>
      [[("id", .int 1), ("author_id", .int 1)], [("id", .int 2), ("author_id", .int 2)]]
    | _ => []

lemma build_profiles :
    Schema.build [("Author", [.column "name" .string]), ("Profile", profileSteps)] =
      .ok profiles := by
  decide

lemma hasColumns_namesakes : namesakes.HasColumns profiles :=
  Store.hasColumns_of_forall_mem (by decide) (by decide)

lemma keysUnique_namesakes : namesakes.KeysUnique profiles := by decide

/-- The profile of the author with a key, with the key of the author fixed by the where. -/
theorem length_selected_le_one_profile :
    let profile := Entity.ofSteps "Profile" profileSteps
    let which : UniqueWhere := ⟨[("author", .relation (single "id" (.int 1)))]⟩
    ∃ filter tree, which.expand profile = .ok filter ∧ filter.toTree profiles profile = .ok tree ∧
      ((namesakes.rows "profile").filter fun row =>
        tree.truth? namesakes [("profile", row)] = some .holds).length ≤ 1 := by
  intro profile which
  have hprofile : profiles.entity "Profile" = .ok profile := by decide +kernel
  have hexpand : which.expand profile = .ok which.toFilter := if_pos (by decide +kernel)
  have hok : (which.toFilter.toTree profiles profile).isOk := by decide +kernel
  cases htree : which.toFilter.toTree profiles profile with
  | error e =>
    rw [htree] at hok
    contradiction
  | ok tree =>
    have hprofiles := Schema.wellFormed_of_build build_profiles
    exact ⟨_, tree, hexpand, htree, length_selected_le_one hprofiles hasColumns_namesakes
      keysUnique_namesakes hprofile (by decide +kernel) hexpand htree⟩

/-- The where of profiles whose author has a name covers a key and selects two rows, since names do
not determine authors. -/
theorem two_le_length_selected_namesakes :
    let profile := Entity.ofSteps "Profile" profileSteps
    let which : UniqueWhere := ⟨[("author", .relation (single "name" (.string "John")))]⟩
    Schema.build [("Author", [.column "name" .string]), ("Profile", profileSteps)] = .ok profiles ∧
      profiles.entity "Profile" = .ok profile ∧ namesakes.HasColumns profiles ∧
      namesakes.KeysUnique profiles ∧
      ∃ filter tree, which.expand profile = .ok filter ∧
        filter.toTree profiles profile = .ok tree ∧
        ¬ ((namesakes.rows "profile").filter fun row =>
          tree.truth? namesakes [("profile", row)] = some .holds).length ≤ 1 := by
  intro profile which
  refine ⟨build_profiles, by decide +kernel, hasColumns_namesakes, keysUnique_namesakes, ?_⟩
  have hexpand : which.expand profile = .ok which.toFilter := if_pos (by decide +kernel)
  have hcount : (match which.toFilter.toTree profiles profile with
      | .ok tree => decide (¬ ((namesakes.rows "profile").filter fun row =>
          tree.truth? namesakes [("profile", row)] = some .holds).length ≤ 1)
      | .error _ => false) = true := by
    decide +kernel
  cases htree : which.toFilter.toTree profiles profile with
  | error e => simp [htree] at hcount
  | ok tree =>
    rw [htree] at hcount
    exact ⟨_, tree, hexpand, htree, of_decide_eq_true hcount⟩

end EntityGraph.UniqueWhere
