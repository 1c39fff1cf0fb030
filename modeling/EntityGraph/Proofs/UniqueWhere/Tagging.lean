import EntityGraph.Proofs.UniqueWhere.Assignment
import EntityGraph.Proofs.Value.Tagging
import EntityGraph.UniqueWhere.Json
/-!
# The tagged form of unique wheres

A value with a tag is written like a nested unique where with the tag for its only field. Where no
nested unique where imitates a value of the other side, the canonical tagged form is the same
document exactly for unique wheres that are the same.
-/
namespace EntityGraph.UniqueWhere

mutual
/-- Whether the nodes are in order at every depth. -/
def Ordered : UniqueWhere → Prop
  | ⟨nodes⟩ => Table.Ascending nodes ∧ NodesOrdered nodes
termination_by structural which => which

def NodesOrdered : List (String × UniqueNode) → Prop
  | [] => True
  | (_, .value _) :: rest => NodesOrdered rest
  | (_, .relation nested) :: rest => Ordered nested ∧ NodesOrdered rest
termination_by structural nodes => nodes
end

/-- What stands under the name of a node. -/
def nodeJson : UniqueNode → Json
  | .value value => value.toTaggedJson
  | .relation nested => nested.toTaggedJson

lemma toTaggedJson_eq (which : UniqueWhere) : which.toTaggedJson =
    .object (which.nodes.map fun pair => (pair.1, nodeJson pair.2)) := by
  obtain ⟨nodes⟩ := which
  rw [toTaggedJson, toJsonWith]
  congr 1
  induction nodes with
  | nil => rfl
  | cons pair rest ih =>
    obtain ⟨name, node⟩ := pair
    cases node <;> simp [nodesToJsonWith, nodeJson, toTaggedJson, ih]

/-! ### Imitations -/

/-- The unique where that is written like a value: the tag of the value for the only field. -/
def imitation? : Value → Option UniqueWhere
  | .uuid id => some (single "uuid" (.string id.text))
  | .float d => some (single "float" (.string d.normalize.text))
  | .literal word => some (single "literal" (.string word))
  | _ => none

mutual
/-- At one path, the first has a value and the second the nested unique where that imitates it. -/
inductive Clashes : UniqueWhere → UniqueWhere → Prop
  | intro {which other : UniqueWhere} {name : String} {node node' : UniqueNode}
      (h : (name, node) ∈ which.nodes) (h' : (name, node') ∈ other.nodes)
      (hclash : NodesClash node node') : Clashes which other

inductive NodesClash : UniqueNode → UniqueNode → Prop
  | imitation {value : Value} {nested : UniqueWhere} (h : imitation? value = some nested) :
      NodesClash (.value value) (.relation nested)
  | relation {nested nested' : UniqueWhere} (h : Clashes nested nested') :
      NodesClash (.relation nested) (.relation nested')
end

/-- The canonical forms of the nodes, under their names. -/
def canonicalNodes (nodes : List (String × UniqueNode)) : Table Json :=
  nodes.map fun pair => (pair.1, (nodeJson pair.2).canonical)

variable {which other : UniqueWhere}

lemma Ordered.ascending (h : which.Ordered) : Table.Ascending which.nodes := by
  cases which
  exact h.1

lemma Ordered.nodes (h : which.Ordered) : NodesOrdered which.nodes := by
  cases which
  exact h.2

/-- What is in order is in order in the canonical form. -/
lemma canonical_toTaggedJson (h : which.Ordered) :
    which.toTaggedJson.canonical = .object (canonicalNodes which.nodes) := by
  have hascending : (canonicalNodes which.nodes).Ascending := by
    rw [Table.Ascending, canonicalNodes, Table.keys_map fun node => (nodeJson node).canonical]
    exact h.ascending
  rw [toTaggedJson_eq, Json.canonical]
  congr 1
  apply Table.ext_of_ascending (Json.ascending_canonicalMembers _) hascending
  intro key
  rw [Json.find?_canonicalMembers, Table.find?_map, canonicalNodes,
    Table.find?_map fun node => (nodeJson node).canonical, Option.map_map]
  rfl

/-- Only a value without a tag is written as a text. -/
lemma eq_string_of_nodeJson {node : UniqueNode} {text : String}
    (h : (nodeJson node).canonical = .string text) : node = .value (.string text) := by
  cases node with
  | value value =>
    rw [nodeJson, Value.canonical_toTaggedJson] at h
    cases value <;> simp_all [Value.toTaggedJson, Json.integer]
  | relation nested =>
    rw [nodeJson, toTaggedJson_eq, Json.canonical] at h
    exact absurd h (by simp)

lemma eq_single_of_canonical {tag text : String} (h : which.Ordered)
    (hjson : which.toTaggedJson.canonical = .object [(tag, .string text)]) :
    which = single tag (.string text) := by
  rw [canonical_toTaggedJson h, Json.object.injEq] at hjson
  obtain ⟨⟨name, node⟩, hnodes, hpair⟩ := List.map_eq_singleton_iff.mp hjson
  obtain ⟨rfl, hnode⟩ := Prod.mk.inj hpair
  obtain rfl : node = .value (.string text) := eq_string_of_nodeJson hnode
  obtain ⟨nodes⟩ := which
  exact congrArg UniqueWhere.mk hnodes

/-- A nested unique where is written like a value only if it imitates the value. -/
lemma imitation?_of_canonical_eq {value : Value} {nested : UniqueWhere} (hn : nested.Ordered)
    (h : value.toTaggedJson = nested.toTaggedJson.canonical) :
    imitation? value = some nested := by
  cases value with
  | uuid id => exact congrArg some (eq_single_of_canonical hn h.symm).symm
  | float d => exact congrArg some (eq_single_of_canonical hn h.symm).symm
  | literal word => exact congrArg some (eq_single_of_canonical hn h.symm).symm
  | _ =>
    rw [canonical_toTaggedJson hn] at h
    exact absurd h (by simp [Value.toTaggedJson, Json.integer])

mutual
theorem equal_of_canonical_eq {which other : UniqueWhere} (hw : which.Ordered) (ho : other.Ordered)
    (hclash : ¬Clashes which other) (hclash' : ¬Clashes other which)
    (h : which.toTaggedJson.canonical = other.toTaggedJson.canonical) : which.equal other := by
  rw [canonical_toTaggedJson hw, canonical_toTaggedJson ho, Json.object.injEq] at h
  have hnodes := hw.nodes
  have hothers := ho.nodes
  obtain ⟨nodes⟩ := which
  obtain ⟨others⟩ := other
  refine equalNodes_of_canonicalNodes_eq hnodes hothers ?_ h
  intro name node node' hnode hnode'
  exact ⟨fun hc => hclash (.intro hnode hnode' hc), fun hc => hclash' (.intro hnode' hnode hc)⟩
termination_by structural which

theorem equalNodes_of_canonicalNodes_eq {nodes others : List (String × UniqueNode)}
    (hn : NodesOrdered nodes) (ho : NodesOrdered others)
    (hclash : ∀ name node node', (name, node) ∈ nodes → (name, node') ∈ others →
      ¬NodesClash node node' ∧ ¬NodesClash node' node)
    (h : canonicalNodes nodes = canonicalNodes others) : equalNodes nodes others := by
  cases nodes with
  | nil =>
    cases others with
    | nil => rfl
    | cons pair others => simp [canonicalNodes] at h
  | cons pair rest =>
    obtain ⟨name, node⟩ := pair
    cases others with
    | nil => simp [canonicalNodes] at h
    | cons other others =>
      obtain ⟨name', node'⟩ := other
      simp only [canonicalNodes, List.map_cons, List.cons.injEq, Prod.mk.injEq] at h
      obtain ⟨⟨rfl, hnode⟩, hrest⟩ := h
      obtain ⟨hapart, hapart'⟩ := hclash name node node' List.mem_cons_self List.mem_cons_self
      have hbelow : ∀ name node node', (name, node) ∈ rest → (name, node') ∈ others →
          ¬NodesClash node node' ∧ ¬NodesClash node' node := fun _ _ _ hmem hmem' =>
        hclash _ _ _ (List.mem_cons_of_mem _ hmem) (List.mem_cons_of_mem _ hmem')
      cases node with
      | value value =>
        cases node' with
        | value value' =>
          have hequal : value.equal value' := by
            simpa [nodeJson, Value.toTaggedJson_eq_iff] using hnode
          have hothers : equalNodes rest others := equalNodes_of_canonicalNodes_eq hn ho
            hbelow hrest
          simp [equalNodes, hequal, hothers]
        | relation nested' =>
          rw [nodeJson, nodeJson, Value.canonical_toTaggedJson] at hnode
          exact absurd (.imitation (imitation?_of_canonical_eq ho.1 hnode)) hapart
      | relation nested =>
        cases node' with
        | value value' =>
          rw [nodeJson, nodeJson, Value.canonical_toTaggedJson] at hnode
          exact absurd (.imitation (imitation?_of_canonical_eq hn.1 hnode.symm)) hapart'
        | relation nested' =>
          have hequal := equal_of_canonical_eq hn.1 ho.1 (fun hc => hapart (.relation hc))
            (fun hc => hapart' (.relation hc)) hnode
          have hothers := equalNodes_of_canonicalNodes_eq hn.2 ho.2 hbelow hrest
          simp [equalNodes, hequal, hothers]
termination_by structural nodes
end

mutual
theorem toTaggedJson_eq_of_equal {which other : UniqueWhere} (h : which.equal other) :
    which.toTaggedJson = other.toTaggedJson := by
  rw [toTaggedJson_eq, toTaggedJson_eq]
  obtain ⟨nodes⟩ := which
  obtain ⟨others⟩ := other
  exact congrArg Json.object (nodesToJson_eq_of_equal h)
termination_by structural which

theorem nodesToJson_eq_of_equal {nodes others : List (String × UniqueNode)}
    (h : equalNodes nodes others) : (nodes.map fun pair => (pair.1, nodeJson pair.2)) =
      others.map fun pair => (pair.1, nodeJson pair.2) := by
  cases nodes with
  | nil =>
    cases others with
    | nil => rfl
    | cons pair others => simp [equalNodes] at h
  | cons pair rest =>
    obtain ⟨name, node⟩ := pair
    cases others with
    | nil => cases node <;> simp [equalNodes] at h
    | cons other others =>
      obtain ⟨name', node'⟩ := other
      cases node with
      | value value =>
        cases node' with
        | relation nested' => simp [equalNodes] at h
        | value value' =>
          simp only [equalNodes, Bool.and_eq_true, decide_eq_true_eq] at h
          obtain ⟨⟨rfl, hvalue⟩, hrest⟩ := h
          rw [List.map_cons, List.map_cons, nodesToJson_eq_of_equal hrest, nodeJson, nodeJson,
            (value.toTaggedJson_eq_iff value').mpr hvalue]
      | relation nested =>
        cases node' with
        | value value' => simp [equalNodes] at h
        | relation nested' =>
          simp only [equalNodes, Bool.and_eq_true, decide_eq_true_eq] at h
          obtain ⟨⟨rfl, hnested⟩, hrest⟩ := h
          rw [List.map_cons, List.map_cons, nodesToJson_eq_of_equal hrest, nodeJson, nodeJson,
            toTaggedJson_eq_of_equal hnested]
termination_by structural nodes
end

/-- A tagged value in a list, which no nested unique where is. -/
def boxed (value : Value) : Json := .array [value.toTaggedJson]

mutual
/-- With its values boxed, a unique where is the same document exactly for those that are the
same. -/
theorem toJsonWith_boxed_eq_iff (which other : UniqueWhere) :
    which.toJsonWith boxed = other.toJsonWith boxed ↔ which.equal other := by
  obtain ⟨nodes⟩ := which
  obtain ⟨others⟩ := other
  rw [toJsonWith, toJsonWith, Json.object.injEq, equal]
  exact nodesToJsonWith_boxed_eq_iff nodes others
termination_by structural which

theorem nodesToJsonWith_boxed_eq_iff (nodes others : List (String × UniqueNode)) :
    nodesToJsonWith boxed nodes = nodesToJsonWith boxed others ↔ equalNodes nodes others := by
  match nodes with
  | [] =>
    match others with
    | [] | (_, .value _) :: _ | (_, .relation _) :: _ => simp [nodesToJsonWith, equalNodes]
  | (name, .value value) :: rest =>
    match others with
    | [] => simp [nodesToJsonWith, equalNodes]
    | (name', .value value') :: others =>
      have hrest := nodesToJsonWith_boxed_eq_iff rest others
      simp [nodesToJsonWith, equalNodes, boxed, Value.toTaggedJson_eq_iff, hrest]
    | (name', .relation ⟨_⟩) :: others => simp [nodesToJsonWith, toJsonWith, equalNodes, boxed]
  | (name, .relation nested) :: rest =>
    match others with
    | [] => simp [nodesToJsonWith, equalNodes]
    | (name', .value value') :: others =>
      obtain ⟨inner⟩ := nested
      simp [nodesToJsonWith, toJsonWith, equalNodes, boxed]
    | (name', .relation nested') :: others =>
      have hnested := toJsonWith_boxed_eq_iff nested nested'
      have hrest := nodesToJsonWith_boxed_eq_iff rest others
      simp [nodesToJsonWith, equalNodes, hnested, hrest]
termination_by structural nodes
end

mutual
/-- Doubles are left out of the tagged form. -/
lemma isExact_toTaggedJson (which : UniqueWhere) : which.toTaggedJson.IsExact := by
  obtain ⟨nodes⟩ := which
  exact membersExact_nodesToJson nodes
termination_by structural which

lemma membersExact_nodesToJson (nodes : List (String × UniqueNode)) :
    Json.MembersExact (nodesToJsonWith Value.toTaggedJson nodes) := by
  cases nodes with
  | nil => trivial
  | cons pair rest =>
    obtain ⟨name, node⟩ := pair
    cases node with
    | value value => exact ⟨value.isExact_toTaggedJson, membersExact_nodesToJson rest⟩
    | relation nested => exact ⟨isExact_toTaggedJson nested, membersExact_nodesToJson rest⟩
termination_by structural nodes
end

/-! ### What assignments make is in order -/

lemma nodesOrdered_iff {nodes : List (String × UniqueNode)} :
    NodesOrdered nodes ↔ ∀ name nested, (name, .relation nested) ∈ nodes → nested.Ordered := by
  induction nodes with
  | nil => simp [NodesOrdered]
  | cons pair rest ih =>
    obtain ⟨name, node⟩ := pair
    cases node with
    | value value => simp [NodesOrdered, ih]
    | relation nested =>
      rw [NodesOrdered, ih]
      constructor
      · rintro ⟨hfirst, hrest⟩ other inner hmem
        rcases List.mem_cons.mp hmem with heq | hmem
        · cases heq
          exact hfirst
        · exact hrest other inner hmem
      · intro h
        exact ⟨h name nested List.mem_cons_self, fun other inner hmem =>
          h other inner (List.mem_cons_of_mem _ hmem)⟩

lemma ordered_empty : empty.Ordered := ⟨Table.ascending_nil, trivial⟩

lemma Ordered.nested (h : which.Ordered) {name : String} {nested : UniqueWhere}
    (hmem : (name, .relation nested) ∈ which.nodes) : nested.Ordered :=
  nodesOrdered_iff.mp h.nodes name nested hmem

lemma Ordered.withValue (h : which.Ordered) (field : String) (value : Value) :
    (which.withValue field value).Ordered := by
  refine ⟨h.ascending.insert field _, nodesOrdered_iff.mpr fun name nested hmem => ?_⟩
  rcases Table.mem_insert hmem with heq | hmem
  · cases heq
  · exact h.nested hmem

lemma Ordered.withRelation (h : which.Ordered) (field : String) {nested : UniqueWhere}
    (hn : nested.Ordered) : (which.withRelation field nested).Ordered := by
  refine ⟨h.ascending.insert field _, nodesOrdered_iff.mpr fun name inner hmem => ?_⟩
  rcases Table.mem_insert hmem with heq | hmem
  · cases heq
    exact hn
  · exact h.nested hmem

lemma Ordered.nestedAt (h : which.Ordered) (field : String) : (which.nestedAt field).Ordered := by
  unfold UniqueWhere.nestedAt
  split
  · rename_i nested hfind
    exact h.nested (Table.mem_of_find? hfind)
  · exact ordered_empty

lemma Ordered.graft (h : which.Ordered) (value : Value) (path : List String) :
    (which.graft value path).Ordered := by
  induction path generalizing which with
  | nil => exact h
  | cons step rest ih =>
    cases rest with
    | nil => exact h.withValue step value
    | cons next rest => exact h.withRelation step (ih (h.nestedAt step))

lemma ordered_ofLeaves (leaves : List (List String × Value)) : (ofLeaves leaves).Ordered := by
  have hfold (which : UniqueWhere) (h : which.Ordered) :
      (leaves.foldl (fun which leaf => which.graft leaf.2 leaf.1) which).Ordered := by
    induction leaves generalizing which with
    | nil => exact h
    | cons leaf rest ih => exact ih _ (h.graft leaf.2 leaf.1)
  exact hfold empty ordered_empty

end EntityGraph.UniqueWhere
