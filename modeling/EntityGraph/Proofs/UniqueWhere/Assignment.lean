import EntityGraph.UniqueWhere
import Mathlib.Data.List.Infix
import Mathlib.Tactic.Common
/-!
# Unique wheres of leaves

Leaves can be assigned one after the other, to an empty unique where, exactly if no path is the
same as another one or leads through it. The unique where then has these leaves and no others.
-/
namespace EntityGraph

/-- Neither of two paths is the same as the other one or leads through it. -/
def Incomparable (path other : List String) : Prop := ¬ path <+: other ∧ ¬ other <+: path

lemma incomparable_cons {step : String} {path other : List String} :
    Incomparable (step :: path) (step :: other) ↔ Incomparable path other := by
  simp [Incomparable, List.cons_prefix_cons]

lemma not_incomparable_self (path : List String) : ¬ Incomparable path path := by
  simp [Incomparable]

lemma Incomparable.symm {path other : List String} (h : Incomparable path other) :
    Incomparable other path := ⟨h.2, h.1⟩

lemma incomparable_of_ne {step other : String} (h : step ≠ other) (path rest : List String) :
    Incomparable (step :: path) (other :: rest) := by
  simp [Incomparable, List.cons_prefix_cons, h, h.symm]

namespace UniqueWhere

variable {which : UniqueWhere} {field other : String} {value : Value}

@[simp] lemma get?_empty (field : String) : empty.get? field = none := rfl

@[simp] lemma get?_withValue_self :
    (which.withValue field value).get? field = some (.value value) :=
  Table.find?_insert_self ..

lemma get?_withValue_of_ne (h : other ≠ field) :
    (which.withValue field value).get? other = which.get? other := Table.find?_insert_of_ne h ..

@[simp] lemma get?_withRelation_self {nested : UniqueWhere} :
    (which.withRelation field nested).get? field = some (.relation nested) :=
  Table.find?_insert_self ..

lemma get?_withRelation_of_ne {nested : UniqueWhere} (h : other ≠ field) :
    (which.withRelation field nested).get? other = which.get? other := Table.find?_insert_of_ne h ..

/-- What is stored below a relation; nothing where there is none. -/
def nestedAt (which : UniqueWhere) (field : String) : UniqueWhere :=
  match which.get? field with
  | some (.relation nested) => nested
  | _ => empty

/-- A leaf at the path is new, and the path leads to it through relations. -/
def Admits : List String → UniqueWhere → Prop
  | [], _ => True
  | [leaf], which => which.get? leaf = none
  | step :: next :: rest, which =>
    (∀ value, which.get? step ≠ some (.value value)) ∧ Admits (next :: rest) (which.nestedAt step)

/-- The where with the value at the path, whatever stood there. -/
def graft (value : Value) : List String → UniqueWhere → UniqueWhere
  | [], which => which
  | [leaf], which => which.withValue leaf value
  | step :: next :: rest, which =>
    which.withRelation step (graft value (next :: rest) (which.nestedAt step))

/-- The leaf at a path. -/
def valueAt? : List String → UniqueWhere → Option Value
  | [], _ => none
  | [leaf], which => which.value? leaf
  | step :: next :: rest, which => valueAt? (next :: rest) (which.nestedAt step)

/-- A unique where with these leaves. -/
def ofLeaves (leaves : List (List String × Value)) : UniqueWhere :=
  leaves.foldl (fun which leaf => which.graft leaf.2 leaf.1) empty

/-! ### One assignment -/

lemma nestedAt_withValue_self : (which.withValue field value).nestedAt field = empty := by
  rw [nestedAt, get?_withValue_self]

lemma nestedAt_withRelation_self {nested : UniqueWhere} :
    (which.withRelation field nested).nestedAt field = nested := by
  rw [nestedAt, get?_withRelation_self]

lemma nestedAt_of_none (h : which.get? field = none) : which.nestedAt field = empty := by
  rw [nestedAt, h]

@[simp] lemma admits_empty (path : List String) : empty.Admits path := by
  induction path with
  | nil => trivial
  | cons step rest ih =>
    cases rest with
    | nil => rfl
    | cons next rest => exact ⟨fun value => by simp, ih⟩

lemma valueAt?_empty (path : List String) : empty.valueAt? path = none := by
  induction path with
  | nil => rfl
  | cons step rest ih =>
    cases rest with
    | nil => rfl
    | cons next rest => exact ih

/-- An assignment goes on below a relation, which it makes where nothing is stored. -/
lemma assignBelow_cons_cons {walked : List String} {step next : String} {rest : List String}
    (h : ∀ found, which.get? step ≠ some (.value found)) :
    assignBelow walked value (step :: next :: rest) which =
      ((assignBelow (walked ++ [step]) value (next :: rest) (which.nestedAt step)).1,
        which.withRelation step
          (assignBelow (walked ++ [step]) value (next :: rest) (which.nestedAt step)).2) := by
  rcases hget : which.get? step with _ | (found | nested)
  · simp [assignBelow, nestedAt, hget]
  · exact absurd hget (h found)
  · simp [assignBelow, nestedAt, hget]

/-- An assignment succeeds exactly at the paths that are admitted. -/
theorem assignBelow_eq_ok_iff {walked path : List String} {after : UniqueWhere} :
    assignBelow walked value path which = (.ok (), after) ↔
      which.Admits path ∧ after = which.graft value path := by
  induction path generalizing walked which after with
  | nil => simp [assignBelow, Admits, graft, eq_comm]
  | cons step rest ih =>
    cases rest with
    | nil => cases hget : which.get? step <;> simp [assignBelow, Admits, graft, hget, eq_comm]
    | cons next rest =>
      by_cases hvalue : ∃ found, which.get? step = some (.value found)
      · obtain ⟨found, hget⟩ := hvalue
        simp [assignBelow, Admits, hget]
      · have hstep : ∀ found, which.get? step ≠ some (.value found) := by simpa using hvalue
        rw [assignBelow_cons_cons hstep, Admits, graft, Prod.mk.injEq]
        constructor
        · rintro ⟨hok, rfl⟩
          obtain ⟨hadmits, hafter⟩ := ih.mp (Prod.ext hok rfl)
          exact ⟨⟨hstep, hadmits⟩, congrArg _ hafter⟩
        · rintro ⟨⟨-, hadmits⟩, rfl⟩
          rw [ih.mpr ⟨hadmits, rfl⟩]
          exact ⟨rfl, rfl⟩

lemma nestedAt_congr {another : UniqueWhere} (h : which.get? field = another.get? field) :
    which.nestedAt field = another.nestedAt field := by
  rw [nestedAt, nestedAt, h]

/-- Only what is stored at its first step matters to a path. -/
lemma admits_congr {another : UniqueWhere} (h : which.get? field = another.get? field)
    (rest : List String) : which.Admits (field :: rest) ↔ another.Admits (field :: rest) := by
  cases rest with
  | nil => rw [Admits, Admits, h]
  | cons next rest => rw [Admits, Admits, h, nestedAt_congr h]

lemma valueAt?_congr {another : UniqueWhere} (h : which.get? field = another.get? field)
    (rest : List String) : which.valueAt? (field :: rest) = another.valueAt? (field :: rest) := by
  cases rest with
  | nil => rw [valueAt?, valueAt?, value?, value?, h]
  | cons next rest => rw [valueAt?, valueAt?, nestedAt_congr h]

/-- A new leaf changes nothing but what is stored at the first step of its path. -/
lemma get?_graft_of_ne {step : String} (h : other ≠ step) (rest : List String) :
    (which.graft value (step :: rest)).get? other = which.get? other := by
  cases rest with
  | nil => exact get?_withValue_of_ne h
  | cons next rest => exact get?_withRelation_of_ne h

/-- A new leaf shuts out the paths that are the same as its own or lead through it, and those that
its own path leads through. -/
theorem admits_graft_iff {path another : List String} (hpath : path ≠ []) (hanother : another ≠ [])
    (h : which.Admits path) :
    (which.graft value path).Admits another ↔
      which.Admits another ∧ Incomparable path another := by
  induction path generalizing which another with
  | nil => exact absurd rfl hpath
  | cons step rest ih =>
    obtain ⟨head, tail, rfl⟩ := List.exists_cons_of_ne_nil hanother
    by_cases hhead : head = step
    · subst hhead
      rw [incomparable_cons]
      cases rest with
      | nil => cases tail <;> simp [graft, Admits, Incomparable]
      | cons next rest =>
        cases tail with
        | nil => simp [graft, Admits, Incomparable]
        | cons after tail =>
          obtain ⟨hstep, hrest⟩ := h
          have hnested := ih (List.cons_ne_nil _ _) (List.cons_ne_nil after tail) hrest
          simp [graft, Admits, nestedAt_withRelation_self, hnested, hstep]
    · rw [admits_congr (get?_graft_of_ne hhead rest)]
      simp [incomparable_of_ne (Ne.symm hhead)]

/-- A new leaf is the only one that is different. -/
theorem valueAt?_graft {path another : List String} (hpath : path ≠ []) (h : which.Admits path) :
    (which.graft value path).valueAt? another =
      if another = path then some value else which.valueAt? another := by
  induction path generalizing which another with
  | nil => exact absurd rfl hpath
  | cons step rest ih =>
    cases another with
    | nil => rfl
    | cons head tail =>
      by_cases hhead : head = step
      · subst hhead
        cases rest with
        | nil =>
          cases tail with
          | nil => simp [graft, valueAt?, value?]
          | cons after tail =>
            have hempty : which.nestedAt head = empty := nestedAt_of_none h
            simp [graft, valueAt?, nestedAt_withValue_self, hempty]
        | cons next rest =>
          obtain ⟨hstep, hrest⟩ := h
          cases tail with
          | nil =>
            simp [graft, valueAt?, value?]
          | cons after tail =>
            simp [graft, valueAt?, nestedAt_withRelation_self, ih (List.cons_ne_nil _ _) hrest]
      · have hne : head :: tail ≠ step :: rest := by simp [hhead]
        rw [valueAt?_congr (get?_graft_of_ne hhead rest), if_neg hne]

/-! ### Many assignments -/

/-- The leaves can be assigned one after the other, and this is the where afterwards. -/
def Assigned (which : UniqueWhere) (leaves : List (List String × Value)) (after : UniqueWhere) :
    Prop :=
  (∀ leaf ∈ leaves, which.Admits leaf.1) ∧
    leaves.Pairwise (fun leaf other => Incomparable leaf.1 other.1) ∧
    after = leaves.foldl (fun which leaf => which.graft leaf.2 leaf.1) which

lemma assigned_nil {after : UniqueWhere} : which.Assigned [] after ↔ after = which := by
  simp [Assigned]

/-- The first leaf is assigned, and then the others below what it leaves. -/
lemma assigned_cons {leaf : List String × Value} {leaves : List (List String × Value)}
    {after : UniqueWhere} (hleaf : leaf.1 ≠ []) (hleaves : ∀ other ∈ leaves, other.1 ≠ []) :
    which.Assigned (leaf :: leaves) after ↔
      ∃ next, which.assign leaf.1 leaf.2 = (.ok (), next) ∧ next.Assigned leaves after := by
  simp only [assign, assignBelow_eq_ok_iff]
  constructor
  · rintro ⟨hadmits, hpairwise, hafter⟩
    obtain ⟨hfirst, hadmits⟩ := List.forall_mem_cons.mp hadmits
    obtain ⟨hothers, hpairwise⟩ := List.pairwise_cons.mp hpairwise
    refine ⟨_, ⟨hfirst, rfl⟩, fun other hmem => ?_, hpairwise, hafter⟩
    exact (admits_graft_iff hleaf (hleaves other hmem) hfirst).mpr
      ⟨hadmits other hmem, hothers other hmem⟩
  · rintro ⟨_, ⟨hfirst, rfl⟩, hadmits, hpairwise, hafter⟩
    have hothers (other) (hmem : other ∈ leaves) :=
      (admits_graft_iff hleaf (hleaves other hmem) hfirst).mp (hadmits other hmem)
    exact ⟨List.forall_mem_cons.mpr ⟨hfirst, fun other hmem => (hothers other hmem).1⟩,
      List.pairwise_cons.mpr ⟨fun other hmem => (hothers other hmem).2, hpairwise⟩, hafter⟩

/-- To an empty where, leaves can be assigned if their paths are incomparable. -/
lemma assigned_empty_iff {leaves : List (List String × Value)} {after : UniqueWhere} :
    empty.Assigned leaves after ↔
      leaves.Pairwise (fun leaf other => Incomparable leaf.1 other.1) ∧
        after = ofLeaves leaves := by
  simp [Assigned, ofLeaves]

/-- The leaves afterwards are the assigned ones, and those that were there before. -/
lemma Assigned.valueAt?_eq_some_iff {leaves : List (List String × Value)} {after : UniqueWhere}
    (hleaves : ∀ leaf ∈ leaves, leaf.1 ≠ []) (h : which.Assigned leaves after)
    {path : List String} :
    after.valueAt? path = some value ↔
      (path, value) ∈ leaves ∨ path ∉ leaves.map Prod.fst ∧ which.valueAt? path = some value := by
  induction leaves generalizing which with
  | nil =>
    rw [assigned_nil.mp h]
    simp
  | cons leaf rest ih =>
    obtain ⟨hleaf, hrest⟩ := List.forall_mem_cons.mp hleaves
    have hnew : leaf.1 ∉ rest.map Prod.fst := by
      intro hmem
      obtain ⟨other, hother, heq⟩ := List.mem_map.mp hmem
      have hincomparable := (List.pairwise_cons.mp h.2.1).1 other hother
      rw [heq] at hincomparable
      exact not_incomparable_self _ hincomparable
    obtain ⟨next, hassign, hnext⟩ := (assigned_cons hleaf hrest).mp h
    obtain ⟨hadmits, rfl⟩ := assignBelow_eq_ok_iff.mp hassign
    rw [ih hrest hnext, valueAt?_graft hleaf hadmits]
    by_cases hpath : path = leaf.1
    · subst hpath
      have hother : (leaf.1, value) ∉ rest := fun hmem =>
        hnew (List.mem_map.mpr ⟨_, hmem, rfl⟩)
      simp [hother, hnew, Prod.ext_iff, eq_comm]
    · simp [hpath, Prod.ext_iff]

/-- A unique where of incomparable leaves has these leaves, and no others. -/
theorem valueAt?_ofLeaves_iff {leaves : List (List String × Value)} {path : List String}
    (hleaves : ∀ leaf ∈ leaves, leaf.1 ≠ [])
    (h : leaves.Pairwise fun leaf other => Incomparable leaf.1 other.1) :
    (ofLeaves leaves).valueAt? path = some value ↔ (path, value) ∈ leaves := by
  have hassigned : empty.Assigned leaves (ofLeaves leaves) := assigned_empty_iff.mpr ⟨h, rfl⟩
  rw [hassigned.valueAt?_eq_some_iff hleaves]
  simp [valueAt?_empty]

end UniqueWhere

end EntityGraph
