import EntityGraph.Proofs.Data.Fitting
import EntityGraph.Proofs.UniqueWhere.Printing
/-!
# Conflicts between assignments

An assignment is refused where its path leads through a value or ends at something that is stored,
and it then changes nothing. Which leaves can be assigned one after another, and what they make up,
does not depend on their order.
-/
namespace EntityGraph.UniqueWhere

variable {which : UniqueWhere} {value : Value} {step next : String} {rest path : List String}

/-- What is stored at the end of a path that leads to it through relations. -/
def nodeAt? : List String → UniqueWhere → Option UniqueNode
  | [], _ => none
  | [step], which => which.get? step
  | step :: next :: rest, which => nodeAt? (next :: rest) (which.nestedAt step)

/-- A value is stored where the path is not at its end yet. -/
def BlockedAt (which : UniqueWhere) (path taken : List String) : Prop :=
  taken <+: path ∧ taken ≠ path ∧ ∃ found, which.nodeAt? taken = some (.value found)

/-- The shortest part of the path that leads to a value too early. -/
def FirstBlockedAt (which : UniqueWhere) (path taken : List String) : Prop :=
  which.BlockedAt path taken ∧ ∀ other, which.BlockedAt path other → taken.length ≤ other.length

/-- The unique wheres that can be made. An assignment leaves one also where it is refused. -/
inductive Made : UniqueWhere → Prop
  | empty : Made empty
  | withValue {which : UniqueWhere} (h : Made which) (field : String) (value : Value) :
      Made (which.withValue field value)
  | withRelation {which nested : UniqueWhere} (h : Made which) (field : String)
      (hnested : Made nested) : Made (which.withRelation field nested)
  | assign {which : UniqueWhere} (h : Made which) (path : List String) (value : Value) :
      Made (which.assign path value).2
  | ofJson {schema : Schema} {entity : Entity} {json : Json} {which : UniqueWhere}
      (h : ofJson schema entity json = .ok which) : Made which
  | nested {which nested : UniqueWhere} {field : String} (h : Made which)
      (hget : which.get? field = some (.relation nested)) : Made nested

/-! ### What is stored on a path -/

@[simp] lemma nodeAt?_empty (path : List String) : empty.nodeAt? path = none := by
  induction path with
  | nil => rfl
  | cons step rest ih =>
    cases rest with
    | nil => rfl
    | cons next rest => exact ih

/-- Nothing is stored below a value. -/
lemma nodeAt?_append_of_value {found : Value} (h : which.nodeAt? path = some (.value found))
    {more : List String} (hmore : more ≠ []) : which.nodeAt? (path ++ more) = none := by
  induction path generalizing which with
  | nil => cases h
  | cons step rest ih =>
    cases rest with
    | nil =>
      obtain ⟨next, more, rfl⟩ := List.exists_cons_of_ne_nil hmore
      have hget : which.get? step = some (.value found) := h
      have hnested : which.nestedAt step = empty := by rw [nestedAt, hget]
      rw [List.singleton_append, nodeAt?, hnested, nodeAt?_empty]
    | cons next rest => exact ih h

/-- There is one place at most at which a value blocks a path. -/
lemma BlockedAt.unique {taken other : List String} (h : which.BlockedAt path taken)
    (hother : which.BlockedAt path other) : taken = other := by
  obtain ⟨htaken, -, found, hfound⟩ := h
  obtain ⟨hstart, -, again, hagain⟩ := hother
  have hshorter {shorter longer : List String} {a b : Value} (hle : shorter <+: longer)
      (ha : which.nodeAt? shorter = some (.value a)) (hb : which.nodeAt? longer = some (.value b)) :
      shorter = longer := by
    obtain ⟨more, rfl⟩ := hle
    by_contra hne
    have hmore : more ≠ [] := by
      rintro rfl
      exact hne (List.append_nil shorter).symm
    rw [nodeAt?_append_of_value ha hmore] at hb
    cases hb
  rcases List.prefix_or_prefix_of_prefix htaken hstart with hle | hle
  · exact hshorter hle hfound hagain
  · exact (hshorter hle hagain hfound).symm

lemma not_blockedAt_of_nodeAt? {taken : List String} (h : (which.nodeAt? path).isSome) :
    ¬ which.BlockedAt path taken := by
  rintro ⟨⟨more, rfl⟩, hne, found, hfound⟩
  have hmore : more ≠ [] := by
    rintro rfl
    exact hne (List.append_nil taken).symm
  rw [nodeAt?_append_of_value hfound hmore] at h
  cases h

lemma blockedAt_of_value {found : Value} (h : which.get? step = some (.value found)) :
    which.BlockedAt (step :: next :: rest) [step] :=
  ⟨⟨next :: rest, rfl⟩, by simp, found, h⟩

/-- Where no value is in the way at the first step, the path is blocked below it or not at all. -/
lemma blockedAt_cons_iff (h : ∀ found, which.get? step ≠ some (.value found))
    {taken : List String} :
    which.BlockedAt (step :: next :: rest) taken ↔
      ∃ inner, taken = step :: inner ∧ (which.nestedAt step).BlockedAt (next :: rest) inner := by
  constructor
  · rintro ⟨hstart, hne, found, hfound⟩
    match taken with
    | [] => cases hfound
    | [head] =>
      obtain ⟨rfl, -⟩ := List.cons_prefix_cons.mp hstart
      exact absurd hfound (h found)
    | head :: second :: tail =>
      obtain ⟨rfl, hrest⟩ := List.cons_prefix_cons.mp hstart
      exact ⟨second :: tail, rfl, hrest, fun heq => hne (congrArg _ heq), found, hfound⟩
  · rintro ⟨inner, rfl, hstart, hne, found, hfound⟩
    refine ⟨List.cons_prefix_cons.mpr ⟨rfl, hstart⟩, fun heq => hne (List.cons.inj heq).2,
      found, ?_⟩
    cases inner with
    | nil => cases hfound
    | cons second tail => exact hfound

/-! ### One assignment -/

lemma assignBelow_of_value {walked : List String} {found : Value}
    (h : which.get? step = some (.value found)) :
    assignBelow walked value (step :: next :: rest) which =
      (.error (.scalarAndRelation (walked ++ [step])), which) := by
  simp [assignBelow, h]

lemma Ordered.assignBelow (h : which.Ordered) (walked : List String) (value : Value)
    (path : List String) : (assignBelow walked value path which).2.Ordered := by
  induction path generalizing walked which with
  | nil => exact h
  | cons step rest ih =>
    cases rest with
    | nil =>
      rw [UniqueWhere.assignBelow]
      split
      · exact h
      · exact h.withValue step value
    | cons next rest =>
      by_cases hvalue : ∃ found, which.get? step = some (.value found)
      · obtain ⟨found, hget⟩ := hvalue
        rw [assignBelow_of_value hget]
        exact h
      · rw [assignBelow_cons_cons (by simpa using hvalue)]
        exact h.withRelation step (ih (h.nestedAt step) _)

lemma keptByReading_ordered {schema : Schema} :
    KeptByReading schema fun _ which => which.Ordered where
  empty _ := ordered_empty
  value hwhich _ := hwhich.withValue _ _
  relation hwhich _ _ hnested := hwhich.withRelation _ hnested

/-- Whatever can be made is in order. -/
theorem Made.ordered (h : which.Made) : which.Ordered := by
  induction h with
  | empty => exact ordered_empty
  | withValue _ field value ih => exact ih.withValue field value
  | withRelation _ field _ ih ihn => exact ih.withRelation field ihn
  | assign _ path value ih => exact ih.assignBelow [] value path
  | ofJson h => exact keptByReading_ordered.of_ofJson h
  | nested _ hget ih => exact ih.nested (Table.mem_of_find? hget)

/-- Storing a relation again where it is stored already changes nothing. -/
lemma withRelation_eq_self (h : which.Ordered) {nested : UniqueWhere}
    (hget : which.get? step = some (.relation nested)) : which.withRelation step nested = which := by
  have hnodes : (which.withRelation step nested).nodes = which.nodes := by
    refine Table.ext_of_ascending (h.ascending.insert step _) h.ascending fun field => ?_
    by_cases hfield : field = step
    · subst hfield
      exact get?_withRelation_self.trans hget.symm
    · exact get?_withRelation_of_ne hfield
  cases which
  exact congrArg UniqueWhere.mk hnodes

/-- What is made on the way is made where nothing was stored, and there nothing is in the way. -/
lemma eq_of_refused (h : which.Ordered) {walked : List String} {e : InputError}
    {after : UniqueWhere} (hrefused : assignBelow walked value path which = (.error e, after)) :
    after = which := by
  induction path generalizing walked which after with
  | nil => cases hrefused
  | cons step rest ih =>
    cases rest with
    | nil =>
      rw [assignBelow] at hrefused
      split at hrefused
      · cases hrefused
        rfl
      · cases hrefused
    | cons next rest =>
      rcases hget : which.get? step with _ | (found | nested)
      · -- A path below a fresh relation is free, so that it is not refused.
        have hfresh : assignBelow (walked ++ [step]) value (next :: rest) empty =
            (.ok (), empty.graft value (next :: rest)) :=
          assignBelow_eq_ok_iff.mpr ⟨admits_empty _, rfl⟩
        rw [assignBelow_cons_cons (by simp [hget]), nestedAt_of_none hget, hfresh] at hrefused
        cases hrefused
      · rw [assignBelow_of_value hget] at hrefused
        cases hrefused
        rfl
      · rw [assignBelow_cons_cons (by simp [hget]), nestedAt_of_get? hget] at hrefused
        obtain ⟨herror, rfl⟩ := Prod.mk.inj hrefused
        have hnested := ih (h.nested (Table.mem_of_find? hget)) (Prod.ext herror rfl)
        exact (congrArg _ hnested).trans (withRelation_eq_self h hget)

/-- Why an assignment is refused. -/
lemma assignBelow_eq_error_iff {walked : List String} {e : InputError} :
    (assignBelow walked value path which).1 = .error e ↔
      (∃ taken, which.BlockedAt path taken ∧ e = .scalarAndRelation (walked ++ taken)) ∨
        (which.nodeAt? path).isSome ∧ e = .duplicateUnique (walked ++ path) := by
  induction path generalizing walked which with
  | nil =>
    have hfree (taken : List String) : ¬ which.BlockedAt [] taken := by
      rintro ⟨hstart, hne, -⟩
      exact hne (List.prefix_nil.mp hstart)
    simp [assignBelow, nodeAt?, hfree]
  | cons step rest ih =>
    cases rest with
    | nil =>
      have hfree (taken : List String) : ¬ which.BlockedAt [step] taken := by
        rintro ⟨hstart, hne, found, hfound⟩
        obtain rfl | ⟨tail, rfl, htail⟩ := List.prefix_cons_iff.mp hstart
        · cases hfound
        · exact hne (congrArg _ (List.prefix_nil.mp htail))
      cases hget : which.get? step <;> simp [assignBelow, nodeAt?, hget, hfree, eq_comm]
    | cons next rest =>
      by_cases hvalue : ∃ found, which.get? step = some (.value found)
      · obtain ⟨found, hget⟩ := hvalue
        have hblocked : which.BlockedAt (step :: next :: rest) [step] := blockedAt_of_value hget
        rw [assignBelow_of_value hget]
        constructor
        · intro h
          cases h
          exact .inl ⟨[step], hblocked, rfl⟩
        · rintro (⟨taken, htaken, rfl⟩ | ⟨hsome, -⟩)
          · rw [hblocked.unique htaken]
          · exact absurd hblocked (not_blockedAt_of_nodeAt? hsome)
      · have hstep : ∀ found, which.get? step ≠ some (.value found) := by simpa using hvalue
        rw [assignBelow_cons_cons hstep, ih, nodeAt?]
        simp only [blockedAt_cons_iff hstep, List.append_assoc, List.singleton_append]
        constructor
        · rintro (⟨inner, hinner, rfl⟩ | hsome)
          · exact .inl ⟨step :: inner, ⟨inner, rfl, hinner⟩, rfl⟩
          · exact .inr hsome
        · rintro (⟨taken, ⟨inner, rfl, hinner⟩, rfl⟩ | hsome)
          · exact .inl ⟨inner, hinner, rfl⟩
          · exact .inr hsome

/-- An assignment that is refused changes nothing. It tells the shortest part of the path at which
a value is in the way, if there is one, and else the whole path, at which something is stored. -/
theorem refused_assignment_changes_nothing (h : which.Made) (path : List String) (value : Value) :
    (∀ e after, which.assign path value = (.error e, after) → after = which) ∧
      ∀ e, (which.assign path value).1 = .error e ↔
        (∃ taken, which.FirstBlockedAt path taken ∧ e = .scalarAndRelation taken) ∨
          (¬ ∃ taken, which.BlockedAt path taken) ∧ (which.nodeAt? path).isSome ∧
            e = .duplicateUnique path := by
  refine ⟨fun e after hrefused => eq_of_refused h.ordered hrefused, fun e => ?_⟩
  rw [assign, assignBelow_eq_error_iff]
  constructor
  · rintro (⟨taken, htaken, he⟩ | ⟨hsome, he⟩)
    · have hfirst : which.FirstBlockedAt path taken :=
        ⟨htaken, fun other hother => by rw [htaken.unique hother]⟩
      exact .inl ⟨taken, hfirst, he⟩
    · exact .inr ⟨not_exists.mpr fun _ => not_blockedAt_of_nodeAt? hsome, hsome, he⟩
  · rintro (⟨taken, hfirst, he⟩ | ⟨-, hsome, he⟩)
    · exact .inl ⟨taken, hfirst.1, he⟩
    · exact .inr ⟨hsome, he⟩

/-- The name of the author has been assigned; a path may neither go on below it nor stop short of
it. -/
theorem refused_assignment_changes_nothing_author :
    let which : UniqueWhere := ⟨[("author", .relation ⟨[("name", .value (.string "Ada"))]⟩)]⟩
    which.Made ∧
      which.assign ["author", "name", "first"] .null =
        (.error (.scalarAndRelation ["author", "name"]), which) ∧
      which.assign ["author"] .null = (.error (.duplicateUnique ["author"]), which) := by
  intro which
  have hmade : which.Made := Made.empty.assign ["author", "name"] (.string "Ada")
  have hname : which.nodeAt? ["author", "name"] = some (.value (.string "Ada")) := rfl
  have hblocked : which.BlockedAt ["author", "name", "first"] ["author", "name"] :=
    ⟨⟨["first"], rfl⟩, by decide, _, hname⟩
  have hfree : ¬ ∃ taken, which.BlockedAt ["author"] taken :=
    not_exists.mpr fun _ => not_blockedAt_of_nodeAt? rfl
  obtain ⟨hsame, hwhy⟩ :=
    refused_assignment_changes_nothing hmade ["author", "name", "first"] .null
  obtain ⟨hsame', hwhy'⟩ := refused_assignment_changes_nothing hmade ["author"] .null
  have hbelow : (which.assign ["author", "name", "first"] .null).1 =
      .error (.scalarAndRelation ["author", "name"]) :=
    (hwhy _).mpr (.inl ⟨_, ⟨hblocked, fun other hother => by rw [hblocked.unique hother]⟩, rfl⟩)
  have hshort : (which.assign ["author"] .null).1 = .error (.duplicateUnique ["author"]) :=
    (hwhy' _).mpr (.inr ⟨hfree, rfl, rfl⟩)
  exact ⟨hmade, Prod.ext hbelow (hsame _ _ (Prod.ext hbelow rfl)),
    Prod.ext hshort (hsame' _ _ (Prod.ext hshort rfl))⟩

/-! ### Many assignments -/

/-- The unique where with one more leaf, if that can be assigned. -/
def assignLeaf (which : UniqueWhere) (leaf : List String × Value) :
    Except InputError UniqueWhere :=
  match which.assign leaf.1 leaf.2 with
  | (.ok (), after) => .ok after
  | (.error e, _) => .error e

/-- Assigns leaves one after another, up to the first one that is refused. -/
def assignAll (listed : List (List String × Value)) : Except InputError UniqueWhere :=
  listed.foldlM assignLeaf empty

variable {listed : List (List String × Value)} {after : UniqueWhere}

lemma assignLeaf_eq_ok_iff {leaf : List String × Value} :
    which.assignLeaf leaf = .ok after ↔ which.assign leaf.1 leaf.2 = (.ok (), after) := by
  rcases h : which.assign leaf.1 leaf.2 with ⟨_ | ⟨⟩, next⟩ <;> simp [assignLeaf, h]

lemma foldlM_assignLeaf_eq_ok_iff (hpaths : ∀ leaf ∈ listed, leaf.1 ≠ []) :
    listed.foldlM assignLeaf which = .ok after ↔ which.Assigned listed after := by
  induction listed generalizing which with
  | nil =>
    rw [assigned_nil, List.foldlM_nil]
    exact ⟨fun h => (Except.ok.inj h).symm, fun h => congrArg Except.ok h.symm⟩
  | cons leaf rest ih =>
    obtain ⟨hleaf, hrest⟩ := List.forall_mem_cons.mp hpaths
    rw [assigned_cons hleaf hrest, List.foldlM_cons]
    constructor
    · intro h
      obtain ⟨next, hnext, h⟩ := Except.bind_eq_ok.mp h
      exact ⟨next, assignLeaf_eq_ok_iff.mp hnext, (ih hrest).mp h⟩
    · rintro ⟨next, hnext, h⟩
      exact Except.bind_eq_ok.mpr ⟨next, assignLeaf_eq_ok_iff.mpr hnext, (ih hrest).mpr h⟩

lemma assignAll_eq_ok_iff (hpaths : ∀ leaf ∈ listed, leaf.1 ≠ []) :
    assignAll listed = .ok after ↔
      listed.Pairwise (fun leaf other => Incomparable leaf.1 other.1) ∧ after = ofLeaves listed :=
  (foldlM_assignLeaf_eq_ok_iff hpaths).trans assigned_empty_iff

/-- Each leaf is different from the others, as none of them stands at the path of another. -/
lemma nodup_of_incomparable
    (h : listed.Pairwise fun leaf other => Incomparable leaf.1 other.1) : listed.Nodup := by
  refine List.Pairwise.imp (S := (· ≠ ·)) (fun {leaf other} hleaf heq => ?_) h
  subst heq
  exact not_incomparable_self leaf.1 hleaf

/-- A unique where that was made of leaves has these leaves. -/
lemma leaves_ofLeaves_perm (hpaths : ∀ leaf ∈ listed, leaf.1 ≠ [])
    (h : listed.Pairwise fun leaf other => Incomparable leaf.1 other.1) :
    (ofLeaves listed).leaves.Perm listed := by
  -- The empty unique where has no leaves, but it is not `Grown`, as it would be an empty relation.
  by_cases hne : listed = []
  · subst hne
    exact .refl _
  · have hordered := ordered_ofLeaves listed
    have hnodup : (ofLeaves listed).leaves.Nodup :=
      nodup_of_incomparable (pairwise_leaves (grown_ofLeaves hne hpaths) hordered)
    refine (List.perm_ext_iff_of_nodup hnodup (nodup_of_incomparable h)).mpr ?_
    rintro ⟨path, value⟩
    rw [mem_leaves_iff_valueAt? hordered, valueAt?_ofLeaves_iff hpaths h]

/-- The order in which leaves are assigned makes no difference. -/
lemma ofLeaves_perm {others : List (List String × Value)} (hpaths : ∀ leaf ∈ listed, leaf.1 ≠ [])
    (h : listed.Pairwise fun leaf other => Incomparable leaf.1 other.1)
    (hperm : others.Perm listed) : ofLeaves others = ofLeaves listed := by
  by_cases hne : listed = []
  · subst hne
    rw [hperm.eq_nil]
  · exact (ofLeaves_eq_of_perm (grown_ofLeaves hne hpaths) (ordered_ofLeaves listed)
      (hperm.trans (leaves_ofLeaves_perm hpaths h).symm)).2

lemma Grown.of_nodeAt? {nested : UniqueWhere} (h : which.Grown)
    (hnode : which.nodeAt? path = some (.relation nested)) : nested.Grown := by
  induction path generalizing which with
  | nil => cases hnode
  | cons step rest ih =>
    cases rest with
    | nil => exact h.nested hnode
    | cons next rest =>
      rw [nodeAt?] at hnode
      rcases hget : which.get? step with _ | (found | inner)
      · rw [nestedAt_of_none hget, nodeAt?_empty] at hnode
        cases hnode
      · rw [nestedAt, hget, nodeAt?_empty] at hnode
        cases hnode
      · rw [nestedAt_of_get? hget] at hnode
        exact ih (h.nested hget) hnode

/-- Leaves can be assigned, in any order and to the same end, exactly if no path is the same as
another one or leads through it. The unique where then has these leaves and no others, and no
relation in it is empty. -/
theorem assignAll_in_any_order (hpaths : ∀ leaf ∈ listed, leaf.1 ≠ []) :
    ((∃ which, assignAll listed = .ok which) ↔
        listed.Pairwise fun leaf other => Incomparable leaf.1 other.1) ∧
      (∀ others which, others.Perm listed →
        (assignAll others = .ok which ↔ assignAll listed = .ok which)) ∧
      ∀ which, assignAll listed = .ok which → which.leaves.Perm listed ∧
        ∀ path nested, which.nodeAt? path = some (.relation nested) → nested.nodes ≠ [] := by
  refine ⟨?_, fun others which hperm => ?_, fun which hwhich => ?_⟩
  · simp only [assignAll_eq_ok_iff hpaths, exists_and_left, exists_eq, and_true]
  · have hothers : ∀ leaf ∈ others, leaf.1 ≠ [] := fun leaf hmem =>
      hpaths leaf (hperm.subset hmem)
    have hpairwise := hperm.pairwise_iff (R := fun leaf other : List String × Value =>
      Incomparable leaf.1 other.1) Incomparable.symm
    rw [assignAll_eq_ok_iff hpaths, assignAll_eq_ok_iff hothers, hpairwise]
    exact and_congr_right fun h => by rw [ofLeaves_perm hpaths h hperm]
  · obtain ⟨hpairwise, rfl⟩ := (assignAll_eq_ok_iff hpaths).mp hwhich
    refine ⟨leaves_ofLeaves_perm hpaths hpairwise, fun path nested hnode => ?_⟩
    by_cases hne : listed = []
    · subst hne
      have hempty : (ofLeaves []).nodeAt? path = none := nodeAt?_empty path
      cases hempty.symm.trans hnode
    · obtain ⟨hnodes, -⟩ := (grown_ofLeaves hne hpaths).of_nodeAt? hnode
      exact hnodes

/-- Two leaves of one relation, with another leaf between them. -/
theorem assignAll_in_any_order_author :
    let listed : List (List String × Value) := [(["author", "name"], .string "Ada"),
      (["number"], .ofInt 7), (["author", "locale"], .literal "en")]
    (∀ leaf ∈ listed, leaf.1 ≠ []) ∧ ∃ which, assignAll listed = .ok which ∧
      assignAll listed.reverse = .ok which ∧ which.leaves.Perm listed := by
  intro listed
  have hpaths : ∀ leaf ∈ listed, leaf.1 ≠ [] := by simp [listed]
  obtain ⟨hsucceeds, horder, hleaves⟩ := assignAll_in_any_order hpaths
  obtain ⟨which, hwhich⟩ := hsucceeds.mpr (by simp [listed, Incomparable])
  exact ⟨hpaths, which, hwhich, (horder _ which (List.reverse_perm listed)).mpr hwhich,
    (hleaves which hwhich).1⟩

end EntityGraph.UniqueWhere
