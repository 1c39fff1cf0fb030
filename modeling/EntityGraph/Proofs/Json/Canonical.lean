import EntityGraph.Json
import EntityGraph.Proofs.Json.Reading
import EntityGraph.Proofs.Table
/-!
# Canonical documents

Tables whose keys ascend are determined by what look-ups find in them. The canonical form of an
object holds, under the same keys, the canonical forms of its members. Two documents have the same
canonical form exactly if they differ in the order of members only.
-/
namespace EntityGraph

namespace Table

variable {α β : Type} {key : String} {table other : Table α}

/-- The keys of a table that is kept in order. -/
def Ascending (table : Table α) : Prop := table.keys.Pairwise (· < ·)

@[simp] lemma ascending_nil : Ascending ([] : Table α) := List.Pairwise.nil

lemma ascending_cons {pair : String × α} :
    Ascending (pair :: table) ↔ (∀ key ∈ table.keys, pair.1 < key) ∧ Ascending table :=
  List.pairwise_cons

lemma Ascending.nodup_keys (h : table.Ascending) : table.keys.Nodup :=
  h.imp fun hlt => hlt.ne

/-- Tables in order in which look-ups find the same entries are the same. -/
theorem ext_of_ascending (h : table.Ascending) (hother : other.Ascending)
    (hfind : ∀ key, table.find? key = other.find? key) : table = other := by
  have hmem (pair : String × α) : pair ∈ table ↔ pair ∈ other := by
    rw [← find?_eq_some_iff h.nodup_keys, ← find?_eq_some_iff hother.nodup_keys, hfind]
  have hperm : table.Perm other :=
    (List.perm_ext_iff_of_nodup h.nodup_keys.of_map hother.nodup_keys.of_map).mpr hmem
  have hpairs {table : Table α} (h : table.Ascending) :
      List.Pairwise (fun a b => a.1 < b.1) table := List.pairwise_map.mp h
  exact hperm.eq_of_pairwise (fun a b _ _ hab hba => absurd hab hba.asymm) (hpairs h)
    (hpairs hother)

lemma keys_map (f : α → β) : Table.keys (table.map fun pair => (pair.1, f pair.2)) = table.keys := by
  simp [keys, Function.comp_def]

lemma find?_map (f : α → β) :
    Table.find? key (table.map fun pair => (pair.1, f pair.2)) = (table.find? key).map f := by
  induction table with
  | nil => rfl
  | cons pair rest ih =>
    obtain ⟨k, a⟩ := pair
    by_cases hk : k = key <;> simp [find?, hk, ih]

lemma find?_append (table other : Table α) (key : String) :
    Table.find? key (table ++ other) = (table.find? key).or (other.find? key) := by
  induction table with
  | nil => rfl
  | cons pair rest ih =>
    obtain ⟨k, a⟩ := pair
    by_cases hk : k = key <;> simp [find?, hk, ih]

lemma mem_keys_insert {entry : α} {name : String} (h : name ∈ (table.insert key entry).keys) :
    name = key ∨ name ∈ table.keys := by
  obtain ⟨pair, hpair, rfl⟩ := List.mem_map.mp h
  rcases mem_insert hpair with rfl | hmem
  · exact .inl rfl
  · exact .inr (List.mem_map_of_mem hmem)

lemma insert_of_forall_lt (h : ∀ name ∈ table.keys, name < key) (entry : α) :
    table.insert key entry = table ++ [(key, entry)] := by
  induction table with
  | nil => rfl
  | cons pair rest ih =>
    obtain ⟨name, first⟩ := pair
    obtain ⟨hname, hrest⟩ := List.forall_mem_cons.mp h
    rw [Table.insert, if_neg hname.ne, if_neg hname.asymm, ih hrest, List.cons_append]

/-- Where keys ascend, the next entry is inserted at the end. -/
lemma Ascending.insert_eq_append {rest : Table α} {entry : α}
    (h : Ascending (table ++ (key, entry) :: rest)) :
    table.insert key entry = table ++ [(key, entry)] := by
  have hkeys : (table.keys ++ key :: rest.keys).Pairwise (· < ·) := by
    rw [Ascending, keys, List.map_append, List.map_cons] at h
    exact h
  exact insert_of_forall_lt (fun name hname =>
    (List.pairwise_append.mp hkeys).2.2 name hname key List.mem_cons_self) entry

/-- A table in order takes a new entry at the place of its key. -/
lemma Ascending.insert (h : table.Ascending) (key : String) (entry : α) :
    (table.insert key entry).Ascending := by
  induction table with
  | nil => simp [Table.insert, Ascending, keys]
  | cons pair rest ih =>
    obtain ⟨k, a⟩ := pair
    obtain ⟨hfirst, hrest⟩ := ascending_cons.mp h
    rw [Table.insert]
    split
    · rename_i heq
      subst heq
      exact ascending_cons.mpr ⟨hfirst, hrest⟩
    · rename_i hne
      split
      · rename_i hlt
        refine ascending_cons.mpr ⟨?_, h⟩
        intro name hname
        rcases List.mem_cons.mp hname with rfl | hname
        · exact hlt
        · exact hlt.trans (hfirst name hname)
      · rename_i hge
        refine ascending_cons.mpr ⟨?_, ih hrest⟩
        intro name hname
        rcases mem_keys_insert hname with rfl | hname
        · exact lt_of_le_of_ne (not_lt.mp hge) hne
        · exact hfirst name hname

lemma insert_perm {key : String} (h : key ∉ table.keys) (entry : α) :
    (table.insert key entry).Perm ((key, entry) :: table) := by
  induction table with
  | nil => exact .refl _
  | cons pair rest ih =>
    obtain ⟨hne, hrest⟩ : key ≠ pair.1 ∧ key ∉ Table.keys rest := by simpa using h
    rw [Table.insert, if_neg (Ne.symm hne)]
    split
    · exact .refl _
    · exact ((ih hrest).cons pair).trans (.swap _ _ rest)

lemma find?_of_perm (h : table.Perm other) (hkeys : table.keys.Nodup) (key : String) :
    table.find? key = other.find? key := by
  have hother : other.keys.Nodup := (h.map Prod.fst).nodup_iff.mp hkeys
  ext entry
  rw [find?_eq_some_iff hkeys, find?_eq_some_iff hother, h.mem_iff]

end Table

namespace Json

/-- Canonical forms lie under the keys of what they are the forms of. -/
lemma find?_canonicalMembers (key : String) (members : List (String × Json)) :
    (canonicalMembers members).find? key = (Table.find? key members).map canonical := by
  induction members with
  | nil => rfl
  | cons member rest ih =>
    obtain ⟨name, json⟩ := member
    rw [canonicalMembers]
    by_cases h : name = key
    · subst h
      simp [Table.find?]
    · rw [Table.find?_insert_of_ne (Ne.symm h), ih, Table.find?, if_neg h]

lemma ascending_canonicalMembers (members : List (String × Json)) :
    (canonicalMembers members).Ascending := by
  induction members with
  | nil => exact Table.ascending_nil
  | cons member rest ih => exact ih.insert member.1 member.2.canonical

/-- Objects with one canonical form have the same members up to their canonical forms. -/
lemma find?_of_canonical_eq {members others : List (String × Json)}
    (h : (Json.object members).canonical = (Json.object others).canonical) (key : String) :
    (Table.find? key members).map canonical = (Table.find? key others).map canonical := by
  rw [canonical, canonical, object.injEq] at h
  rw [← find?_canonicalMembers, h, find?_canonicalMembers]

lemma membersExact_iff {members : List (String × Json)} :
    MembersExact members ↔ ∀ member ∈ members, member.2.IsExact := by
  induction members with
  | nil => simp [MembersExact]
  | cons member rest ih => simp [MembersExact, ih]

mutual
lemma IsExact.canonical {json : Json} (h : json.IsExact) : json.canonical.IsExact := by
  cases json with
  | null | bool | number | string => exact h
  | array items => exact AreExact.canonical h
  | object members => exact MembersExact.canonical h
termination_by structural json

lemma AreExact.canonical {items : List Json} (h : AreExact items) :
    AreExact (canonicalItems items) := by
  cases items with
  | nil => exact h
  | cons item rest => exact ⟨h.1.canonical, AreExact.canonical h.2⟩
termination_by structural items

lemma MembersExact.canonical {members : List (String × Json)} (h : MembersExact members) :
    MembersExact (canonicalMembers members) := by
  cases members with
  | nil => exact h
  | cons member rest =>
    rw [canonicalMembers, membersExact_iff]
    intro pair hpair
    rcases Table.mem_insert hpair with rfl | hmem
    · exact h.1.canonical
    · exact membersExact_iff.mp (MembersExact.canonical h.2) pair hmem
termination_by structural members
end

/-! ### Documents that differ in the order of members -/

/-- One document becomes the other when members of objects change places, at any depth. Items of
arrays keep theirs. -/
inductive Reordered : Json → Json → Prop
  | refl (json : Json) : Reordered json json
  | trans {json middle other : Json} (h : Reordered json middle) (hother : Reordered middle other) :
      Reordered json other
  | members {members others : List (String × Json)} (h : members.Perm others) :
      Reordered (.object members) (.object others)
  | member (before after : List (String × Json)) (key : String) {json other : Json}
      (h : Reordered json other) :
      Reordered (.object (before ++ (key, json) :: after))
        (.object (before ++ (key, other) :: after))
  | item (before after : List Json) {json other : Json} (h : Reordered json other) :
      Reordered (.array (before ++ json :: after)) (.array (before ++ other :: after))

/-- No object has two members of one key. -/
inductive HasDistinctKeys : Json → Prop
  | null : HasDistinctKeys .null
  | bool (flag : Bool) : HasDistinctKeys (.bool flag)
  | number (number : JsonNumber) : HasDistinctKeys (.number number)
  | string (text : String) : HasDistinctKeys (.string text)
  | array {items : List Json} (h : ∀ item ∈ items, HasDistinctKeys item) :
      HasDistinctKeys (.array items)
  | object {members : List (String × Json)} (hkeys : (Table.keys members).Nodup)
      (h : ∀ member ∈ members, HasDistinctKeys member.2) : HasDistinctKeys (.object members)

lemma hasDistinctKeys_array_iff {items : List Json} :
    (array items).HasDistinctKeys ↔ ∀ item ∈ items, item.HasDistinctKeys := by
  constructor
  · rintro (_ | _ | _ | _ | h)
    exact h
  · exact .array

lemma hasDistinctKeys_object_iff {members : List (String × Json)} :
    (object members).HasDistinctKeys ↔
      (Table.keys members).Nodup ∧ ∀ member ∈ members, member.2.HasDistinctKeys := by
  constructor
  · rintro (_ | _ | _ | _ | _ | ⟨hkeys, h⟩)
    exact ⟨hkeys, h⟩
  · rintro ⟨hkeys, h⟩
    exact .object hkeys h

namespace Reordered

variable {json other : Json}

lemma symm (h : Reordered json other) : Reordered other json := by
  induction h with
  | refl json => exact .refl json
  | trans _ _ ih ihother => exact ihother.trans ih
  | members h => exact .members h.symm
  | member before after key _ ih => exact .member before after key ih
  | item before after _ ih => exact .item before after ih

lemma array_append (before : List Json) {items others : List Json}
    (h : List.Forall₂ Reordered items others) :
    Reordered (.array (before ++ items)) (.array (before ++ others)) := by
  induction h generalizing before with
  | nil => exact .refl _
  | @cons _ first rest _ h _ ih =>
    have hrest := ih (before ++ [first])
    rw [List.append_assoc, List.append_assoc] at hrest
    exact (item before rest h).trans hrest

lemma object_append (before : List (String × Json)) {members : List (String × Json)}
    {f : Json → Json} (h : ∀ member ∈ members, Reordered member.2 (f member.2)) :
    Reordered (.object (before ++ members))
      (.object (before ++ members.map fun member => (member.1, f member.2))) := by
  induction members generalizing before with
  | nil => exact .refl _
  | cons first rest ih =>
    obtain ⟨hfirst, hrest⟩ := List.forall_mem_cons.mp h
    have hothers := ih (before ++ [(first.1, f first.2)]) hrest
    rw [List.append_assoc, List.append_assoc] at hothers
    exact (member before rest first.1 hfirst).trans hothers

lemma forall₂_trans {items middle others : List Json} (h : List.Forall₂ Reordered items middle)
    (hothers : List.Forall₂ Reordered middle others) : List.Forall₂ Reordered items others := by
  induction h generalizing others with
  | nil => exact hothers
  | cons hfirst _ ih =>
    cases hothers with
    | cons hsecond hrest => exact .cons (hfirst.trans hsecond) (ih hrest)

/-- The items of arrays stay where they are. -/
lemma exists_forall₂_of_array (h : Reordered json other) {items : List Json}
    (hitems : json = .array items) :
    ∃ others, other = .array others ∧ List.Forall₂ Reordered items others := by
  induction h generalizing items with
  | refl json => exact ⟨items, hitems, List.forall₂_same.mpr fun _ _ => .refl _⟩
  | trans _ _ ih ihother =>
    obtain ⟨middle, hmiddle, hfirst⟩ := ih hitems
    obtain ⟨others, hothers, hsecond⟩ := ihother hmiddle
    exact ⟨others, hothers, forall₂_trans hfirst hsecond⟩
  | members => cases hitems
  | member => cases hitems
  | item before after h =>
    cases hitems
    have hsame (items : List Json) : List.Forall₂ Reordered items items :=
      List.forall₂_same.mpr fun _ _ => .refl _
    exact ⟨_, rfl, List.rel_append (hsame before) (.cons h (hsame after))⟩

lemma array_iff {items others : List Json} :
    Reordered (.array items) (.array others) ↔ List.Forall₂ Reordered items others := by
  constructor
  · intro h
    obtain ⟨same, hsame, hitems⟩ := h.exists_forall₂_of_array rfl
    obtain rfl := array.inj hsame
    exact hitems
  · exact array_append []

lemma hasDistinctKeys (h : Reordered json other) (hkeys : json.HasDistinctKeys) :
    other.HasDistinctKeys := by
  induction h with
  | refl => exact hkeys
  | trans _ _ ih ihother => exact ihother (ih hkeys)
  | members hperm =>
    rw [hasDistinctKeys_object_iff] at hkeys ⊢
    obtain ⟨hdistinct, hmembers⟩ := hkeys
    exact ⟨(hperm.map Prod.fst).nodup_iff.mp hdistinct, fun member hmember =>
      hmembers member (hperm.mem_iff.mpr hmember)⟩
  | member before after key _ ih =>
    rw [hasDistinctKeys_object_iff, List.forall_mem_append, List.forall_mem_cons] at hkeys ⊢
    obtain ⟨hdistinct, hbefore, hmember, hafter⟩ := hkeys
    exact ⟨by simpa [Table.keys] using hdistinct, hbefore, ih hmember, hafter⟩
  | item before after _ ih =>
    rw [hasDistinctKeys_array_iff, List.forall_mem_append, List.forall_mem_cons] at hkeys ⊢
    obtain ⟨hbefore, hitem, hafter⟩ := hkeys
    exact ⟨hbefore, ih hitem, hafter⟩

end Reordered

/-! ### One form for all orders -/

lemma canonicalItems_eq_map (items : List Json) : canonicalItems items = items.map canonical := by
  induction items with
  | nil => rfl
  | cons item rest ih => rw [canonicalItems, ih, List.map_cons]

/-- The members of a canonical object are those of the object. -/
lemma canonicalMembers_perm {members : List (String × Json)} (h : (Table.keys members).Nodup) :
    (canonicalMembers members).Perm
      (members.map fun member => (member.1, member.2.canonical)) := by
  induction members with
  | nil => exact .refl _
  | cons member rest ih =>
    obtain ⟨hkey, hrest⟩ := List.nodup_cons.mp h
    have hnew : member.1 ∉ (canonicalMembers rest).keys := by
      rw [Table.keys, ((ih hrest).map Prod.fst).mem_iff]
      simpa using hkey
    rw [canonicalMembers]
    exact (Table.insert_perm hnew _).trans ((ih hrest).cons _)

/-- Look-ups determine the canonical form of an object. -/
lemma canonical_object_eq {members others : List (String × Json)} (h : ∀ key,
    (Table.find? key members).map canonical = (Table.find? key others).map canonical) :
    (object members).canonical = (object others).canonical := by
  rw [canonical, canonical, object.injEq]
  refine Table.ext_of_ascending (ascending_canonicalMembers _) (ascending_canonicalMembers _) ?_
  intro key
  rw [find?_canonicalMembers, find?_canonicalMembers, h]

lemma canonical_object_of_perm {members others : List (String × Json)} (h : members.Perm others)
    (hkeys : (Table.keys members).Nodup) :
    (object members).canonical = (object others).canonical :=
  canonical_object_eq fun key => by rw [Table.find?_of_perm h hkeys]

lemma canonical_object_member {json other : Json} (h : json.canonical = other.canonical)
    (before after : List (String × Json)) (key : String) :
    (object (before ++ (key, json) :: after)).canonical =
      (object (before ++ (key, other) :: after)).canonical := by
  refine canonical_object_eq fun name => ?_
  rw [Table.find?_append, Table.find?_append]
  cases Table.find? name before with
  | some _ => rfl
  | none => by_cases hname : key = name <;> simp [Table.find?, hname, h]

lemma canonical_array_item {json other : Json} (h : json.canonical = other.canonical)
    (before after : List Json) : (array (before ++ json :: after)).canonical =
      (array (before ++ other :: after)).canonical := by
  simp [canonical, canonicalItems_eq_map, h]

lemma HasDistinctKeys.reordered_canonical {json : Json} (h : json.HasDistinctKeys) :
    Reordered json json.canonical := by
  induction h with
  | null | bool | number | string => exact .refl _
  | array _ ih =>
    rw [canonical, canonicalItems_eq_map]
    exact Reordered.array_append [] (List.forall₂_map_right_iff.mpr (List.forall₂_same.mpr ih))
  | object hkeys _ ih =>
    have hmembers := Reordered.object_append [] ih
    exact hmembers.trans (.members (canonicalMembers_perm hkeys).symm)

/-- Documents that differ in the order of members only have one canonical form. -/
lemma Reordered.canonical_eq {json other : Json} (h : Reordered json other)
    (hkeys : json.HasDistinctKeys) : json.canonical = other.canonical := by
  induction h with
  | refl => rfl
  | trans hfirst _ ih ihother => exact (ih hkeys).trans (ihother (hfirst.hasDistinctKeys hkeys))
  | members hperm => exact canonical_object_of_perm hperm (hasDistinctKeys_object_iff.mp hkeys).1
  | @member before after key json _ _ ih =>
    have hmember := (hasDistinctKeys_object_iff.mp hkeys).2 (key, json) (by simp)
    exact canonical_object_member (ih hmember) before after key
  | @item before after json _ _ ih =>
    have hitem := hasDistinctKeys_array_iff.mp hkeys json (by simp)
    exact canonical_array_item (ih hitem) before after

/-- The canonical form is a reordering of the document, it is its own canonical form, and it is the
same for exactly the reorderings. Reorderings of an array are those of its items, one by one. -/
theorem canonical_eq_iff_reordered {json other : Json} (h : json.HasDistinctKeys)
    (hother : other.HasDistinctKeys) :
    json.canonical.canonical = json.canonical ∧ Reordered json json.canonical ∧
      (json.canonical = other.canonical ↔ Reordered json other) ∧
      ∀ items others, Reordered (.array items) (.array others) ↔
        List.Forall₂ Reordered items others := by
  have hself := h.reordered_canonical
  refine ⟨(hself.canonical_eq h).symm, hself, ⟨fun hsame => ?_, fun hreordered => ?_⟩,
    fun _ _ => Reordered.array_iff⟩
  · exact hself.trans (hsame ▸ hother.reordered_canonical.symm)
  · exact hreordered.canonical_eq h

/-- Members change places in an object and in one that is a member of it. -/
theorem canonical_eq_iff_reordered_nested :
    let json : Json := .object [("b", .null), ("a", .object [("d", .bool true), ("c", .null)])]
    let other : Json := .object [("a", .object [("c", .null), ("d", .bool true)]), ("b", .null)]
    json.HasDistinctKeys ∧ other.HasDistinctKeys ∧ Reordered json other := by
  intro json other
  have hdistinct : json.HasDistinctKeys := by
    simp [json, hasDistinctKeys_object_iff, Table.keys, HasDistinctKeys.null, HasDistinctKeys.bool]
  have hother : other.HasDistinctKeys := by
    simp [other, hasDistinctKeys_object_iff, Table.keys, HasDistinctKeys.null, HasDistinctKeys.bool]
  have hsame : json.canonical = other.canonical := by
    with_unfolding_all rfl
  exact ⟨hdistinct, hother, (canonical_eq_iff_reordered hdistinct hother).2.2.1.mp hsame⟩

end Json

end EntityGraph
