import EntityGraph.Marker
import EntityGraph.Proofs.Schema.Building
import EntityGraph.Proofs.Table.Joining
/-!
# What merging does under each name

Merging goes through the incoming entries one by one. What comes out is the joined table: what
stands under a name afterwards depends on what stood under it on both sides and on nothing else.
-/
namespace EntityGraph

namespace Marker

/-- The three ways in which two markers make one. -/
inductive Merged : Marker → Marker → Marker → Prop
  | field (present incoming : FieldMarker) :
      Merged (.field present) (.field incoming) (.field ⟨present.field,
        present.default <|> incoming.default, present.isNonbearing && incoming.isNonbearing⟩)
  | connection {present incoming : ConnectionMarker}
      (htarget : present.target.equal incoming.target) :
      Merged (.connection present) (.connection incoming)
        (.connection { present with isNonbearing := present.isNonbearing && incoming.isNonbearing })
  | reference {field : String} {present incoming result : List (String × Reference)}
      (h : mergeReferences present incoming = .ok result) :
      Merged (.reference ⟨field, present⟩) (.reference ⟨field, incoming⟩)
        (.reference ⟨field, result⟩)

lemma merged_of_merge {present incoming merged : Marker}
    (h : merge present incoming = .ok merged) : Merged present incoming merged := by
  cases incoming with
  | field incoming =>
    cases present with
    | field present =>
      cases h
      exact .field present incoming
    | connection => cases h
    | reference => cases h
  | connection incoming =>
    cases present with
    | connection present =>
      rw [merge] at h
      split at h
      · rename_i htarget
        cases h
        exact .connection htarget
      · cases h
    | field => cases h
    | reference => cases h
  | reference incoming =>
    cases present with
    | reference present =>
      obtain ⟨field, present⟩ := present
      obtain ⟨name, incoming⟩ := incoming
      rw [merge] at h
      split at h
      · rename_i hname
        obtain ⟨result, hresult, h⟩ := Except.bind_eq_ok.mp h
        cases hname
        cases h
        exact .reference hresult
      · cases h
    | field => cases h
    | connection => cases h

/-- A reference joined with one that comes in under the same name. -/
def JoinsReference (a b c : Reference) : Prop :=
  ∃ fields, mergeFields a.fields b.fields = .ok fields ∧
    c = { a with fields, initialEntityCount := max a.initialEntityCount b.initialEntityCount }

def JoinsMarker (a b c : Marker) : Prop := merge a b = .ok c

/-- References that are merged are joined under every name. -/
theorem mergeReferences_eq_ok_iff {present incoming result : List (String × Reference)}
    (hpresent : (Table.keys present).Nodup) (hincoming : (Table.keys incoming).Nodup) :
    mergeReferences present incoming = .ok result ↔
      Table.Joined JoinsReference present incoming result := by
  induction incoming generalizing present with
  | nil =>
    rw [mergeReferences, Except.ok.injEq, Table.joined_nil_iff hpresent]
    exact eq_comm
  | cons pair rest ih =>
    obtain ⟨name, ⟨constraints, placeholder, fields, count⟩⟩ := pair
    obtain ⟨hnew, hrest⟩ := List.nodup_cons.mp hincoming
    rw [mergeReferences, Table.joined_cons_iff hnew]
    have hput (after : Reference) : (Table.keys (Table.put name after present)).Nodup :=
      Table.nodup_keys_put hpresent
    have ih (after : Reference) := ih (hput after) hrest
    cases hfind : Table.find? name present with
    | none => simp [Table.JoinsAt, ih]
    | some found =>
      simp only [Table.JoinsAt, Option.some.injEq, exists_eq_right', ← ih]
      rw [Except.bind_eq_ok]
      constructor
      · rintro ⟨merged, hmerged, h⟩
        exact ⟨_, ⟨merged, hmerged, rfl⟩, h⟩
      · rintro ⟨_, ⟨merged, hmerged, rfl⟩, h⟩
        exact ⟨merged, hmerged, h⟩

/-- A marker is put under its own name, joined with what stands there. -/
lemma insertBy_eq_ok_iff {mergeInto : Marker → Except MarkerError Marker} {marker : Marker}
    {fields result : Table Marker} :
    insertBy mergeInto marker fields = .ok result ↔
      ∃ after, result = fields.put marker.placeholder after ∧
        Table.JoinsAt (fun present _ after => mergeInto present = .ok after)
          (fields.find? marker.placeholder) (some marker) (some after) := by
  unfold insertBy
  cases hfind : fields.find? marker.placeholder with
  | none => simp [Table.JoinsAt, eq_comm]
  | some present =>
    constructor
    · intro h
      obtain ⟨after, hafter, h⟩ := Except.bind_eq_ok.mp h
      cases h
      exact ⟨after, rfl, after, hafter, rfl⟩
    · rintro ⟨_, rfl, after, hafter, heq⟩
      exact Except.bind_eq_ok.mpr ⟨after, hafter, by cases heq; rfl⟩

/-- Markers that are merged are joined under every name, if the incoming ones stand under their
own. -/
theorem mergeFields_eq_ok_iff {present incoming result : List (String × Marker)}
    (hpresent : (Table.keys present).Nodup) (hincoming : (Table.keys incoming).Nodup)
    (hplaces : ∀ pair ∈ incoming, pair.1 = pair.2.placeholder) :
    mergeFields present incoming = .ok result ↔
      Table.Joined JoinsMarker present incoming result := by
  induction incoming generalizing present with
  | nil =>
    rw [mergeFields, Except.ok.injEq, Table.joined_nil_iff hpresent]
    exact eq_comm
  | cons pair rest ih =>
    obtain ⟨name, marker⟩ := pair
    obtain ⟨hnew, hrest⟩ := List.nodup_cons.mp hincoming
    obtain ⟨hname, hothers⟩ := List.forall_mem_cons.mp hplaces
    obtain rfl : name = marker.placeholder := hname
    have hat (after : Marker) :
        Table.JoinsAt (fun present _ after => merge present marker = .ok after)
          (Table.find? marker.placeholder present) (some marker) (some after) ↔
        Table.JoinsAt JoinsMarker (Table.find? marker.placeholder present) (some marker)
          (some after) := by
      cases Table.find? marker.placeholder present <;> rfl
    rw [mergeFields, Except.bind_eq_ok, Table.joined_cons_iff hnew]
    constructor
    · rintro ⟨next, hnext, h⟩
      obtain ⟨after, rfl, hafter⟩ := insertBy_eq_ok_iff.mp hnext
      exact ⟨after, (hat after).mp hafter,
        (ih (Table.nodup_keys_put hpresent) hrest hothers).mp h⟩
    · rintro ⟨after, hafter, h⟩
      exact ⟨_, insertBy_eq_ok_iff.mpr ⟨after, rfl, (hat after).mpr hafter⟩,
        (ih (Table.nodup_keys_put hpresent) hrest hothers).mpr h⟩

end Marker

end EntityGraph
