import EntityGraph.Proofs.Json.Canonical
import EntityGraph.Proofs.Number.Digits
import EntityGraph.Value.Json
/-!
# The tagged form of values

The tagged form is the same document exactly for values that are the same, decimals being compared
as numbers. It is canonical and free of doubles.
-/
namespace EntityGraph.Value

mutual
/-- Kinds are told apart by their tags, and values of one kind by what is written under the tag. -/
theorem toTaggedJson_eq_iff (a b : Value) : a.toTaggedJson = b.toTaggedJson ↔ a.equal b := by
  cases a with
  | string | boolean | null =>
    cases b <;> simp [toTaggedJson, equal, Json.integer]
  | int n =>
    cases b <;> simp [toTaggedJson, equal, Json.integer, Int64.toInt_inj]
  | literal word =>
    cases b <;> simp [toTaggedJson, equal, Json.integer]
  | uuid id =>
    cases b <;> simp [toTaggedJson, equal, Json.integer, Uuid.text_injective.eq_iff]
  | float d =>
    cases b <;> simp [toTaggedJson, equal, Json.integer, Decimal.text_normalize_eq_iff]
  | list items =>
    cases b with
    | list others =>
      have hitems := allToTaggedJson_eq_iff items others
      simpa [toTaggedJson, equal] using hitems
    | _ => simp [toTaggedJson, equal, Json.integer]
termination_by structural a

theorem allToTaggedJson_eq_iff (as bs : List Value) :
    allToTaggedJson as = allToTaggedJson bs ↔ equalLists as bs := by
  cases as with
  | nil => cases bs <;> simp [allToTaggedJson, equalLists]
  | cons a as =>
    cases bs with
    | nil => simp [allToTaggedJson, equalLists]
    | cons b bs =>
      rw [allToTaggedJson, allToTaggedJson, List.cons.injEq, toTaggedJson_eq_iff a b,
        allToTaggedJson_eq_iff as bs, equalLists, Bool.and_eq_true]
termination_by structural as
end

lemma fitsInt64_toInt (n : Int64) : Number.fitsInt64 n.toInt := by
  have hlow := n.le_toInt
  have hhigh := n.toInt_lt
  simp [Number.fitsInt64]
  omega

mutual
lemma isExact_toTaggedJson (value : Value) : value.toTaggedJson.IsExact := by
  cases value with
  | int n => exact fitsInt64_toInt n
  | list items => exact areExact_allToTaggedJson items
  | _ => simp [toTaggedJson, Json.IsExact, Json.MembersExact]
termination_by structural value

lemma areExact_allToTaggedJson (items : List Value) : Json.AreExact (allToTaggedJson items) := by
  cases items with
  | nil => trivial
  | cons item rest => exact ⟨isExact_toTaggedJson item, areExact_allToTaggedJson rest⟩
termination_by structural items
end

mutual
/-- A tag is the only member of its object. -/
@[simp] lemma canonical_toTaggedJson (value : Value) :
    value.toTaggedJson.canonical = value.toTaggedJson := by
  cases value with
  | list items => rw [toTaggedJson, Json.canonical, canonicalItems_allToTaggedJson items]
  | _ => rfl
termination_by structural value

@[simp] lemma canonicalItems_allToTaggedJson (items : List Value) :
    Json.canonicalItems (allToTaggedJson items) = allToTaggedJson items := by
  cases items with
  | nil => rfl
  | cons item rest =>
    rw [allToTaggedJson, Json.canonicalItems, canonical_toTaggedJson item,
      canonicalItems_allToTaggedJson rest]
termination_by structural items
end

lemma allToTaggedJson_eq_map (items : List Value) :
    allToTaggedJson items = items.map toTaggedJson := by
  induction items with
  | nil => rfl
  | cons item rest ih => rw [allToTaggedJson, ih, List.map_cons]

/-- The keys that kinds of values are written under. -/
def tags : List String := ["uuid", "float", "literal"]

lemma exists_tag_of_object {value : Value} {members : List (String × Json)}
    (h : value.toTaggedJson = .object members) :
    ∃ tag ∈ tags, ∃ text, members = [(tag, .string text)] := by
  cases value with
  | uuid id => exact ⟨"uuid", by decide, id.text, (Json.object.inj h).symm⟩
  | float d => exact ⟨"float", by decide, d.normalize.text, (Json.object.inj h).symm⟩
  | literal word => exact ⟨"literal", by decide, word, (Json.object.inj h).symm⟩
  | _ => simp [toTaggedJson, Json.integer] at h

end EntityGraph.Value
