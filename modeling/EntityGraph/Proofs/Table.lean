import EntityGraph.Table
import Mathlib.Data.List.Nodup
/-!
Laws of tables. Where no key comes twice, the entries of a table are exactly what look-ups find.
-/
namespace EntityGraph.Table

variable {α : Type} {key : String} {entry : α} {table : Table α}

@[simp] lemma keys_cons (pair : String × α) (table : Table α) :
    keys (pair :: table) = pair.1 :: keys table := rfl

lemma mem_of_find? (h : table.find? key = some entry) : (key, entry) ∈ table := by
  induction table with
  | nil => contradiction
  | cons pair rest ih =>
    obtain ⟨k, a⟩ := pair
    by_cases hk : k = key
    · subst hk
      rw [find?, if_pos rfl, Option.some_inj] at h
      rw [h]
      exact List.mem_cons_self
    · rw [find?, if_neg hk] at h
      exact List.mem_cons_of_mem _ (ih h)

lemma find?_eq_none (h : key ∉ table.keys) : table.find? key = none := by
  cases hfind : table.find? key with
  | none => rfl
  | some entry => exact absurd (List.mem_map.mpr ⟨_, mem_of_find? hfind, rfl⟩) h

theorem find?_eq_some_iff (hn : table.keys.Nodup) :
    table.find? key = some entry ↔ (key, entry) ∈ table := by
  refine ⟨mem_of_find?, fun h => ?_⟩
  induction table with
  | nil => contradiction
  | cons pair rest ih =>
    obtain ⟨k, a⟩ := pair
    rw [keys_cons, List.nodup_cons] at hn
    rcases List.mem_cons.mp h with heq | hmem
    · rw [Prod.mk.injEq] at heq
      rw [find?, if_pos heq.1.symm, heq.2]
    · have hk : k ≠ key := by
        rintro rfl
        exact hn.1 (List.mem_map.mpr ⟨_, hmem, rfl⟩)
      rw [find?, if_neg hk, ih hn.2 hmem]

lemma mem_keys_put {other : String} :
    other ∈ (table.put key entry).keys ↔ other = key ∨ other ∈ table.keys := by
  induction table with
  | nil => simp [put, keys]
  | cons pair rest ih =>
    obtain ⟨k, a⟩ := pair
    by_cases hk : k = key
    · subst hk
      simp [put]
    · rw [put, if_neg hk, keys_cons, keys_cons, List.mem_cons, List.mem_cons, ih]
      tauto

lemma nodup_keys_put (h : table.keys.Nodup) : (table.put key entry).keys.Nodup := by
  induction table with
  | nil => simp [put, keys]
  | cons pair rest ih =>
    obtain ⟨k, a⟩ := pair
    rw [keys_cons, List.nodup_cons] at h
    by_cases hk : k = key
    · subst hk
      rw [put, if_pos rfl, keys_cons, List.nodup_cons]
      exact h
    · rw [put, if_neg hk, keys_cons, List.nodup_cons, mem_keys_put]
      exact ⟨by rintro (hk' | hmem) <;> tauto, ih h.2⟩

lemma mem_put {pair : String × α} (h : pair ∈ table.put key entry) :
    pair = (key, entry) ∨ pair ∈ table := by
  induction table with
  | nil => exact .inl (by simpa [put] using h)
  | cons first rest ih =>
    obtain ⟨k, a⟩ := first
    by_cases hk : k = key
    · rw [put, if_pos hk, List.mem_cons] at h
      exact h.imp id (List.mem_cons_of_mem _)
    · rw [put, if_neg hk, List.mem_cons] at h
      rcases h with h | h
      · exact .inr (h ▸ List.mem_cons_self)
      · exact (ih h).imp id (List.mem_cons_of_mem _)

lemma mem_insert {pair : String × α} (h : pair ∈ table.insert key entry) :
    pair = (key, entry) ∨ pair ∈ table := by
  induction table with
  | nil => exact .inl (by simpa [insert] using h)
  | cons first rest ih =>
    obtain ⟨k, a⟩ := first
    by_cases hk : k = key
    · rw [insert, if_pos hk, List.mem_cons] at h
      exact h.imp id (List.mem_cons_of_mem _)
    · rw [insert, if_neg hk] at h
      split at h
      · exact List.mem_cons.mp h
      · rcases List.mem_cons.mp h with h | h
        · exact .inr (h ▸ List.mem_cons_self)
        · exact (ih h).imp id (List.mem_cons_of_mem _)

/-- What holds of every pair put into a table holds of its entries, and no key comes twice. -/
theorem ofPairs_induction {P : String × α → Prop} {pairs : List (String × α)}
    (h : ∀ pair ∈ pairs, P pair) :
    (ofPairs pairs).keys.Nodup ∧ ∀ pair ∈ ofPairs pairs, P pair := by
  have hfold : ∀ table : Table α, table.keys.Nodup → (∀ pair ∈ table, P pair) →
      (pairs.foldl (fun table pair => table.put pair.1 pair.2) table).keys.Nodup ∧
        ∀ pair ∈ pairs.foldl (fun table pair => table.put pair.1 pair.2) table, P pair := by
    induction pairs with
    | nil => exact fun table hn hp => ⟨hn, hp⟩
    | cons pair rest ih =>
      intro table hn hp
      rw [List.forall_mem_cons] at h
      refine ih h.2 _ (nodup_keys_put hn) fun other ho => ?_
      rcases mem_put ho with heq | hmem
      · exact heq ▸ h.1
      · exact hp other hmem
  exact hfold [] (by simp [keys]) (by simp)

lemma put_of_not_mem (h : key ∉ table.keys) : table.put key entry = table ++ [(key, entry)] := by
  induction table with
  | nil => rfl
  | cons first rest ih =>
    obtain ⟨k, a⟩ := first
    rw [keys_cons, List.mem_cons, not_or] at h
    rw [put, if_neg (Ne.symm h.1), ih h.2, List.cons_append]

/-- Pairs with keys of their own are a table as they stand. -/
lemma ofPairs_eq_self {pairs : List (String × α)} (h : (pairs.map Prod.fst).Nodup) :
    ofPairs pairs = pairs := by
  have hfold : ∀ table : Table α, (keys (table ++ pairs)).Nodup →
      pairs.foldl (fun table pair => table.put pair.1 pair.2) table = table ++ pairs := by
    clear h
    induction pairs with
    | nil => exact fun table _ => (List.append_nil table).symm
    | cons pair rest ih =>
      intro table hn
      have hnew : pair.1 ∉ table.keys := by
        rw [keys, List.map_append, List.map_cons] at hn
        exact fun hmem => (List.nodup_append.mp hn).2.2 _ hmem _ List.mem_cons_self rfl
      rw [List.foldl_cons, put_of_not_mem hnew]
      rw [← List.singleton_append, ← List.append_assoc] at hn
      rw [ih _ hn, List.append_assoc, List.singleton_append]
  exact hfold [] h

/-- A table has the keys of the pairs that were put into it. -/
lemma mem_keys_ofPairs {pairs : List (String × α)} :
    key ∈ (ofPairs pairs).keys ↔ key ∈ pairs.map Prod.fst := by
  have hfold : ∀ table : Table α,
      key ∈ (pairs.foldl (fun table pair => table.put pair.1 pair.2) table).keys ↔
        key ∈ table.keys ∨ key ∈ pairs.map Prod.fst := by
    induction pairs with
    | nil => simp
    | cons pair rest ih =>
      intro table
      rw [List.foldl_cons, ih, mem_keys_put, List.map_cons, List.mem_cons]
      tauto
  simpa [keys, ofPairs] using hfold []

end EntityGraph.Table
