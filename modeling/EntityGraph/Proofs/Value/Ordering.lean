import EntityGraph.Proofs.Number.Digits
import Mathlib.Data.List.Sort
/-!
# The order of values is total

Values that are the same, and no others, compare equal. Kinds come in the order of their
declaration, decimals in that of their numbers and lists lexicographically, however deep they are
nested. Hence sorting is stable and changes nothing when it is done again.
-/
namespace EntityGraph.Value

/-! ### Values that are the same -/

lemma compare_self (value : Value) : compare value value = .eq := by
  have hswap := compare_swap value value
  cases h : compare value value with
  | eq => rfl
  | lt =>
    rw [h] at hswap
    cases hswap
  | gt =>
    rw [h] at hswap
    cases hswap

mutual
/-- Values compare equal exactly if they are the same. -/
theorem compare_eq_iff_equal (a b : Value) : compare a b = .eq ↔ a.equal b = true := by
  by_cases hrank : a.rank = b.rank
  · cases a <;> cases b <;> simp only [rank] at hrank <;> try contradiction
    case string.string a b =>
      rw [compare, equal, compareText_eq_cmp, cmp_eq_eq_iff, decide_eq_true_iff]
    case boolean.boolean a b => cases a <;> cases b <;> decide
    case int.int a b => simp [compare, equal, Int64.toInt_inj]
    case uuid.uuid a b =>
      obtain ⟨a⟩ := a
      obtain ⟨b⟩ := b
      simp [compare, equal, Uuid.compare, BitVec.toNat_inj]
    case float.float a b =>
      rw [compare, equal, Decimal.compare_eq_cmp, cmp_eq_eq_iff, Decimal.equal_iff_toRat_eq]
    case literal.literal a b =>
      rw [compare, equal, compareText_eq_cmp, cmp_eq_eq_iff, decide_eq_true_iff]
    case list.list as bs => exact compareLists_eq_iff_equal as bs
    case null.null => exact ⟨fun _ => rfl, fun _ => rfl⟩
  · refine ⟨fun h => absurd (rank_eq_of_compare h) hrank, fun h => ?_⟩
    cases a <;> cases b <;> first | exact absurd rfl hrank | cases h
termination_by structural a

theorem compareLists_eq_iff_equal (as bs : List Value) :
    compareLists as bs = .eq ↔ equalLists as bs = true := by
  cases as with
  | nil => cases bs <;> simp [compareLists, equalLists]
  | cons a as =>
    cases bs with
    | nil => simp [compareLists, equalLists]
    | cons b bs =>
      rw [compareLists, equalLists, Ordering.then_eq_eq, Bool.and_eq_true,
        compare_eq_iff_equal a b, compareLists_eq_iff_equal as bs]
termination_by structural as
end

/-! ### Transitivity -/

section

variable {β : Type} [LinearOrder β] {x y z : β} {r s t : Ordering}

lemma isLE_cmp_iff : (cmp x y).isLE ↔ x ≤ y := by
  rw [Ordering.isLE_iff_ne_gt, cmp_eq_gt_iff, not_lt]

lemma isLE_of_cmp (hr : r = cmp x y) (hs : s = cmp y z) (ht : t = cmp x z) (hxy : r.isLE)
    (hyz : s.isLE) : t.isLE := by
  rw [hr, isLE_cmp_iff] at hxy
  rw [hs, isLE_cmp_iff] at hyz
  rw [ht, isLE_cmp_iff]
  exact hxy.trans hyz

end

lemma compare_of_rank_lt {a b : Value} (h : a.rank < b.rank) : compare a b = .lt := by
  rw [compare_of_rank_ne h.ne, cmp_eq_lt_iff]
  exact h

lemma rank_le_of_isLE {a b : Value} (h : (compare a b).isLE) : a.rank ≤ b.rank := by
  by_cases hrank : a.rank = b.rank
  · exact hrank.le
  · rwa [compare_of_rank_ne hrank, isLE_cmp_iff] at h

/-- In a chain whose ends compare equal everything does. -/
lemma eq_of_chain {a b c : Value} (hab : (compare a b).isLE) (hbc : (compare b c).isLE)
    (hac : compare a c = .eq) : compare a b = .eq ∧ compare b c = .eq := by
  have hswap : compare a b = (compare b c).swap := by rw [compare_congr hac b, compare_swap]
  rw [hswap] at hab ⊢
  cases h : compare b c <;> simp_all

mutual
theorem compare_isLE_trans {a b c : Value} (hab : (compare a b).isLE) (hbc : (compare b c).isLE) :
    (compare a c).isLE := by
  by_cases hrank : a.rank = b.rank ∧ b.rank = c.rank
  · obtain ⟨hr, hc⟩ := hrank
    cases a <;> cases b <;> simp only [rank] at hr <;> try contradiction
    all_goals cases c <;> simp only [rank] at hc <;> try contradiction
    case string.string.string a b c =>
      exact isLE_of_cmp (compareText_eq_cmp a b) (compareText_eq_cmp b c)
        (compareText_eq_cmp a c) hab hbc
    case boolean.boolean.boolean a b c =>
      exact isLE_of_cmp (cmp_eq_compare _ _).symm (cmp_eq_compare _ _).symm
        (cmp_eq_compare _ _).symm hab hbc
    case int.int.int a b c =>
      exact isLE_of_cmp (cmp_eq_compare _ _).symm (cmp_eq_compare _ _).symm
        (cmp_eq_compare _ _).symm hab hbc
    case uuid.uuid.uuid a b c =>
      exact isLE_of_cmp (cmp_eq_compare _ _).symm (cmp_eq_compare _ _).symm
        (cmp_eq_compare _ _).symm hab hbc
    case float.float.float a b c =>
      exact isLE_of_cmp (Decimal.compare_eq_cmp a b) (Decimal.compare_eq_cmp b c)
        (Decimal.compare_eq_cmp a c) hab hbc
    case literal.literal.literal a b c =>
      exact isLE_of_cmp (compareText_eq_cmp a b) (compareText_eq_cmp b c)
        (compareText_eq_cmp a c) hab hbc
    case list.list.list as bs cs => exact compareLists_isLE_trans hab hbc
    case null.null.null => rfl
  · have hle := rank_le_of_isLE hab
    have hle' := rank_le_of_isLE hbc
    rw [compare_of_rank_lt (by omega)]
    rfl
termination_by structural a

theorem compareLists_isLE_trans {as bs cs : List Value} (hab : (compareLists as bs).isLE)
    (hbc : (compareLists bs cs).isLE) : (compareLists as cs).isLE := by
  cases as with
  | nil => cases cs <;> rfl
  | cons a as =>
    cases bs with
    | nil => contradiction
    | cons b bs =>
      cases cs with
      | nil => contradiction
      | cons c cs =>
        rw [compareLists, Ordering.isLE_then_iff_and] at hab hbc ⊢
        have hac := compare_isLE_trans hab.1 hbc.1
        refine ⟨hac, ?_⟩
        -- The tails decide only behind heads that compare equal, and then all three heads do.
        by_cases heq : compare a c = .eq
        · obtain ⟨heq₁, heq₂⟩ := eq_of_chain hab.1 hbc.1 heq
          exact .inr (compareLists_isLE_trans (hab.2.resolve_left (by simp [heq₁]))
            (hbc.2.resolve_left (by simp [heq₂])))
        · cases h : compare a c <;> simp_all
termination_by structural as
end

lemma compare_isLE_total (a b : Value) : (compare a b).isLE ∨ (compare b a).isLE := by
  rw [← compare_swap a b]
  cases compare a b <;> simp

lemma compareLists_eq_compareLex (as bs : List Value) :
    compareLists as bs = List.compareLex compare as bs := by
  induction as generalizing bs with
  | nil => cases bs <;> rfl
  | cons a as ih =>
    cases bs with
    | nil => rfl
    | cons b bs => rw [compareLists, List.compareLex_cons_cons, ih]

/-! ### Sorting -/

lemma perm_sort (values : List Value) : (sort values).Perm values := List.mergeSort_perm ..

lemma pairwise_sort (values : List Value) :
    (sort values).Pairwise fun a b => (compare a b).isLE := by
  apply List.pairwise_mergeSort
  · exact fun _ _ _ => compare_isLE_trans
  · exact fun a b => (Bool.or_eq_true _ _).mpr (compare_isLE_total a b)

lemma sort_sort (values : List Value) : sort (sort values) = sort values :=
  List.mergeSort_of_pairwise (pairwise_sort values)

/-- Values that are the same as a given one keep their order. -/
lemma filter_equal_sort (value : Value) (values : List Value) :
    (sort values).filter value.equal = values.filter value.equal := by
  have hsame : (values.filter value.equal).Pairwise fun a b => (compare a b).isLE := by
    refine List.pairwise_of_forall_mem_list fun a ha b hb => ?_
    have hva := (compare_eq_iff_equal value a).mpr (List.mem_filter.mp ha).2
    have hvb := (compare_eq_iff_equal value b).mpr (List.mem_filter.mp hb).2
    rw [← compare_congr hva b, hvb]
    rfl
  have hsub : (values.filter value.equal).Sublist (sort values) := by
    apply List.sublist_mergeSort _ _ hsame List.filter_sublist
    · exact fun _ _ _ => compare_isLE_trans
    · exact fun a b => (Bool.or_eq_true _ _).mpr (compare_isLE_total a b)
  have hfilter := hsub.filter value.equal
  rw [List.filter_filter] at hfilter
  simp only [Bool.and_self] at hfilter
  exact (hfilter.eq_of_length ((perm_sort values).filter _).length_eq.symm).symm

/-- Values are totally ordered up to being the same, and sorting them is stable. -/
theorem totally_ordered :
    (∀ a b : Value, (compare a b).isLE ∨ (compare b a).isLE) ∧
    (∀ a b c : Value, (compare a b).isLE → (compare b c).isLE → (compare a c).isLE) ∧
    (∀ a b : Value, (compare a b).isLE → (compare b a).isLE → a.equal b) ∧
    (∀ a b : Value, compare a b = .eq ↔ a.equal b) ∧
    (∀ a b : Decimal, compare (.float a) (.float b) = cmp a.toRat b.toRat) ∧
    (∀ (n : Int64) (d : Decimal), (int n).equal (.float d) = false) ∧
    (∀ a b : Value, a.ctorIdx < b.ctorIdx → compare a b = .lt) ∧
    (∀ as bs : List Value, compare (.list as) (.list bs) = List.compareLex compare as bs) ∧
    (∀ values : List Value, (sort values).Perm values ∧
      (sort values).Pairwise (fun a b => (compare a b).isLE) ∧
      (∀ value : Value, (sort values).filter value.equal = values.filter value.equal) ∧
      sort (sort values) = sort values) := by
  refine ⟨compare_isLE_total, fun _ _ _ => compare_isLE_trans, ?antisymm, compare_eq_iff_equal,
    Decimal.compare_eq_cmp, fun _ _ => rfl, ?kinds, compareLists_eq_compareLex, fun values =>
    ⟨perm_sort values, pairwise_sort values, fun value => filter_equal_sort value values,
      sort_sort values⟩⟩
  case antisymm =>
    intro a b hab hba
    rw [← compare_swap a b] at hba
    rw [← compare_eq_iff_equal]
    cases h : compare a b <;> simp_all
  case kinds =>
    have hrank (value : Value) : value.ctorIdx = value.rank := by cases value <;> rfl
    intro a b h
    rw [hrank, hrank] at h
    exact compare_of_rank_lt h

example : compare (.list [.float ⟨15, 1⟩, .int 2]) (.list [.float ⟨150, 2⟩, .int 10]) = .lt := by
  decide +kernel

end EntityGraph.Value
