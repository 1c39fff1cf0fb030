import EntityGraph.Value.Order
import Mathlib.Algebra.Order.Field.Power
import Mathlib.Algebra.Order.Field.Rat
import Mathlib.Data.String.Basic
import Mathlib.Order.Compare
import Mathlib.Tactic
/-!
Laws of the order of values. Decimals are compared as the rational numbers they stand for, and
values that compare equal are interchangeable in every comparison.
-/
namespace EntityGraph

namespace Decimal

/-- The number that a decimal stands for. -/
def toRat (d : Decimal) : ℚ := d.unscaled * (10 : ℚ) ^ (-d.scale)

lemma toRat_eq_shift (d : Decimal) {scale : ℤ} (h : d.scale ≤ scale) :
    d.toRat =
      ((d.unscaled * Nat.pow 10 (scale - d.scale).toNat : ℤ) : ℚ) * (10 : ℚ) ^ (-scale) := by
  obtain ⟨n, hn⟩ := Int.eq_ofNat_of_zero_le (sub_nonneg.mpr h)
  have hs : -d.scale = (n : ℤ) + -scale := by omega
  rw [toRat, hs, zpow_add₀ (by norm_num), hn]
  simp [mul_assoc]

lemma cmp_toRat_align (a b : Decimal) :
    cmp a.toRat b.toRat = Ord.compare (align a b).1 (align a b).2 := by
  have hpos : (0 : ℚ) < 10 ^ (-(max a.scale b.scale)) := by positivity
  rw [toRat_eq_shift a (le_max_left _ b.scale), toRat_eq_shift b (le_max_right a.scale _),
    cmp_mul_pos_right hpos, Int.cast_strictMono.cmp_map_eq, cmp_eq_compare]
  rfl

lemma toRat_zero {d : Decimal} (h : d.unscaled = 0) : d.toRat = 0 := by simp [toRat, h]

lemma toRat_pos {d : Decimal} (h : 0 < d.unscaled) : 0 < d.toRat := by
  have hu : (0 : ℚ) < d.unscaled := by exact_mod_cast h
  unfold toRat
  positivity

lemma toRat_neg {d : Decimal} (h : d.unscaled < 0) : d.toRat < 0 := by
  have hu : (d.unscaled : ℚ) < 0 := by exact_mod_cast h
  exact mul_neg_of_neg_of_pos hu (by positivity)

/-- Decimals are compared as the numbers that they stand for. -/
theorem compare_eq_cmp (a b : Decimal) : a.compare b = cmp a.toRat b.toRat := by
  have hsign : Int.sign a.unscaled = Int.sign b.unscaled → a.unscaled ≠ 0 → b.unscaled ≠ 0 →
      a.compare b = cmp a.toRat b.toRat := by
    intro hs ha hb
    rw [cmp_toRat_align, compare, if_neg (by simp [ha, hb, hs])]
  rcases lt_trichotomy a.unscaled 0 with ha | ha | ha <;>
    rcases lt_trichotomy b.unscaled 0 with hb | hb | hb
  · exact hsign (by rw [Int.sign_eq_neg_one_of_neg ha, Int.sign_eq_neg_one_of_neg hb]) ha.ne hb.ne
  · rw [toRat_zero hb, (cmp_eq_lt_iff _ _).mpr (toRat_neg ha)]
    simp [compare, hb, Int.sign_eq_neg_one_of_neg ha]
    rfl
  · rw [(cmp_eq_lt_iff _ _).mpr ((toRat_neg ha).trans (toRat_pos hb))]
    simp [compare, Int.sign_eq_neg_one_of_neg ha, Int.sign_eq_one_of_pos hb]
    rfl
  · rw [toRat_zero ha, (cmp_eq_gt_iff _ _).mpr (toRat_neg hb)]
    simp [compare, ha, Int.sign_eq_neg_one_of_neg hb]
    rfl
  · rw [toRat_zero ha, toRat_zero hb, cmp_self_eq_eq]
    simp [compare, ha, hb]
  · rw [toRat_zero ha, (cmp_eq_lt_iff _ _).mpr (toRat_pos hb)]
    simp [compare, ha, Int.sign_eq_one_of_pos hb]
    rfl
  · rw [(cmp_eq_gt_iff _ _).mpr ((toRat_neg hb).trans (toRat_pos ha))]
    simp [compare, Int.sign_eq_one_of_pos ha, Int.sign_eq_neg_one_of_neg hb]
    rfl
  · rw [toRat_zero hb, (cmp_eq_gt_iff _ _).mpr (toRat_pos ha)]
    simp [compare, hb, Int.sign_eq_one_of_pos ha]
    rfl
  · exact hsign (by rw [Int.sign_eq_one_of_pos ha, Int.sign_eq_one_of_pos hb]) ha.ne' hb.ne'

end Decimal

namespace Value

lemma compareText_eq_cmp (a b : String) : compareText a b = cmp a b := by
  rw [cmp_eq_compare, compareText]
  rcases lt_trichotomy a b with h | h | h
  · rw [if_pos h, compare_lt_iff_lt.mpr h]
  · subst h
    simp
  · rw [if_neg h.not_gt, if_neg h.ne', compare_gt_iff_gt.mpr h]

lemma compare_of_rank_ne {a b : Value} (h : a.rank ≠ b.rank) :
    compare a b = cmp a.rank b.rank := by
  rw [cmp_eq_compare]
  cases a <;> cases b <;> first | rfl | exact absurd rfl h

/-! Comparisons in the order of what is compared -/

section

variable {β : Type} [LinearOrder β] {x y z : β} {r s t : Ordering}

lemma swap_of_cmp (hr : r = cmp x y) (hs : s = cmp y x) : r.swap = s := by
  rw [hr, hs, cmp_swap]

lemma congr_of_cmp (hr : r = cmp x y) (hs : s = cmp x z) (ht : t = cmp y z) (h : r = .eq) :
    s = t := by
  have hxy : x = y := (cmp_eq_eq_iff x y).mp (hr.symm.trans h)
  rw [hs, ht, hxy]

end

mutual
/-- Exchanging two values exchanges less and greater. -/
theorem compare_swap (a b : Value) : (compare a b).swap = compare b a := by
  by_cases h : a.rank = b.rank
  · cases a <;> cases b <;> simp only [rank] at h <;> try contradiction
    case string.string a b => exact swap_of_cmp (compareText_eq_cmp a b) (compareText_eq_cmp b a)
    case boolean.boolean a b => cases a <;> cases b <;> rfl
    case int.int a b => exact swap_of_cmp (cmp_eq_compare _ _).symm (cmp_eq_compare _ _).symm
    case uuid.uuid a b => exact swap_of_cmp (cmp_eq_compare _ _).symm (cmp_eq_compare _ _).symm
    case float.float a b =>
      exact swap_of_cmp (Decimal.compare_eq_cmp a b) (Decimal.compare_eq_cmp b a)
    case literal.literal a b => exact swap_of_cmp (compareText_eq_cmp a b) (compareText_eq_cmp b a)
    case list.list as bs => exact compareLists_swap as bs
    case null.null => rfl
  · rw [compare_of_rank_ne h, compare_of_rank_ne (Ne.symm h), cmp_swap]
termination_by structural a

theorem compareLists_swap (as bs : List Value) :
    (compareLists as bs).swap = compareLists bs as := by
  cases as with
  | nil => cases bs <;> rfl
  | cons a as =>
    cases bs with
    | nil => rfl
    | cons b bs =>
      rw [compareLists, Ordering.swap_then, compare_swap a b, compareLists_swap as bs, compareLists]
termination_by structural as
end

lemma rank_eq_of_compare {a b : Value} (h : compare a b = .eq) : a.rank = b.rank := by
  by_contra hr
  rw [compare_of_rank_ne hr, cmp_eq_eq_iff] at h
  exact hr h

mutual
/-- Values that compare equal compare alike with every other value. -/
theorem compare_congr {a b : Value} (h : compare a b = .eq) (c : Value) :
    compare a c = compare b c := by
  have hr := rank_eq_of_compare h
  by_cases hc : b.rank = c.rank
  · cases a <;> cases b <;> simp only [rank] at hr <;> try contradiction
    all_goals cases c <;> simp only [rank] at hc <;> try contradiction
    case string.string.string a b c =>
      exact congr_of_cmp (compareText_eq_cmp a b) (compareText_eq_cmp a c)
        (compareText_eq_cmp b c) h
    case boolean.boolean.boolean a b c =>
      revert h
      cases a <;> cases b <;> cases c <;> decide
    case int.int.int a b c =>
      exact congr_of_cmp (cmp_eq_compare _ _).symm (cmp_eq_compare _ _).symm
        (cmp_eq_compare _ _).symm h
    case uuid.uuid.uuid a b c =>
      exact congr_of_cmp (cmp_eq_compare _ _).symm (cmp_eq_compare _ _).symm
        (cmp_eq_compare _ _).symm h
    case float.float.float a b c =>
      exact congr_of_cmp (Decimal.compare_eq_cmp a b) (Decimal.compare_eq_cmp a c)
        (Decimal.compare_eq_cmp b c) h
    case literal.literal.literal a b c =>
      exact congr_of_cmp (compareText_eq_cmp a b) (compareText_eq_cmp a c)
        (compareText_eq_cmp b c) h
    case list.list.list as bs cs => exact compareLists_congr h cs
    case null.null.null => rfl
  · rw [compare_of_rank_ne hc, compare_of_rank_ne (hr ▸ hc), hr]
termination_by structural a

theorem compareLists_congr {as bs : List Value} (h : compareLists as bs = .eq) (cs : List Value) :
    compareLists as cs = compareLists bs cs := by
  cases as with
  | nil => cases bs <;> first | rfl | simp [compareLists] at h
  | cons a as =>
    cases bs with
    | nil => simp [compareLists] at h
    | cons b bs =>
      rw [compareLists, Ordering.then_eq_eq] at h
      cases cs with
      | nil => rfl
      | cons c cs =>
        rw [compareLists, compareLists, compare_congr h.1 c, compareLists_congr h.2 cs]
termination_by structural as
end

lemma compare_eq_comm {a b : Value} : compare a b = .eq ↔ compare b a = .eq := by
  rw [← compare_swap a b, Ordering.swap_eq_eq]

end Value

end EntityGraph
