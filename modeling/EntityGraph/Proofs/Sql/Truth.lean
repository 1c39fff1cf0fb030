import EntityGraph.Proofs.Value.Comparison
import EntityGraph.Comparison
/-!
The three truth values of SQL. A comparison with `NULL` is unknown, and a row is selected only by a
condition that holds.
-/
namespace EntityGraph

inductive Truth where
  | holds
  | fails
  | unknown
deriving DecidableEq

namespace Truth

def ofBool (flag : Bool) : Truth := if flag then holds else fails

def not : Truth → Truth
  | holds => fails
  | fails => holds
  | unknown => unknown

def and : Truth → Truth → Truth
  | fails, _ => fails
  | _, fails => fails
  | holds, holds => holds
  | _, _ => unknown

def or : Truth → Truth → Truth
  | holds, _ => holds
  | _, holds => holds
  | fails, fails => fails
  | _, _ => unknown

def all (truths : List Truth) : Truth := truths.foldr and holds

def any (truths : List Truth) : Truth := truths.foldr or fails

@[simp] lemma ofBool_eq_holds {flag : Bool} : ofBool flag = holds ↔ flag = true := by
  cases flag <;> simp [ofBool]

@[simp] lemma and_holds (a : Truth) : a.and holds = a := by cases a <;> rfl

@[simp] lemma or_fails (a : Truth) : a.or fails = a := by cases a <;> rfl

lemma and_eq_holds {a b : Truth} : a.and b = holds ↔ a = holds ∧ b = holds := by
  cases a <;> cases b <;> simp [and]

lemma or_eq_holds {a b : Truth} : a.or b = holds ↔ a = holds ∨ b = holds := by
  cases a <;> cases b <;> simp [or]

lemma not_eq_holds {a : Truth} : a.not = holds ↔ a = fails := by
  cases a <;> simp [not]

lemma or_eq_fails {a b : Truth} : a.or b = fails ↔ a = fails ∧ b = fails := by
  cases a <;> cases b <;> simp [or]

theorem all_eq_holds {truths : List Truth} :
    all truths = holds ↔ ∀ truth ∈ truths, truth = holds := by
  induction truths with
  | nil => simp [all]
  | cons truth rest ih =>
    rw [List.forall_mem_cons, ← ih]
    exact and_eq_holds

theorem any_eq_holds {truths : List Truth} :
    any truths = holds ↔ ∃ truth ∈ truths, truth = holds := by
  induction truths with
  | nil => simp [any]
  | cons truth rest ih =>
    rw [List.exists_mem_cons_iff, ← ih]
    exact or_eq_holds

theorem any_eq_fails {truths : List Truth} :
    any truths = fails ↔ ∀ truth ∈ truths, truth = fails := by
  induction truths with
  | nil => simp [any]
  | cons truth rest ih =>
    rw [List.forall_mem_cons, ← ih]
    exact or_eq_fails

end Truth

namespace Comparison

/-- Whether two values in this order pass the comparison. -/
def accepts : Comparison → Ordering → Bool
  | equal, order => order.isEq
  | notEqual, order => order.isNe
  | less, order => order.isLT
  | lessOrEqual, order => order.isLE
  | greater, order => order.isGT
  | greaterOrEqual, order => order.isGE

def test (comparison : Comparison) (a b : Value) : Truth :=
  if a.isNull || b.isNull then .unknown else .ofBool (comparison.accepts (Value.compare a b))

lemma equal_test_eq_holds {a b : Value} :
    equal.test a b = .holds ↔ a.isNull = false ∧ b.isNull = false ∧ Value.compare a b = .eq := by
  rw [test]
  cases a.isNull <;> cases b.isNull <;> simp [accepts, Ordering.isEq_iff_eq_eq]

lemma equal_test_eq_fails {a b : Value} :
    equal.test a b = .fails ↔
      a.isNull = false ∧ b.isNull = false ∧ equal.test a b ≠ .holds := by
  rw [test]
  cases a.isNull <;> cases b.isNull <;> simp [Truth.ofBool]

lemma equal_test_comm {a b : Value} : equal.test a b = .holds ↔ equal.test b a = .holds := by
  rw [equal_test_eq_holds, equal_test_eq_holds, Value.compare_eq_comm]
  tauto

lemma equal_test_trans {a b c : Value} (hab : equal.test a b = .holds)
    (hbc : equal.test b c = .holds) : equal.test a c = .holds := by
  rw [equal_test_eq_holds] at *
  exact ⟨hab.1, hbc.2.1, (Value.compare_congr hab.2.2 c).trans hbc.2.2⟩

/-- Equal values pass the same comparisons. -/
lemma test_congr {a b : Value} (h : equal.test a b = .holds) (comparison : Comparison) (c : Value) :
    comparison.test a c = comparison.test b c := by
  obtain ⟨ha, hb, hab⟩ := equal_test_eq_holds.mp h
  rw [test, test, ha, hb, Value.compare_congr hab c]

end Comparison

end EntityGraph
