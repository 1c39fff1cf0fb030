import EntityGraph.Proofs.Sql.Tokens
import EntityGraph.Proofs.Sql.Truth
/-!
# The grammar of conditions

`OR` binds weakest, then `AND`, then `NOT`, then comparisons, `IS NULL` and `IN`; parentheses group.
Each level is a type of its own, so a tree of the loosest type is a derivation, and a parse of some
tokens is a tree that has them. Two trees with the same tokens are the same tree.
-/
namespace EntityGraph

namespace Comparison

def symbol : Comparison → String
  | equal => "="
  | notEqual => "<>"
  | less => "<"
  | lessOrEqual => "<="
  | greater => ">"
  | greaterOrEqual => ">="

lemma symbol_injective : Function.Injective symbol := by
  intro a b h
  cases a <;> cases b <;> first | rfl | exact absurd h (by decide)

end Comparison

namespace Sql

inductive Operand where
  | column (name : String)
  | placeholder (number : Nat)

mutual
inductive Disjunction where
  | one (operand : Conjunction)
  | or (operand : Conjunction) (rest : Disjunction)

inductive Conjunction where
  | one (operand : Negation)
  | and (operand : Negation) (rest : Conjunction)

inductive Negation where
  | one (operand : Primary)
  | not (operand : Negation)

inductive Primary where
  | group (inner : Disjunction)
  /-- The comparison `1=1` or `1=0`. -/
  | constant (holds : Bool)
  | compare (left : Operand) (comparison : Comparison) (right : Operand)
  | isNull (operand : Operand)
  | isIn (operand first : Operand) (rest : List Operand)
  /-- Membership in one column of the rows of a table under a condition. -/
  | member (operand : Operand) (selected table : String) (condition : Disjunction)
end

/-! ### Tokens -/

def Operand.token : Operand → Token
  | column name => .name name
  | placeholder number => .placeholder number

/-- Operands, each behind a comma. -/
def furtherTokens (operands : List Operand) : List Token :=
  operands.flatMap fun operand => [.symbol ',', operand.token]

mutual
def Disjunction.tokens : Disjunction → List Token
  | .one operand => operand.tokens
  | .or operand rest => operand.tokens ++ .word "OR" :: rest.tokens
termination_by structural condition => condition

def Conjunction.tokens : Conjunction → List Token
  | .one operand => operand.tokens
  | .and operand rest => operand.tokens ++ .word "AND" :: rest.tokens
termination_by structural condition => condition

def Negation.tokens : Negation → List Token
  | .one operand => operand.tokens
  | .not operand => .word "NOT" :: operand.tokens
termination_by structural condition => condition

def Primary.tokens : Primary → List Token
  | .group inner => .symbol '(' :: inner.tokens ++ [.symbol ')']
  | .constant holds => [.word "1", .operator "=", .word (if holds then "1" else "0")]
  | .compare left comparison right => [left.token, .operator comparison.symbol, right.token]
  | .isNull operand => [operand.token, .word "IS", .word "NULL"]
  | .isIn operand first rest =>
    operand.token :: .word "IN" :: .symbol '(' :: first.token :: furtherTokens rest ++ [.symbol ')']
  | .member operand selected table condition =>
    operand.token :: .word "IN" :: .symbol '(' :: .word "SELECT" :: .name selected ::
      .word "FROM" :: .name table :: .word "WHERE" :: condition.tokens ++ [.symbol ')']
termination_by structural condition => condition
end

/-! ### Unique reading -/

namespace Operand

lemma token_injective : Function.Injective token := by
  rintro (_ | _) (_ | _) h <;> simp_all [token]

@[simp] lemma token_inj {a b : Operand} : a.token = b.token ↔ a = b := token_injective.eq_iff

@[simp] lemma token_ne_word (operand : Operand) (text : String) : operand.token ≠ .word text := by
  cases operand <;> nofun

@[simp] lemma token_ne_symbol (operand : Operand) (c : Char) : operand.token ≠ .symbol c := by
  cases operand <;> nofun

@[simp] lemma word_ne_token (operand : Operand) (text : String) : .word text ≠ operand.token :=
  (operand.token_ne_word text).symm

@[simp] lemma symbol_ne_token (operand : Operand) (c : Char) : .symbol c ≠ operand.token :=
  (operand.token_ne_symbol c).symm

end Operand

/-- A list of operands is at its end where no comma follows. -/
lemma eq_of_furtherTokens_append {left right : List Operand} {rest others : List Token}
    (hrest : rest.head? ≠ some (.symbol ','))
    (hothers : others.head? ≠ some (.symbol ','))
    (h : furtherTokens left ++ rest = furtherTokens right ++ others) :
    left = right ∧ rest = others := by
  induction left generalizing right with
  | nil =>
    cases right with
    | nil => exact ⟨rfl, h⟩
    | cons operand operands => exact absurd (congrArg List.head? h) hrest
  | cons operand operands ih =>
    cases right with
    | nil => exact absurd (congrArg List.head? h).symm hothers
    | cons operand' operands' =>
      simp only [furtherTokens, List.flatMap_cons, List.cons_append, List.nil_append,
        List.cons.injEq, true_and, Operand.token_inj] at h
      obtain ⟨rfl, h⟩ := h
      obtain ⟨rfl, hmore⟩ := ih h
      exact ⟨rfl, hmore⟩

mutual
/-- Two derivations with the same tokens agree, whatever follows each, unless one goes on
with it. -/
theorem Disjunction.eq_of_append (left right : Disjunction) {rest others : List Token}
    (hrest : rest.head? ≠ some (.word "AND") ∧ rest.head? ≠ some (.word "OR"))
    (hothers : others.head? ≠ some (.word "AND") ∧ others.head? ≠ some (.word "OR"))
    (h : left.tokens ++ rest = right.tokens ++ others) : left = right ∧ rest = others := by
  cases left with
  | one operand =>
    cases right with
    | one operand' =>
      obtain ⟨rfl, hmore⟩ := operand.eq_of_append operand' hrest.1 hothers.1 h
      exact ⟨rfl, hmore⟩
    | or operand' rest' =>
      rw [Disjunction.tokens, Disjunction.tokens, List.append_assoc] at h
      obtain ⟨rfl, rfl⟩ := operand.eq_of_append operand' hrest.1 (by simp) h
      exact absurd rfl hrest.2
  | or operand further =>
    cases right with
    | one operand' =>
      rw [Disjunction.tokens, Disjunction.tokens, List.append_assoc] at h
      obtain ⟨rfl, rfl⟩ := operand.eq_of_append operand' (by simp) hothers.1 h
      exact absurd rfl hothers.2
    | or operand' further' =>
      rw [Disjunction.tokens, Disjunction.tokens, List.append_assoc, List.append_assoc] at h
      obtain ⟨rfl, hmore⟩ := operand.eq_of_append operand' (by simp) (by simp) h
      obtain ⟨rfl, hend⟩ := further.eq_of_append further' hrest hothers (List.cons.inj hmore).2
      exact ⟨rfl, hend⟩
termination_by structural left

theorem Conjunction.eq_of_append (left right : Conjunction) {rest others : List Token}
    (hrest : rest.head? ≠ some (.word "AND")) (hothers : others.head? ≠ some (.word "AND"))
    (h : left.tokens ++ rest = right.tokens ++ others) : left = right ∧ rest = others := by
  cases left with
  | one operand =>
    cases right with
    | one operand' =>
      obtain ⟨rfl, hmore⟩ := operand.eq_of_append operand' h
      exact ⟨rfl, hmore⟩
    | and operand' rest' =>
      rw [Conjunction.tokens, Conjunction.tokens, List.append_assoc] at h
      obtain ⟨rfl, rfl⟩ := operand.eq_of_append operand' h
      exact absurd rfl hrest
  | and operand further =>
    cases right with
    | one operand' =>
      rw [Conjunction.tokens, Conjunction.tokens, List.append_assoc] at h
      obtain ⟨rfl, rfl⟩ := operand.eq_of_append operand' h
      exact absurd rfl hothers
    | and operand' further' =>
      rw [Conjunction.tokens, Conjunction.tokens, List.append_assoc, List.append_assoc] at h
      obtain ⟨rfl, hmore⟩ := operand.eq_of_append operand' h
      obtain ⟨rfl, hend⟩ := further.eq_of_append further' hrest hothers (List.cons.inj hmore).2
      exact ⟨rfl, hend⟩
termination_by structural left

theorem Negation.eq_of_append (left right : Negation) {rest others : List Token}
    (h : left.tokens ++ rest = right.tokens ++ others) : left = right ∧ rest = others := by
  cases left with
  | one operand =>
    cases right with
    | one operand' =>
      obtain ⟨rfl, hmore⟩ := operand.eq_of_append operand' h
      exact ⟨rfl, hmore⟩
    | not operand' => cases operand <;> simp [Negation.tokens, Primary.tokens] at h
  | not operand =>
    cases right with
    | one operand' => cases operand' <;> simp [Negation.tokens, Primary.tokens] at h
    | not operand' =>
      obtain ⟨rfl, hmore⟩ := operand.eq_of_append operand' (List.cons.inj h).2
      exact ⟨rfl, hmore⟩
termination_by structural left

theorem Primary.eq_of_append (left right : Primary) {rest others : List Token}
    (h : left.tokens ++ rest = right.tokens ++ others) : left = right ∧ rest = others := by
  -- An atom is told from one of another kind by its first four tokens.
  cases left with
  | group inner =>
    cases right with
    | group inner' =>
      simp only [Primary.tokens, List.cons_append, List.append_assoc, List.nil_append,
        List.cons.injEq, true_and] at h
      obtain ⟨rfl, hmore⟩ := inner.eq_of_append inner' (by simp) (by simp) h
      exact ⟨rfl, (List.cons.inj hmore).2⟩
    | _ => simp [Primary.tokens] at h
  | constant holds =>
    cases right with
    | constant holds' => cases holds <;> cases holds' <;> simp_all [Primary.tokens]
    | _ => simp [Primary.tokens] at h
  | compare a comparison b =>
    cases right with
    | compare a' comparison' b' =>
      simpa [Primary.tokens, Comparison.symbol_injective.eq_iff, and_assoc] using h
    | _ => simp [Primary.tokens] at h
  | isNull operand =>
    cases right with
    | isNull operand' => simpa [Primary.tokens] using h
    | _ => simp [Primary.tokens] at h
  | isIn operand first further =>
    cases right with
    | isIn operand' first' further' =>
      simp only [Primary.tokens, List.cons_append, List.append_assoc, List.nil_append,
        List.cons.injEq, true_and, Operand.token_inj] at h
      obtain ⟨rfl, rfl, h⟩ := h
      obtain ⟨rfl, hmore⟩ := eq_of_furtherTokens_append (by simp) (by simp) h
      exact ⟨rfl, (List.cons.inj hmore).2⟩
    | _ => simp [Primary.tokens] at h
  | member operand selected table condition =>
    cases right with
    | member operand' selected' table' condition' =>
      simp only [Primary.tokens, List.cons_append, List.append_assoc, List.nil_append,
        List.cons.injEq, true_and, Operand.token_inj, Token.name.injEq] at h
      obtain ⟨rfl, rfl, rfl, h⟩ := h
      obtain ⟨rfl, hmore⟩ := condition.eq_of_append condition' (by simp) (by simp) h
      exact ⟨rfl, (List.cons.inj hmore).2⟩
    | _ => simp [Primary.tokens] at h
termination_by structural left
end

end Sql

end EntityGraph
