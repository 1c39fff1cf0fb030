import EntityGraph.Proofs.Program.Calls
/-!
# What programs spend

Questions have prices, and a question without one must not be asked. A budget is enough for a
program if no run of it spends more; programs that run one after another need the sum of theirs.
Surroundings that answer every question with a price lead such a program to its end, whatever their
answers are.
-/
namespace EntityGraph

variable {I : Interface} {α β γ ε : Type}

namespace Program

/-- What the questions of a trace cost. -/
def cost (price : I.Request → Option Nat) : List (Exchange I) → Nat
  | [] => 0
  | exchange :: rest => (price exchange.request).getD 0 + cost price rest

/-- Whatever the answers, the program asks only what has a price, and the budget is enough for all
of it. -/
def CostsAtMost (price : I.Request → Option Nat) : Program I α → Nat → Prop
  | .done _, _ => True
  | .note _ rest, budget => rest.CostsAtMost price budget
  | .ask request next, budget => ∃ own left, price request = some own ∧ own + left ≤ budget ∧
      ∀ reply, (next reply).CostsAtMost price left

variable {price : I.Request → Option Nat} {program : Program I α} {next : α → Program I β}
  {budget more : Nat} {trace : List (Exchange I)}

lemma CostsAtMost.mono (h : program.CostsAtMost price budget) (hle : budget ≤ more) :
    program.CostsAtMost price more := by
  induction program generalizing budget more with
  | done a => trivial
  | note event rest ih => exact ih h hle
  | ask request answered ih =>
    obtain ⟨own, left, hprice, hown, hrest⟩ := h
    exact ⟨own, left, hprice, Nat.le_trans hown hle, hrest⟩

/-- Without questions nothing is spent. -/
lemma Asks.costsAtMost (h : program.Asks fun _ => False) : program.CostsAtMost price budget := by
  induction program with
  | done a => trivial
  | note event rest ih => exact ih h
  | ask request answered ih => exact h.1.elim

/-- What goes on has to be paid for only after runs that come to something. -/
lemma costsAtMost_bind (h : program.CostsAtMost price budget)
    (hnext : ∀ trace a, program.Reaches trace (.done a) → (next a).CostsAtMost price more) :
    (program >>= next).CostsAtMost price (budget + more) := by
  induction program generalizing budget with
  | done a => exact (hnext [] a (.here _)).mono (Nat.le_add_left more budget)
  | note event rest ih => exact ih h fun trace a hrun => hnext trace a (.note hrun)
  | ask request answered ih =>
    obtain ⟨own, left, hprice, hown, hrest⟩ := h
    refine ⟨own, left + more, hprice, by omega, fun reply => ?_⟩
    exact ih reply (hrest reply) fun trace a hrun => hnext _ a (.ask hrun)

lemma costsAtMost_run_bind {action : ExceptT ε (Program I) α} {next : α → ExceptT ε (Program I) β}
    (h : action.run.CostsAtMost price budget)
    (hnext : ∀ trace a, action.run.Reaches trace (.done (.ok a)) →
      (next a).run.CostsAtMost price more) :
    (action >>= next).run.CostsAtMost price (budget + more) := by
  rw [ExceptT.run_bind]
  refine costsAtMost_bind h fun trace outcome hrun => ?_
  cases outcome with
  | ok a => exact hnext trace a hrun
  | error e => trivial

/-- What is made of a result is free. -/
lemma costsAtMost_map (h : program.CostsAtMost price budget) (f : α → β) :
    (program >>= fun a => .done (f a)).CostsAtMost price budget := by
  induction program generalizing budget with
  | done a => trivial
  | note event rest ih => exact ih h
  | ask request answered ih =>
    obtain ⟨own, left, hprice, hown, hrest⟩ := h
    exact ⟨own, left, hprice, hown, fun reply => ih reply (hrest reply)⟩

/-- In a sequence both parts are paid for. -/
lemma costsAtMost_sequence_append {programs others : List (Program I α)}
    (h : (sequence programs).CostsAtMost price budget)
    (hothers : (sequence others).CostsAtMost price more) :
    (sequence (programs ++ others)).CostsAtMost price (budget + more) := by
  rw [sequence_append]
  exact costsAtMost_bind h fun _ _ _ => costsAtMost_map hothers _

lemma costsAtMost_sequence_singleton (h : program.CostsAtMost price budget) :
    (sequence [program]).CostsAtMost price budget :=
  costsAtMost_map h fun a => [a]

/-- No run spends more than the budget, also where it breaks off. -/
theorem CostsAtMost.of_reaches {rest : Program I α} (h : program.CostsAtMost price budget)
    (hrun : program.Reaches trace rest) :
    (∀ exchange ∈ trace, (price exchange.request).isSome = true) ∧ cost price trace ≤ budget := by
  induction hrun generalizing budget with
  | here => exact ⟨fun _ hmem => absurd hmem List.not_mem_nil, Nat.zero_le budget⟩
  | note _ ih => exact ih h
  | ask _ ih =>
    obtain ⟨own, left, hprice, hown, hnext⟩ := h
    obtain ⟨hpriced, hleft⟩ := ih (hnext _)
    refine ⟨List.forall_mem_cons.mpr ⟨by rw [hprice]; rfl, hpriced⟩, ?_⟩
    rw [cost, hprice, Option.getD_some]
    exact Nat.le_trans (Nat.add_le_add_left hleft own) hown

/-- Surroundings that answer whatever has a price lead the program to its end. -/
theorem CostsAtMost.exists_trace? (h : program.CostsAtMost price budget) {σ : Type}
    {answer : (request : I.Request) → σ → Option (I.Reply request × σ)}
    (hanswer : ∀ request state, (price request).isSome = true →
      (answer request state).isSome = true)
    (state : σ) : ∃ trace a, program.trace? answer state = some (trace, a) := by
  induction program generalizing budget state with
  | done a => exact ⟨[], a, rfl⟩
  | note event rest ih => exact ih h state
  | ask request answered ih =>
    obtain ⟨own, left, hprice, -, hnext⟩ := h
    have hsome := hanswer request state (by rw [hprice]; rfl)
    obtain ⟨⟨reply, later⟩, hreply⟩ := Option.isSome_iff_exists.mp hsome
    obtain ⟨trace, a, htrace⟩ := ih reply (hnext reply) later
    exact ⟨⟨request, reply⟩ :: trace, a,
      Option.bind_eq_some_iff.mpr ⟨(reply, later), hreply,
        Option.bind_eq_some_iff.mpr ⟨(trace, a), htrace, rfl⟩⟩⟩

end Program

end EntityGraph
