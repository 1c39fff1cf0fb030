import EntityGraph.Proofs.Mutation.OwnResult
import EntityGraph.Proofs.Program.Calls
/-!
# Actions in turn

The values of a row are resolved one after another, and so are the operations beside it. A run of
all of them is made up of the turns of each, and what they came to is taken together only after the
last turn.
-/
namespace EntityGraph.Mutation

variable {α : Type} {rows : RowAnswers} {trace : List (Program.Exchange Effect)}

/-! ### Actions in turn -/

/-- Runs actions one after another, with their operations on rows answered. -/
def runAll (rows : RowAnswers) (actions : List (Action Rows α)) :
    Program Effect (List (Except Failure α)) :=
  Program.sequence (actions.map fun action => (answered rows action).run)

variable {actions : List (Action Rows α)} {outcomes : List (Except Failure α)}

lemma runAll_flatMap {γ : Type} (actionsOf : γ → List (Action Rows α)) (items : List γ) :
    runAll rows (items.flatMap actionsOf) =
      Program.sequence (items.flatMap fun item =>
        (actionsOf item).map fun action => (answered rows action).run) := by
  rw [runAll, List.map_flatMap]

lemma runAll_singleton_reaches_iff {action : Action Rows α} :
    (runAll rows [action]).Reaches trace (.done outcomes) ↔
      ∃ outcome, (answered rows action).run.Reaches trace (.done outcome) ∧
        outcomes = [outcome] := Program.sequence_singleton_reaches_done_iff

lemma runAll_nil_begins_iff : (runAll rows ([] : List (Action Rows α))).Begins trace ↔ trace = [] :=
  Program.done_begins_iff

lemma runAll_cons_reaches_iff {action : Action Rows α} :
    (runAll rows (action :: actions)).Reaches trace (.done outcomes) ↔
      ∃ first outcome second others, (answered rows action).run.Reaches first (.done outcome) ∧
        (runAll rows actions).Reaches second (.done others) ∧ trace = first ++ second ∧
        outcomes = outcome :: others := by
  simp only [runAll, List.map_cons, Program.sequence, Program.bind_reaches_done_iff,
    Program.done_reaches_iff, Program.done.injEq]
  constructor
  · rintro ⟨first, outcome, _, hfirst, ⟨second, others, _, hsecond, ⟨rfl, rfl⟩, rfl⟩, rfl⟩
    exact ⟨first, outcome, second, others, hfirst, hsecond, by rw [List.append_nil], rfl⟩
  · rintro ⟨first, outcome, second, others, hfirst, hsecond, rfl, rfl⟩
    exact ⟨first, outcome, second, hfirst, ⟨second, others, [], hsecond, ⟨rfl, rfl⟩,
      (List.append_nil second).symm⟩, rfl⟩

lemma begins_of_runAll_singleton {action : Action Rows α}
    (h : (runAll rows [action]).Begins trace) : (answered rows action).run.Begins trace :=
  Program.Begins.of_bind_silent (fun _ => Program.silent_done _) h

/-- What siblings came to, taken together. -/
def together {β γ : Type} (outcome : Except Failure β × List Event) (f : β → γ) :
    Action Rows γ := settle outcome >>= fun b => pure (f b)

section Together

variable {β γ : Type} {outcome : Except Failure β × List Event} {f : β → γ}

/-- Nothing is asked when siblings are taken together. -/
lemma together_reaches_iff {result : Except Failure γ} :
    (answered rows (together outcome f)).run.Reaches trace (.done result) ↔
      trace = [] ∧ result = outcome.1.map f := by
  obtain ⟨outcome, events⟩ := outcome
  induction events with
  | nil =>
    cases outcome with
    | ok b =>
      exact Program.done_reaches_iff.trans (and_congr_right fun _ => by
        rw [Program.done.injEq]; rfl)
    | error failure =>
      exact Program.done_reaches_iff.trans (and_congr_right fun _ => by
        rw [Program.done.injEq]; rfl)
  | cons event rest ih => exact Program.note_reaches_done_iff.trans ih

lemma silent_together : (answered rows (together outcome f)).run.Asks fun _ => False := by
  obtain ⟨outcome, events⟩ := outcome
  induction events with
  | nil => cases outcome <;> trivial
  | cons event rest ih => exact ih

variable {classified : List (Except Failure α) → Except Failure β × List Event}
  {action : Action Rows γ}

/-- An action that runs siblings in turn, and takes what they came to together. -/
lemma answered_eq_of_siblings
    (h : action.run = Program.sequence (actions.map ExceptT.run) >>= fun outcomes =>
      (together (classified outcomes) f).run) :
    (answered rows action).run = runAll rows actions >>= fun outcomes =>
      (answered rows (together (classified outcomes) f)).run := by
  show Program.interpret rows action.run = _
  rw [h]
  refine (Program.interpret_bind _ _).trans ?_
  rw [runAll]
  congr 1
  refine (Program.interpret_sequence _).trans ?_
  rw [List.map_map]
  rfl

lemma reaches_iff_of_siblings
    (h : action.run = Program.sequence (actions.map ExceptT.run) >>= fun outcomes =>
      (together (classified outcomes) f).run) {result : Except Failure γ} :
    (answered rows action).run.Reaches trace (.done result) ↔
      ∃ outcomes, (runAll rows actions).Reaches trace (.done outcomes) ∧
        result = (classified outcomes).1.map f := by
  rw [answered_eq_of_siblings h, Program.bind_reaches_done_iff]
  constructor
  · rintro ⟨first, outcomes, second, hfirst, hsecond, rfl⟩
    obtain ⟨rfl, rfl⟩ := together_reaches_iff.mp hsecond
    exact ⟨outcomes, by rwa [List.append_nil], rfl⟩
  · rintro ⟨outcomes, hrun, rfl⟩
    exact ⟨trace, outcomes, [], hrun, together_reaches_iff.mpr ⟨rfl, rfl⟩,
      (List.append_nil trace).symm⟩

lemma begins_of_siblings
    (h : action.run = Program.sequence (actions.map ExceptT.run) >>= fun outcomes =>
      (together (classified outcomes) f).run) (hbegins : (answered rows action).run.Begins trace) :
    (runAll rows actions).Begins trace := by
  rw [answered_eq_of_siblings h] at hbegins
  exact Program.Begins.of_bind_silent (fun _ => silent_together) hbegins

end Together

/-! ### Values of a row -/

namespace FieldValues

/-- The values of a row, once each of the deferred ones has come to something. -/
def rowOf (values : FieldValues Rows) (kept : List (Except Result (Resolved Rows))) :
    RowValues Rows :=
  ⟨present (slots values kept), kept.flatMap resultsOf, kept.filterMap afterOf?⟩

lemma run_resolve (values : FieldValues Rows) :
    values.resolve.run = Program.sequence (values.deferred.map ExceptT.run) >>= fun outcomes =>
      (together (classify outcomes) (rowOf values)).run := rfl

/-- The deferred values are resolved in turn. -/
lemma resolve_reaches_iff {values : FieldValues Rows} {outcome : Except Failure (RowValues Rows)} :
    (answered rows values.resolve).run.Reaches trace (.done outcome) ↔
      ∃ outcomes, (runAll rows values.deferred).Reaches trace (.done outcomes) ∧
        outcome = (classify outcomes).1.map (rowOf values) :=
  reaches_iff_of_siblings values.run_resolve

lemma begins_of_resolve {values : FieldValues Rows}
    (h : (answered rows values.resolve).run.Begins trace) :
    (runAll rows values.deferred).Begins trace := begins_of_siblings values.run_resolve h

@[simp] lemma deferred_append (values others : FieldValues Rows) :
    deferred (values ++ others) = deferred values ++ deferred others := by
  induction values with
  | nil => rfl
  | cons entry rest ih =>
    obtain ⟨field, value | resolve⟩ := entry
    · exact ih
    · exact congrArg (List.cons resolve) ih

lemma deferred_flatMap {γ : Type} (entriesOf : γ → FieldValues Rows) (items : List γ) :
    deferred (items.flatMap entriesOf) = items.flatMap fun item => deferred (entriesOf item) := by
  induction items with
  | nil => rfl
  | cons item rest ih => rw [List.flatMap_cons, List.flatMap_cons, deferred_append, ih]

end FieldValues

/-! ### Operations beside a row -/

lemma run_collectAll (operations : List (Action Rows (List Result))) :
    (collectAll operations).run = Program.sequence (operations.map ExceptT.run) >>= fun outcomes =>
      (together (classify outcomes) flatten).run := by
  refine congrArg (Program.sequence (operations.map ExceptT.run) >>= ·)
    (funext fun outcomes => ?_)
  show (settle (collect outcomes)).run = (together (classify outcomes) flatten).run
  rw [collect, together]
  obtain ⟨outcome, events⟩ := classify outcomes
  induction events with
  | nil => cases outcome <;> rfl
  | cons event rest ih => exact congrArg (Program.note event) ih

/-- Operations are run in turn, and their results are flattened. -/
lemma collectAll_reaches_iff {operations : List (Action Rows (List Result))}
    {outcome : Except Failure (List Result)} :
    (answered rows (collectAll operations)).run.Reaches trace (.done outcome) ↔
      ∃ outcomes, (runAll rows operations).Reaches trace (.done outcomes) ∧
        outcome = (classify outcomes).1.map flatten :=
  reaches_iff_of_siblings (run_collectAll operations)

lemma begins_of_collectAll {operations : List (Action Rows (List Result))}
    (h : (answered rows (collectAll operations)).run.Begins trace) :
    (runAll rows operations).Begins trace := begins_of_siblings (run_collectAll operations) h

lemma answered_bind {β : Type} (action : Action Rows α) (next : α → Action Rows β) :
    answered rows (action >>= next) = answered rows action >>= fun a => answered rows (next a) := by
  refine ExceptT.ext ((Program.interpret_bind _ _).trans ?_)
  rw [ExceptT.run_bind]
  refine congrArg _ (funext fun outcome => ?_)
  cases outcome <;> rfl

lemma begins_of_finish {row : RowValues Rows}
    (h : (answered rows row.finish).run.Begins trace) : (runAll rows row.after).Begins trace := by
  rw [RowValues.finish, answered_bind] at h
  obtain h | ⟨first, results, second, hfirst, hsecond, rfl⟩ := h.of_run_bind
  · exact begins_of_collectAll h
  · rw [Program.done_begins_iff.mp hsecond, List.append_nil]
    exact begins_of_collectAll hfirst.begins

lemma finish_reaches_ok {row : RowValues Rows} {results : List Result}
    (h : (answered rows row.finish).run.Reaches trace (.done (.ok results))) :
    ∃ more, (answered rows (collectAll row.after)).run.Reaches trace (.done (.ok more)) ∧
      results = row.results ++ more := by
  rw [RowValues.finish, answered_bind] at h
  obtain ⟨first, more, second, hfirst, hsecond, rfl⟩ := h.of_run_bind_ok
  obtain ⟨rfl, hdone⟩ := Program.done_reaches_iff.mp hsecond
  cases hdone
  exact ⟨more, by rwa [List.append_nil], rfl⟩

/-! ### Values that were kept -/

section Kept

variable {β : Type} {outcomes : List (Except Failure β)} {kept : List (Except Result β)}

lemma classify_eq_ok (h : (classify outcomes).1 = .ok kept) :
    (split outcomes).2 = [] ∧ kept = (split outcomes).1 := by
  rw [classify] at h
  split at h
  · rename_i own hsplit
    have hown := Except.ok.inj h
    rw [hsplit, ← hown]
    exact ⟨rfl, rfl⟩
  · cases h

/-- Siblings fail with a failure that is fatal. -/
lemma classify_eq_error {failure : Failure} (h : (classify outcomes).1 = .error failure) :
    failure.outcome? = none := by
  rw [classify] at h
  split at h
  · cases h
  · rename_i own first later hsplit
    cases h
    have hfirst : failure ∈ (split outcomes).2 := by
      rw [hsplit]
      exact List.mem_cons_self
    exact (mem_split_fatal.mp hfirst).2

/-- Where nothing is fatal, what is kept of an outcome is the outcome or its result. -/
lemma split_cons_of_not_fatal {outcome : Except Failure β}
    (h : (split (outcome :: outcomes)).2 = []) :
    (split outcomes).2 = [] ∧
      ∃ own, (split (outcome :: outcomes)).1 = own :: (split outcomes).1 ∧
        ∀ b, own = .ok b ↔ outcome = .ok b := by
  cases outcome with
  | ok b => exact ⟨h, .ok b, rfl, fun _ => by simp⟩
  | error failure =>
    rw [split] at h ⊢
    cases hresult : failure.result? with
    | none =>
      rw [hresult] at h
      cases h
    | some result =>
      rw [hresult] at h
      exact ⟨h, .error result, rfl, fun _ => by simp⟩

end Kept

/-- What a deferred value leaves for after the statement of the row. -/
def leftOf : Except Failure (Resolved Rows) → List (Action Rows (List Result))
  | .ok resolved => resolved.after.toList
  | .error _ => []

lemma filterMap_afterOf? (outcomes : List (Except Failure (Resolved Rows))) :
    (split outcomes).1.filterMap FieldValues.afterOf? = outcomes.flatMap leftOf := by
  induction outcomes with
  | nil => rfl
  | cons outcome rest ih =>
    cases outcome with
    | ok resolved =>
      rw [List.flatMap_cons, ← ih]
      cases hafter : resolved.after <;> simp [split, FieldValues.afterOf?, leftOf, hafter]
    | error failure =>
      rw [List.flatMap_cons, ← ih]
      rw [split]
      cases failure.result? <;> rfl

namespace FieldValues

variable {values : FieldValues Rows} {row : RowValues Rows}

/-- The values of a row that was resolved. -/
lemma resolve_reaches_ok (h : (answered rows values.resolve).run.Reaches trace (.done (.ok row))) :
    ∃ outcomes, (runAll rows values.deferred).Reaches trace (.done outcomes) ∧
      (split outcomes).2 = [] ∧ row = values.rowOf (split outcomes).1 := by
  obtain ⟨outcomes, hrun, houtcome⟩ := resolve_reaches_iff.mp h
  cases hkept : (classify outcomes).1 with
  | error failure =>
    rw [hkept] at houtcome
    cases houtcome
  | ok kept =>
    rw [hkept] at houtcome
    cases houtcome
    have hsplit := classify_eq_ok hkept
    exact ⟨outcomes, hrun, hsplit.1, by rw [hsplit.2]⟩

/-- What a deferred value came to has a slot of its own. -/
lemma exists_slot_of_ok {outcomes : List (Except Failure (Resolved Rows))}
    (hlength : outcomes.length = values.deferred.length) (hfatal : (split outcomes).2 = [])
    {resolved : Resolved Rows} (hmem : .ok resolved ∈ outcomes) :
    ∃ field, (field, resolved.value) ∈ slots values (split outcomes).1 := by
  induction values generalizing outcomes with
  | nil =>
    have hnil : outcomes = [] := List.length_eq_zero_iff.mp hlength
    rw [hnil] at hmem
    cases hmem
  | cons entry rest ih =>
    obtain ⟨field, value | resolve⟩ := entry
    · obtain ⟨other, hother⟩ := ih hlength hfatal hmem
      exact ⟨other, List.mem_cons_of_mem _ hother⟩
    · cases outcomes with
      | nil => cases hmem
      | cons outcome later =>
        have hlater : later.length = (deferred rest).length := Nat.succ.inj hlength
        obtain ⟨hnone, own, hsplit, hown⟩ := split_cons_of_not_fatal hfatal
        rw [hsplit]
        obtain heq | hmem := List.mem_cons.mp hmem
        · rw [(hown resolved).mpr heq.symm]
          exact ⟨field, List.mem_cons_self⟩
        · obtain ⟨other, hother⟩ := ih hlater hnone hmem
          refine ⟨other, ?_⟩
          cases own <;> exact List.mem_cons_of_mem _ hother

/-- A slot that is filled is present. -/
lemma mem_keys_present {filled : List (String × Option Value)} {field : String} {value : Value}
    (h : (field, some value) ∈ filled) : field ∈ Table.keys (present filled) := by
  rw [present, Table.mem_keys_ofPairs, List.mem_map]
  exact ⟨(field, value), List.mem_filterMap.mpr ⟨(field, some value), h, rfl⟩, rfl⟩

lemma present_ne_nil {filled : List (String × Option Value)} {field : String} {value : Value}
    (h : (field, some value) ∈ filled) : present filled ≠ [] := by
  intro hnil
  have hkey := mem_keys_present h
  rw [hnil] at hkey
  cases hkey

end FieldValues

lemma length_of_runAll (h : (runAll rows actions).Reaches trace (.done outcomes)) :
    outcomes.length = actions.length := by
  induction actions generalizing trace outcomes with
  | nil =>
    obtain ⟨-, hdone⟩ := Program.done_reaches_iff.mp h
    cases hdone
    rfl
  | cons action rest ih =>
    obtain ⟨first, outcome, second, others, -, hsecond, -, rfl⟩ := runAll_cons_reaches_iff.mp h
    exact congrArg Nat.succ (ih hsecond)

/-- Along the trace the action had its turn: those before it came to something, and the calls that
it made were carried out. -/
def Turn (rows : RowAnswers) (actions : List (Action Rows α)) (action : Action Rows α)
    (trace : List (Program.Exchange Effect)) (calls : List (Program.Exchange Rows))
    (outcome : Except Failure α) : Prop :=
  ∃ front back before earlier sent after, actions = front ++ action :: back ∧
    (runAll rows front).Reaches before (.done earlier) ∧
    action.run.Reaches calls (.done outcome) ∧ Program.Carries rows calls sent ∧
    trace = before ++ sent ++ after

section Turns

variable {action first : Action Rows α} {calls : List (Program.Exchange Rows)}
  {outcome reply : Except Failure α} {own : List (Program.Exchange Effect)}

/-- The first action has the first turn. -/
lemma exists_turn_head (h : (answered rows action).run.Reaches own (.done outcome))
    (actions : List (Action Rows α)) (more : List (Program.Exchange Effect)) :
    ∃ calls, Turn rows (action :: actions) action (own ++ more) calls outcome := by
  obtain ⟨calls, hcalls, hcarries⟩ := Program.interpret_reaches_done_iff.mp h
  exact ⟨calls, [], actions, [], [], own, more, rfl, .here _, hcalls, hcarries, rfl⟩

/-- The other actions have their turns after it. -/
lemma Turn.cons (h : Turn rows actions action trace calls outcome)
    (hfirst : (answered rows first).run.Reaches own (.done reply)) :
    Turn rows (first :: actions) action (own ++ trace) calls outcome := by
  obtain ⟨front, back, before, earlier, sent, after, rfl, hfront, hcalls, hcarries, rfl⟩ := h
  exact ⟨first :: front, back, own ++ before, reply :: earlier, sent, after, rfl,
    runAll_cons_reaches_iff.mpr ⟨own, reply, before, earlier, hfirst, hfront, rfl, rfl⟩,
    hcalls, hcarries, by simp⟩

/-- What came to an outcome had a turn of its own. -/
lemma exists_turn (h : (runAll rows actions).Reaches trace (.done outcomes))
    (hmem : outcome ∈ outcomes) :
    ∃ action calls, Turn rows actions action trace calls outcome := by
  induction actions generalizing trace outcomes with
  | nil =>
    obtain ⟨-, hdone⟩ := Program.done_reaches_iff.mp h
    cases hdone
    cases hmem
  | cons action rest ih =>
    obtain ⟨own, head, later, others, hown, hlater, rfl, rfl⟩ := runAll_cons_reaches_iff.mp h
    obtain rfl | hmem := List.mem_cons.mp hmem
    · exact ⟨action, exists_turn_head hown rest later⟩
    · obtain ⟨other, calls, hturn⟩ := ih hlater hmem
      exact ⟨other, calls, hturn.cons hown⟩

lemma Turn.mem_actions (h : Turn rows actions action trace calls outcome) : action ∈ actions := by
  obtain ⟨front, back, -, -, -, -, rfl, -⟩ := h
  exact List.mem_append_right _ List.mem_cons_self

/-- The turn is there on a longer trace. -/
lemma Turn.append (h : Turn rows actions action trace calls outcome)
    (more : List (Program.Exchange Effect)) :
    Turn rows actions action (trace ++ more) calls outcome := by
  obtain ⟨front, back, before, earlier, sent, after, rfl, hfront, hcalls, hcarries, rfl⟩ := h
  exact ⟨front, back, before, earlier, sent, after ++ more, rfl, hfront, hcalls, hcarries, by simp⟩

lemma Turn.exists_run (h : Turn rows actions action trace calls outcome) :
    ∃ sent, (answered rows action).run.Reaches sent (.done outcome) := by
  obtain ⟨-, -, -, -, sent, -, -, -, hcalls, hcarries, -⟩ := h
  exact ⟨sent, Program.interpret_reaches_done_iff.mpr ⟨calls, hcalls, hcarries⟩⟩

lemma Turn.reaches (h : Turn rows actions action trace calls outcome) :
    action.run.Reaches calls (.done outcome) := by
  obtain ⟨-, -, -, -, -, -, -, -, hcalls, -⟩ := h
  exact hcalls

/-- What an action came to in its turn is among what all of them came to. -/
lemma Turn.mem (h : Turn rows actions action trace calls outcome)
    {more : List (Program.Exchange Effect)} (hrun : (runAll rows actions).Reaches own
      (.done outcomes)) (htrace : own ++ more = trace) : outcome ∈ outcomes := by
  obtain ⟨front, back, before, earlier, sent, after, rfl, hfront, hcalls, hcarries, rfl⟩ := h
  rw [runAll, List.map_append, List.map_cons] at hrun
  obtain ⟨first, others, second, later, hfirst, hsecond, rfl, rfl⟩ :=
    Program.sequence_append_reaches_done_iff.mp hrun
  obtain ⟨turn, result, rest, hturn, hrest, rfl⟩ := Program.bind_reaches_done_iff.mp hsecond
  obtain ⟨tail, results, last, -, hlast, rfl⟩ := Program.bind_reaches_done_iff.mp hrest
  obtain ⟨rfl, hdone⟩ := Program.done_reaches_iff.mp hlast
  have hstart : before ++ (sent ++ after) = first ++ (turn ++ (tail ++ more)) := by
    simpa using htrace.symm
  obtain ⟨rfl, -⟩ := hfront.prefix_free hfirst hstart
  have hsent : (answered rows action).run.Reaches sent (.done outcome) :=
    Program.interpret_reaches_done_iff.mpr ⟨calls, hcalls, hcarries⟩
  obtain ⟨-, rfl⟩ := hsent.prefix_free hturn (List.append_cancel_left hstart)
  rw [Program.done.inj hdone]
  exact List.mem_append_right _ List.mem_cons_self

end Turns

/-- The calls of a turn are answered along the trace. -/
lemma Turn.exists_stretch {action : Action Rows α} {calls : List (Program.Exchange Rows)}
    {outcome : Except Failure α} (h : Turn rows actions action trace calls outcome)
    {call : Program.Exchange Rows} (hcall : call ∈ calls) :
    ∃ front own back, (rows call.request).Reaches own (.done call.reply) ∧
      trace = front ++ own ++ back := by
  obtain ⟨-, -, before, -, sent, after, -, -, -, hcarries, rfl⟩ := h
  obtain ⟨front, own, back, hown, rfl⟩ := hcarries.exists_stretch hcall
  exact ⟨before ++ front, own, back ++ after, hown, by simp⟩

namespace FieldValues

/-- A value of the row is in a slot. -/
lemma mem_of_mem_present {filled : List (String × Option Value)} {field : String} {value : Value}
    (h : (field, value) ∈ present filled) : (field, some value) ∈ filled := by
  have hpairs : ∀ pair ∈ filled.filterMap fun slot => slot.2.map (slot.1, ·),
      (pair.1, some pair.2) ∈ filled := by
    intro pair hmem
    obtain ⟨⟨name, slot⟩, hslot, hpair⟩ := List.mem_filterMap.mp hmem
    obtain ⟨own, rfl, rfl⟩ := Option.map_eq_some_iff.mp hpair
    exact hslot
  exact (Table.ofPairs_induction hpairs).2 _ h

/-- What fills a slot was given, or came to it in the turn of a deferred value of the field. -/
lemma exists_turn_of_slot {values : FieldValues Rows}
    {outcomes : List (Except Failure (Resolved Rows))}
    (hrun : (runAll rows values.deferred).Reaches trace (.done outcomes))
    (hfatal : (split outcomes).2 = []) {field : String} {value : Value}
    (h : (field, some value) ∈ slots values (split outcomes).1) :
    (field, .value value) ∈ values ∨ ∃ resolve calls resolved,
      (field, .deferred resolve) ∈ values ∧ resolved.value = some value ∧
        Turn rows values.deferred resolve trace calls (.ok resolved) := by
  induction values generalizing trace outcomes with
  | nil => cases h
  | cons entry rest ih =>
    obtain ⟨name, own | resolve⟩ := entry
    · obtain heq | hmem := List.mem_cons.mp h
      · cases heq
        exact .inl List.mem_cons_self
      · obtain hvalue | ⟨resolve, calls, resolved, hentry, hresolved, hturn⟩ := ih hrun hfatal hmem
        · exact .inl (List.mem_cons_of_mem _ hvalue)
        · exact .inr ⟨resolve, calls, resolved, List.mem_cons_of_mem _ hentry, hresolved, hturn⟩
    · obtain ⟨first, outcome, later, others, hfirst, hlater, rfl, rfl⟩ :=
        runAll_cons_reaches_iff.mp hrun
      obtain ⟨hnone, kept, hsplit, hkept⟩ := split_cons_of_not_fatal hfatal
      rw [hsplit] at h
      have hrest (hmem : (field, some value) ∈ slots rest (split others).1) :
          (field, .value value) ∈ (name, .deferred resolve) :: rest ∨
            ∃ inner calls resolved, (field, .deferred inner) ∈ (name, .deferred resolve) :: rest ∧
              resolved.value = some value ∧
              Turn rows (resolve :: deferred rest) inner (first ++ later) calls (.ok resolved) := by
        obtain hvalue | ⟨inner, calls, resolved, hentry, hresolved, hturn⟩ :=
          ih hlater hnone hmem
        · exact .inl (List.mem_cons_of_mem _ hvalue)
        · exact .inr ⟨inner, calls, resolved, List.mem_cons_of_mem _ hentry, hresolved,
            hturn.cons hfirst⟩
      cases kept with
      | error result => exact hrest ((List.mem_cons.mp h).resolve_left fun heq => by cases heq)
      | ok resolved =>
        obtain heq | hmem := List.mem_cons.mp h
        · obtain ⟨rfl, hvalue⟩ := Prod.mk.inj heq
          rw [(hkept resolved).mp rfl] at hfirst
          obtain ⟨calls, hturn⟩ := exists_turn_head hfirst (deferred rest) later
          exact .inr ⟨resolve, calls, resolved, List.mem_cons_self, hvalue.symm, hturn⟩
        · exact hrest hmem

end FieldValues

/-- What holds of every outcome of an action holds however its operations on rows are answered. -/
lemma Returns.of_answered {P : α → Prop} {E : Failure → Prop} {action : Action Rows α}
    (h : Returns .any P E action) {outcome : Except Failure α}
    (hrun : (Mutation.answered rows action).run.Reaches trace (.done outcome)) :
    Satisfies P E outcome :=
  (h.answered fun request _ => Program.meets_answering (rows request)).of_reaches hrun

lemma fatal_of_resolve {values : FieldValues Rows} {failure : Failure}
    (h : (answered rows values.resolve).run.Reaches trace (.done (.error failure))) :
    failure.outcome? = none := by
  obtain ⟨outcomes, -, houtcome⟩ := FieldValues.resolve_reaches_iff.mp h
  cases hkept : (classify outcomes).1 with
  | ok kept =>
    rw [hkept] at houtcome
    cases houtcome
  | error first =>
    rw [hkept] at houtcome
    cases houtcome
    exact classify_eq_error hkept

lemma fatal_of_finish {row : RowValues Rows} {failure : Failure}
    (h : (answered rows row.finish).run.Reaches trace (.done (.error failure))) :
    failure.outcome? = none := by
  rw [RowValues.finish, answered_bind] at h
  obtain ⟨_, hcollect, heq⟩ | ⟨_, _, _, _, hsecond, _⟩ := Program.run_bind_reaches_done_iff.mp h
  · cases heq
    obtain ⟨outcomes, -, houtcome⟩ := collectAll_reaches_iff.mp hcollect
    cases hkept : (classify outcomes).1 with
    | ok kept =>
      rw [hkept] at houtcome
      cases houtcome
    | error first =>
      rw [hkept] at houtcome
      cases houtcome
      exact classify_eq_error hkept
  · cases (Program.done_reaches_iff.mp hsecond).2

/-! ### Operations under a path -/

section Under

variable {I : Interface} (path : Path)

/-- An outcome put under a path. -/
def outcomeUnder : Except Failure (List Result) → Except Failure (List Result)
  | .ok results => .ok (allUnder path results)
  | .error failure => failure.rescued fun result => [result.under path]

/-- What a deferred value came to, put under a path. -/
def resolvedUnder : Except Failure (Resolved I) → Except Failure (Resolved I)
  | .ok resolved => .ok (resolved.under path)
  | .error failure => failure.rescued fun result => .skip [result.under path]

/-- A deferred value, resolved under a path. -/
def resolvingUnder (resolve : Action I (Resolved I)) : Action I (Resolved I) :=
  ExceptT.mk (resolve.run >>= fun outcome => .done (resolvedUnder path outcome))

lemma run_underPath (operation : Action I (List Result)) :
    (underPath path operation).run =
      operation.run >>= fun outcome => .done (outcomeUnder path outcome) := by
  refine congrArg (operation.run >>= ·) (funext fun outcome => ?_)
  cases outcome with
  | ok results => rfl
  | error failure =>
    dsimp only [outcomeUnder, Failure.rescued]
    cases failure.result? <;> rfl

lemma deferUnderPath_eq (resolve : Action I (Resolved I)) :
    deferUnderPath path resolve = .deferred (resolvingUnder path resolve) := by
  refine congrArg FieldValue.deferred (congrArg (resolve.run >>= ·) (funext fun outcome => ?_))
  cases outcome with
  | ok resolved => rfl
  | error failure =>
    dsimp only [resolvedUnder, Failure.rescued]
    cases failure.result? <;> rfl

variable {path}

lemma run_answered_underPath (operation : Action Rows (List Result)) :
    (answered rows (underPath path operation)).run =
      (answered rows operation).run >>= fun outcome => .done (outcomeUnder path outcome) := by
  show Program.interpret rows (underPath path operation).run = _
  rw [run_underPath]
  exact Program.interpret_bind _ _

lemma begins_of_underPath {operation : Action Rows (List Result)}
    (h : (answered rows (underPath path operation)).run.Begins trace) :
    (answered rows operation).run.Begins trace := by
  rw [run_answered_underPath] at h
  exact h.of_bind_silent fun _ => Program.silent_done _

lemma underPath_reaches_iff {operation : Action Rows (List Result)}
    {outcome : Except Failure (List Result)} :
    (answered rows (underPath path operation)).run.Reaches trace (.done outcome) ↔
      ∃ own, (answered rows operation).run.Reaches trace (.done own) ∧
        outcome = outcomeUnder path own := by
  rw [run_answered_underPath]
  exact Program.map_reaches_done_iff

lemma run_answered_resolvingUnder (resolve : Action Rows (Resolved Rows)) :
    (answered rows (resolvingUnder path resolve)).run =
      (answered rows resolve).run >>= fun outcome => .done (resolvedUnder path outcome) :=
  Program.interpret_bind _ _

lemma resolvingUnder_reaches_iff {resolve : Action Rows (Resolved Rows)}
    {outcome : Except Failure (Resolved Rows)} :
    (answered rows (resolvingUnder path resolve)).run.Reaches trace (.done outcome) ↔
      ∃ own, (answered rows resolve).run.Reaches trace (.done own) ∧
        outcome = resolvedUnder path own := by
  rw [run_answered_resolvingUnder]
  exact Program.map_reaches_done_iff

lemma leftOf_resolvedUnder (outcome : Except Failure (Resolved Rows)) :
    leftOf (resolvedUnder path outcome) = (leftOf outcome).map (underPath path) := by
  cases outcome with
  | ok resolved =>
    show (resolved.after.map (underPath path)).toList = _
    cases hafter : resolved.after <;> simp [leftOf, hafter]
  | error failure =>
    rw [resolvedUnder, Failure.rescued]
    cases failure.result? <;> rfl

end Under

/-- An operation on a row, answered. -/
lemma answered_ask (rows : RowAnswers) (request : RowRequest) :
    Program.interpret rows (Program.ask (I := Rows) request Program.done) = rows request :=
  Program.bind_done (rows request)

/-! ### Actions that make one call -/

/-- The action makes one call, and comes to the answer. -/
def MakesCall (action : Action Rows α) (call : Except Failure α → Program.Exchange Rows) : Prop :=
  ∀ calls outcome, action.run.Reaches calls (.done outcome) → calls = [call outcome]

section Calls

variable {β : Type} {action : Action Rows α} {call : Except Failure α → Program.Exchange Rows}
  {next : α → Action Rows β} {calls : List (Program.Exchange Rows)}

/-- What is done with the answer to a call follows the call, unless the answer is a failure. -/
lemma MakesCall.of_bind (h : MakesCall action call) {outcome : Except Failure β}
    (hrun : (action >>= next).run.Reaches calls (.done outcome)) :
    (∃ failure, calls = [call (.error failure)] ∧ outcome = .error failure) ∨
      ∃ a later, calls = call (.ok a) :: later ∧ (next a).run.Reaches later (.done outcome) := by
  obtain ⟨failure, hfailed, rfl⟩ | ⟨first, a, later, hfirst, hlater, rfl⟩ :=
    Program.run_bind_reaches_done_iff.mp hrun
  · exact .inl ⟨failure, h _ _ hfailed, rfl⟩
  · rw [h _ _ hfirst]
    exact .inr ⟨a, later, rfl, hlater⟩

lemma makesCall_insert (entity : Entity) (data : Data) :
    MakesCall (Rows.insert entity data) fun reply => ⟨RowRequest.insert entity data, reply⟩ :=
  fun _ _ => Program.ask_done_reaches_iff.mp

lemma makesCall_update (entity : Entity) (which : UniqueWhere) (data : Data) :
    MakesCall (Rows.update entity which data)
      fun reply => ⟨RowRequest.update entity which data, reply⟩ :=
  fun _ _ => Program.ask_done_reaches_iff.mp

lemma makesCall_delete (entity : Entity) (which : UniqueWhere) :
    MakesCall (Rows.delete entity which) fun reply => ⟨RowRequest.delete entity which, reply⟩ :=
  fun _ _ => Program.ask_done_reaches_iff.mp

lemma makesCall_selectField (entity : Entity) (which : UniqueWhere) (field : String) :
    MakesCall (Rows.selectField entity which field)
      fun reply => ⟨RowRequest.selectField entity which field, reply⟩ :=
  fun _ _ => Program.ask_done_reaches_iff.mp

lemma makesCall_primaryValue (entity : Entity) (which : UniqueWhere) :
    MakesCall (Rows.primaryValue entity which)
      fun reply => ⟨RowRequest.primaryValue entity which, reply⟩ :=
  fun _ _ => Program.ask_done_reaches_iff.mp

end Calls

end EntityGraph.Mutation
