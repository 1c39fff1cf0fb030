import EntityGraph.Mutation.RowWriter
import EntityGraph.Proofs.Mutation.Collecting
/-!
# What actions come to

An action comes to a value or fails; under a contract each has a property of its own, carried from
the parts of an action to the whole. A failure that is a result may end up among the results, so
siblings ask that such results have the property of all others; what siblings fail with is fatal.
-/
namespace EntityGraph

/-- A contract that permits every question, and the answers that have a property. -/
def Contract.answering {I : Interface} {τ : Type} (P : Program.Exchange I → Prop) :
    Contract I τ := ⟨fun _ => True, fun request _ reply => P ⟨request, reply⟩⟩

/-- A contract that permits every question and every answer. -/
abbrev Contract.any {I : Interface} {τ : Type} : Contract I τ := .answering fun _ => True

namespace Program

variable {I : Interface} {τ α : Type} {P : Exchange I → Prop}

lemma meets_answering (program : Program I α) :
    program.Meets (.answering P : Contract I τ) fun _ _ => True := by
  induction program with
  | done a => trivial
  | note event rest ih => exact ih
  | ask request next ih => exact ⟨trivial, fun _ reply _ => ih reply⟩

lemma logs_answering {trace : List (Exchange I)} (h : ∀ exchange ∈ trace, P exchange) :
    Logs (.answering P : Contract I τ) trace [] := by
  induction trace with
  | nil => exact .nil
  | cons exchange rest ih =>
    obtain ⟨hexchange, hrest⟩ := List.forall_mem_cons.mp h
    have hcons : Logs (.answering P : Contract I τ) (exchange :: rest) ([] ++ []) :=
      .cons hexchange (ih hrest)
    exact hcons

end Program

namespace Mutation

variable {α β : Type} {I : Interface} {C : Contract I (Program.Exchange Effect)}
  {action : Action I α} {next : α → Action I β} {P P' : α → Prop} {Q : β → Prop}
  {E E' : Failure → Prop} {R R' : Result → Prop}

/-- What an outcome is, or what it failed with, has the property for it. -/
def Satisfies {ε : Type} (P : α → Prop) (E : ε → Prop) : Except ε α → Prop
  | .ok a => P a
  | .error e => E e

lemma Satisfies.mono {outcome : Except Failure α} (h : Satisfies P E outcome)
    (hP : ∀ a, P a → P' a) (hE : ∀ failure, E failure → E' failure) : Satisfies P' E' outcome := by
  cases outcome with
  | ok a => exact hP a h
  | error failure => exact hE failure h

lemma Satisfies.bind {outcome : Except Failure α} {next : α → Except Failure β}
    (h : Satisfies P E outcome) (hnext : ∀ a, P a → Satisfies Q E (next a)) :
    Satisfies Q E (outcome >>= next) := by
  cases outcome with
  | ok a => exact hnext a h
  | error failure => exact h

lemma Satisfies.mapError {ε : Type} {f : ε → Failure} {outcome : Except ε α}
    (hP : ∀ a, outcome = .ok a → P a) (hE : ∀ e, outcome = .error e → E (f e)) :
    Satisfies P E (outcome.mapError f) := by
  cases outcome with
  | ok a => exact hP a rfl
  | error e => exact hE e rfl

/-- The failure has the property and is no result. -/
def Fatally (E : Failure → Prop) (failure : Failure) : Prop :=
  E failure ∧ failure.outcome? = none

/-- Failures with the first property that are results have the second one. -/
def Rescued (E : Failure → Prop) (R : Result → Prop) : Prop :=
  ∀ failure result, E failure → failure.result? = some result → R result

lemma Rescued.of_fatally : Rescued (Fatally E) R := by
  rintro failure result ⟨-, hnone⟩ hresult
  rw [result?_eq_none_iff.mpr hnone] at hresult
  cases hresult

lemma Satisfies.rescued {failure : Failure} {wrap : Result → α} (hE : E failure)
    (hwrap : ∀ result, failure.result? = some result → P (wrap result)) :
    Satisfies P (Fatally E) (failure.rescued wrap) := by
  rw [Failure.rescued]
  cases hresult : failure.result? with
  | none => exact ⟨hE, result?_eq_none_iff.mp hresult⟩
  | some result => exact hwrap result hresult

/-! ### Outcomes of siblings -/

lemma satisfies_of_mem_split {outcomes : List (Except Failure α)}
    (h : ∀ outcome ∈ outcomes, Satisfies P E outcome) (hrescued : Rescued E R) :
    ∀ kept ∈ (split outcomes).1, Satisfies P R kept := by
  induction outcomes with
  | nil => exact fun _ hmem => absurd hmem List.not_mem_nil
  | cons outcome rest ih =>
    obtain ⟨houtcome, hrest⟩ := List.forall_mem_cons.mp h
    cases outcome with
    | ok a => exact List.forall_mem_cons.mpr ⟨houtcome, ih hrest⟩
    | error failure =>
      rw [split]
      cases hresult : failure.result? with
      | none => exact ih hrest
      | some result =>
        exact List.forall_mem_cons.mpr ⟨hrescued failure result houtcome hresult, ih hrest⟩

/-- Of the siblings' outcomes, what they came to is kept, and so are their failures that are
results; another failure takes the place of all of them. -/
lemma satisfies_classify {outcomes : List (Except Failure α)}
    (h : ∀ outcome ∈ outcomes, Satisfies P E outcome) (hrescued : Rescued E R) :
    Satisfies (fun kept => ∀ outcome ∈ kept, Satisfies P R outcome) (Fatally E)
      (classify outcomes).1 := by
  rw [classify]
  rcases hsplit : split outcomes with ⟨kept, _ | ⟨first, later⟩⟩
  · intro outcome hmem
    refine satisfies_of_mem_split h hrescued outcome ?_
    rwa [hsplit]
  · have hfirst : first ∈ (split outcomes).2 := by
      rw [hsplit]
      exact List.mem_cons_self
    obtain ⟨hmem, hnone⟩ := mem_split_fatal.mp hfirst
    exact ⟨h _ hmem, hnone⟩

lemma forall_mem_flatten {kept : List (Except Result (List Result))}
    (h : ∀ outcome ∈ kept, Satisfies (fun results => ∀ result ∈ results, R result) R outcome) :
    ∀ result ∈ flatten kept, R result := by
  induction kept with
  | nil => exact fun _ hmem => absurd hmem List.not_mem_nil
  | cons outcome rest ih =>
    obtain ⟨houtcome, hrest⟩ := List.forall_mem_cons.mp h
    cases outcome with
    | ok results => exact List.forall_mem_append.mpr ⟨houtcome, ih hrest⟩
    | error result => exact List.forall_mem_cons.mpr ⟨houtcome, ih hrest⟩

/-! ### Actions -/

/-- As long as the contract is kept, every outcome of the action has the properties. -/
def Returns (C : Contract I (Program.Exchange Effect)) (P : α → Prop) (E : Failure → Prop)
    (action : Action I α) : Prop := action.run.Meets C fun _ => Satisfies P E

/-- An action whose results all have the property. -/
abbrev Yields (C : Contract I (Program.Exchange Effect)) (R : Result → Prop) (E : Failure → Prop)
    (action : Action I (List Result)) : Prop :=
  Returns C (fun results => ∀ result ∈ results, R result) E action

namespace Returns

/-- Where only the answers matter, what holds of every outcome holds of the outcome of every run on
which the answers have the property. -/
theorem of_answers {S : Program.Exchange I → Prop} (h : Returns (.answering S) P E action)
    {trace : List (Program.Exchange I)} (hanswers : ∀ exchange ∈ trace, S exchange)
    {outcome : Except Failure α} (hrun : action.run.Reaches trace (.done outcome)) :
    Satisfies P E outcome :=
  (Program.Meets.of_reaches h (Program.logs_answering hanswers) hrun).2 outcome rfl

/-- Without a contract, what holds of every outcome holds of the outcome of every run. -/
theorem of_reaches (h : Returns .any P E action) {trace : List (Program.Exchange I)}
    {outcome : Except Failure α} (hrun : action.run.Reaches trace (.done outcome)) :
    Satisfies P E outcome := h.of_answers (fun _ _ => True.intro) hrun

lemma mono (h : Returns C P E action) (hP : ∀ a, P a → P' a)
    (hE : ∀ failure, E failure → E' failure) : Returns C P' E' action :=
  Program.Meets.mono h fun _ _ houtcome => houtcome.mono hP hE

lemma trivial (action : Action I α) : Returns .any (fun _ => True) (fun _ => True) action :=
  (Program.meets_answering _).mono fun _ outcome _ => by cases outcome <;> exact True.intro

lemma pure {a : α} (h : P a) : Returns C P E (Pure.pure a) := h

lemma bind (h : Returns C P E action) (hnext : ∀ a, P a → Returns C Q E (next a)) :
    Returns C Q E (action >>= next) := by
  refine Program.meets_run_bind (Program.Meets.mono h fun log outcome houtcome => ?_)
  cases outcome with
  | ok a => exact hnext a houtcome
  | error failure => exact houtcome

lemma ite {condition : Prop} [Decidable condition] {other : Action I α}
    (h : condition → Returns C P E action) (hother : ¬ condition → Returns C P E other) :
    Returns C P E (if condition then action else other) := by
  split
  · exact h ‹_›
  · exact hother ‹_›

lemma liftExcept {outcome : Except Failure α} (h : Satisfies P E outcome) :
    Returns C P E (Mutation.liftExcept outcome) := h

lemma note (event : Event) :
    Returns C (fun _ => True) E (Mutation.note event : Action I Unit) := True.intro

lemma classified {failure : Failure} (hE : E failure) (hrescued : Rescued E R) :
    Yields C R (Fatally E) (Mutation.liftExcept failure.classified) := by
  rw [Failure.classified_eq]
  refine .liftExcept (.rescued hE fun result hresult => ?_)
  exact List.forall_mem_singleton.mpr (hrescued failure result hE hresult)

/-- An attempt hands every outcome on. -/
lemma attempt_bind {next : Except Failure α → Action I β} (h : Returns C P E action)
    (hnext : ∀ outcome, Satisfies P E outcome → Returns C Q E' (next outcome)) :
    Returns C Q E' (attempt action >>= next) := by
  have hrun : (attempt action >>= next).run = action.run >>= fun outcome => (next outcome).run := by
    rw [ExceptT.run_bind]
    exact Program.bind_assoc ..
  rw [Returns, hrun]
  exact Program.meets_bind (Program.Meets.mono h fun _ outcome houtcome => hnext outcome houtcome)

/-- Results are put under a path, and so is a failure that is one. -/
lemma underPath {path : Path} {operation : Action I (List Result)}
    (h : Yields C (fun result => R (result.under path)) E operation)
    (hrescued : Rescued E fun result => R (result.under path)) :
    Yields C R (Fatally E) (Mutation.underPath path operation) := by
  refine Program.meets_bind (Program.Meets.mono h fun log outcome houtcome => ?_)
  cases outcome with
  | ok results => exact List.forall_mem_map.mpr houtcome
  | error failure =>
    refine meets_rescued (fun result => [result.under path]) ?_
    refine Satisfies.rescued houtcome fun result hresult => ?_
    exact List.forall_mem_singleton.mpr (hrescued failure result houtcome hresult)

/-! ### Siblings -/

lemma sequence {actions : List (Action I α)} (h : ∀ action ∈ actions, Returns C P E action) :
    (Program.sequence (actions.map ExceptT.run)).Meets C fun _ outcomes =>
      ∀ outcome ∈ outcomes, Satisfies P E outcome := by
  induction actions with
  | nil => exact fun _ hmem => absurd hmem List.not_mem_nil
  | cons action rest ih =>
    obtain ⟨haction, hrest⟩ := List.forall_mem_cons.mp h
    refine Program.meets_bind (Program.Meets.mono haction fun log outcome houtcome => ?_)
    refine Program.meets_bind ((ih hrest).mono fun more outcomes houtcomes => ?_)
    exact List.forall_mem_cons.mpr ⟨houtcome, houtcomes⟩

lemma collectAll {operations : List (Action I (List Result))}
    (h : ∀ operation ∈ operations, Yields C R E operation) (hrescued : Rescued E R) :
    Yields C R (Fatally E) (Mutation.collectAll operations) := by
  refine Program.meets_bind ((sequence h).mono fun _ outcomes houtcomes => ?_)
  refine meets_settle ?_
  have hclassify := satisfies_classify houtcomes hrescued
  rw [collect]
  cases hkept : (classify outcomes).1 with
  | ok kept =>
    rw [hkept] at hclassify
    exact forall_mem_flatten hclassify
  | error failure =>
    rw [hkept] at hclassify
    exact hclassify

end Returns

/-! ### Values of a row -/

/-- What a deferred value comes to: results, and operations for after the statement. -/
def Resolved.Yields (C : Contract I (Program.Exchange Effect)) (R : Result → Prop)
    (E : Failure → Prop) (resolved : Resolved I) : Prop :=
  (∀ result ∈ resolved.results, R result) ∧
    ∀ operation ∈ resolved.after, Mutation.Yields C R E operation

def FieldValue.Yields (C : Contract I (Program.Exchange Effect)) (R : Result → Prop)
    (E : Failure → Prop) : FieldValue I → Prop
  | .value _ => True
  | .deferred resolve => Returns C (Resolved.Yields C R E) E resolve

lemma FieldValue.yields_deferUnderPath {path : Path} {resolve : Action I (Resolved I)}
    (h : Returns C (Resolved.Yields C (fun result => R (result.under path)) E) E resolve)
    (hrescued : Rescued E fun result => R (result.under path)) :
    (deferUnderPath path resolve).Yields C R (Fatally E) := by
  refine Program.meets_bind (Program.Meets.mono h fun log outcome houtcome => ?_)
  cases outcome with
  | ok resolved =>
    refine ⟨List.forall_mem_map.mpr houtcome.1, fun operation hmem => ?_⟩
    obtain ⟨own, hown, rfl⟩ := Option.map_eq_some_iff.mp hmem
    exact (houtcome.2 own hown).underPath hrescued
  | error failure =>
    refine meets_rescued (fun result => Resolved.skip [result.under path]) ?_
    refine Satisfies.rescued houtcome fun result hresult => ⟨?_, by rintro _ ⟨⟩⟩
    exact List.forall_mem_singleton.mpr (hrescued failure result houtcome hresult)

/-- What the values of a row come to: results, and operations for after its statement. -/
def RowValues.Yields (C : Contract I (Program.Exchange Effect)) (R : Result → Prop)
    (E : Failure → Prop) (row : RowValues I) : Prop :=
  (∀ result ∈ row.results, R result) ∧ ∀ operation ∈ row.after, Mutation.Yields C R E operation

namespace FieldValues

lemma returns_of_mem_deferred {values : FieldValues I}
    (h : ∀ entry ∈ values, entry.2.Yields C R E) :
    ∀ resolve ∈ values.deferred, Returns C (Resolved.Yields C R E) E resolve := by
  induction values with
  | nil => exact fun _ hmem => absurd hmem List.not_mem_nil
  | cons entry rest ih =>
    obtain ⟨hentry, hrest⟩ := List.forall_mem_cons.mp h
    obtain ⟨field, value | resolve⟩ := entry
    · exact ih hrest
    · exact List.forall_mem_cons.mpr ⟨hentry, ih hrest⟩

/-- The deferred values are siblings. -/
lemma returns_resolve {values : FieldValues I} (h : ∀ entry ∈ values, entry.2.Yields C R E)
    (hrescued : Rescued E R) :
    Returns C (fun row => row.Yields C R E ∧ ∀ pair ∈ row.values, pair.1 ∈ values.names)
      (Fatally E) values.resolve := by
  refine Program.meets_bind
    ((Returns.sequence (returns_of_mem_deferred h)).mono fun _ outcomes houtcomes => ?_)
  refine Program.meets_run_bind (meets_settle ?_)
  have hclassify := satisfies_classify houtcomes hrescued
  cases hkept : (classify outcomes).1 with
  | error failure =>
    rw [hkept] at hclassify
    exact hclassify
  | ok kept =>
    rw [hkept] at hclassify
    refine ⟨⟨fun result hmem => ?_, fun operation hmem => ?_⟩, mem_names_of_mem_present⟩
    · obtain ⟨outcome, houtcome, hresult⟩ := List.mem_flatMap.mp hmem
      have hown := hclassify outcome houtcome
      cases outcome with
      | ok resolved => exact hown.1 result hresult
      | error own =>
        obtain rfl := List.mem_singleton.mp hresult
        exact hown
    · obtain ⟨outcome, houtcome, hafter⟩ := List.mem_filterMap.mp hmem
      have hown := hclassify outcome houtcome
      cases outcome with
      | ok resolved => exact hown.2 operation hafter
      | error own => cases hafter

end FieldValues

/-- What was left for after the statement is collected beside the results before it. -/
lemma RowValues.yields_finish {row : RowValues I} (h : row.Yields C R E) (hrescued : Rescued E R) :
    Mutation.Yields C R (Fatally E) row.finish :=
  (Returns.collectAll h.2 hrescued).bind fun _ hresults =>
    .pure (List.forall_mem_append.mpr ⟨h.1, hresults⟩)

/-- Operations on rows that keep a contract take the place of requests. -/
lemma Returns.answered {D : Contract Rows (Program.Exchange Effect)}
    {C : Contract Effect (Program.Exchange Effect)} {action : Action Rows α} {rows : RowAnswers}
    (h : Returns D P E action)
    (hrows : ∀ request, D.Permits request → (rows request).Meets C (D.Answers request)) :
    Returns C P E (Mutation.answered rows action) :=
  Program.Meets.interpret hrows h

/-! ### Values of rows -/

section Values

variable {values : FieldValues Rows} {entity : Entity}

/-- The key that is added to the values of a row is given, not deferred. -/
lemma returns_withKey {V : FieldValue Rows → Prop} (hgiven : ∀ value, V (.value value))
    (h : ∀ entry ∈ values, V entry.2) :
    Returns .any (fun keyed => ∀ entry ∈ keyed, V entry.2) (fun _ => True)
      (Session.withKey entity values) := by
  rw [Session.withKey]
  split
  · exact .pure h
  · refine (Returns.trivial _).bind fun column _ => ?_
    split
    · refine (Returns.trivial _).bind fun id _ => .pure ?_
      exact List.forall_mem_append.mpr ⟨h, List.forall_mem_singleton.mpr (hgiven _)⟩
    · exact .pure h

variable {D : Contract Rows (Program.Exchange Effect)} {rows : RowAnswers}
  (hrows : ∀ request, D.Permits request → (rows request).Meets .any (D.Answers request))
include hrows

lemma Returns.answered_any {action : Action Rows α} (h : Returns D P E action) :
    Returns .any P (fun _ => True) (Mutation.answered rows action) :=
  (h.answered hrows).mono (fun _ => id) fun _ _ => .intro

variable (h : ∀ entry ∈ values, entry.2.Yields D R (Fatally E))
include h

/-- What an insertion reports beside its row comes from its values. -/
lemma yields_insertValues (session : Session) : Returns .any
    (fun inserted => ∀ result ∈ inserted.results, R result) (fun _ => True)
    (session.insertValues rows entity values) := by
  refine ((FieldValues.returns_resolve h .of_fatally).answered_any hrows).bind fun row hrow => ?_
  refine (Returns.trivial _).bind fun columns _ => (Returns.trivial _).bind fun set _ => ?_
  exact ((RowValues.yields_finish hrow.1 .of_fatally).answered_any hrows).bind
    fun results hresults => .pure hresults

/-- What an update reports beside its row comes from its values, whether there is anything to set
or not. -/
lemma yields_updateValues (session : Session) (tree : Sql.ConditionTree) : Returns .any
    (fun updated => ∀ result ∈ updated.results, R result) (fun _ => True)
    (session.updateValues rows entity values tree) := by
  refine ((FieldValues.returns_resolve h .of_fatally).answered_any hrows).bind fun row hrow => ?_
  refine (Returns.trivial _).bind fun columns _ => ?_
  have hfinish (count : Option Nat) : Returns .any
      (fun updated => ∀ result ∈ updated.results, R result) (fun _ => True) (do
        let results ← Mutation.answered rows row.finish
        return (⟨count, row.values, results⟩ : Updated)) :=
    ((RowValues.yields_finish hrow.1 .of_fatally).answered_any hrows).bind
      fun results hresults => .pure hresults
  exact .ite (fun _ => hfinish none) fun _ => (Returns.trivial _).bind fun count _ => hfinish count

end Values

/-! ### Plans -/

section Plans

variable {V : String × FieldValue Rows → Prop} {W : Pending → Prop}
  {O : Action Rows (List Result) → Prop}

/-- The value or the operation of a step has the property for it. -/
def InputStep.Satisfies (V : FieldValue Rows → Prop) (O : Action Rows (List Result) → Prop) :
    InputStep → Prop
  | .column value => V value
  | .run operation => O operation

lemma InputStep.Satisfies.mono {V V' : FieldValue Rows → Prop}
    {O' : Action Rows (List Result) → Prop} {step : InputStep} (h : step.Satisfies V O)
    (hV : ∀ value, V value → V' value) (hO : ∀ operation, O operation → O' operation) :
    step.Satisfies V' O' := by
  cases step with
  | column value => exact hV value h
  | run operation => exact hO operation h

lemma RelatedRow.satisfies_toManyFrom {row : RelatedRow} {items : List ToManyItem}
    (h : ∀ item ∈ items, ∀ index, Satisfies O E (row.toManyOperation index item)) (index : Nat) :
    Satisfies (fun operations => ∀ operation ∈ operations, O operation) E
      (row.toManyFrom index items) := by
  induction items generalizing index with
  | nil => exact fun _ hmem => absurd hmem List.not_mem_nil
  | cons item rest ih =>
    obtain ⟨hitem, hrest⟩ := List.forall_mem_cons.mp h
    refine (hitem index).bind fun operation hoperation => ?_
    exact (ih hrest (index + 1)).bind fun operations hoperations =>
      List.forall_mem_cons.mpr ⟨hoperation, hoperations⟩

lemma satisfies_planInsert {schema : Schema} {entity : Entity} {fields : List (String × FieldInput)}
    (hvalue : ∀ field value, (field, .value value) ∈ fields → V (field, .value value))
    (hone : ∀ field input, (field, .one input) ∈ fields → Satisfies (fun sides =>
      if sides.kind.hasJoiningColumn then
        Satisfies (fun column => V (field, column)) E (createColumn sides input)
      else W (.one sides input)) E (RelationSides.ofField schema entity field))
    (hmany : ∀ field items, (field, .many items) ∈ fields →
      Satisfies (fun sides => W (.many sides items)) E
        (RelationSides.ofField schema entity field)) :
    Satisfies (fun plan => (∀ entry ∈ plan.1, V entry) ∧ ∀ waiting ∈ plan.2, W waiting) E
      (planInsert schema entity fields) := by
  induction fields with
  | nil => exact ⟨fun _ hmem => absurd hmem List.not_mem_nil,
      fun _ hmem => absurd hmem List.not_mem_nil⟩
  | cons entry rest ih =>
    have hrest := ih (fun field value hmem => hvalue field value (List.mem_cons_of_mem _ hmem))
      (fun field input hmem => hone field input (List.mem_cons_of_mem _ hmem))
      (fun field items hmem => hmany field items (List.mem_cons_of_mem _ hmem))
    obtain ⟨field, value | input | items⟩ := entry
    · refine hrest.bind fun plan hplan => ?_
      exact ⟨List.forall_mem_cons.mpr ⟨hvalue field value List.mem_cons_self, hplan.1⟩, hplan.2⟩
    · refine (hone field input List.mem_cons_self).bind fun sides hsides => ?_
      split
      · rw [if_pos ‹_›] at hsides
        refine hsides.bind fun column hcolumn => hrest.bind fun plan hplan => ?_
        exact ⟨List.forall_mem_cons.mpr ⟨hcolumn, hplan.1⟩, hplan.2⟩
      · rw [if_neg ‹_›] at hsides
        refine hrest.bind fun plan hplan => ?_
        exact ⟨hplan.1, List.forall_mem_cons.mpr ⟨hsides, hplan.2⟩⟩
    · refine (hmany field items List.mem_cons_self).bind fun sides hsides => ?_
      refine hrest.bind fun plan hplan => ?_
      exact ⟨hplan.1, List.forall_mem_cons.mpr ⟨hsides, hplan.2⟩⟩

lemma satisfies_afterInsert {primary : Value} {pending : List Pending}
    (hone : ∀ sides input, .one sides input ∈ pending →
      Satisfies O E (RelatedRow.createToOne ⟨sides, primary⟩ input))
    (hmany : ∀ sides items, .many sides items ∈ pending →
      Satisfies (fun operations => ∀ operation ∈ operations, O operation) E
        (RelatedRow.createToMany ⟨sides, primary⟩ items)) :
    Satisfies (fun operations => ∀ operation ∈ operations, O operation) E
      (afterInsert primary pending) := by
  induction pending with
  | nil => exact fun _ hmem => absurd hmem List.not_mem_nil
  | cons waiting rest ih =>
    have hrest := ih (fun sides input hmem => hone sides input (List.mem_cons_of_mem _ hmem))
      (fun sides items hmem => hmany sides items (List.mem_cons_of_mem _ hmem))
    cases waiting with
    | one sides input =>
      refine (hone sides input List.mem_cons_self).bind fun operation hoperation => ?_
      exact hrest.bind fun operations hoperations =>
        List.forall_mem_cons.mpr ⟨hoperation, hoperations⟩
    | many sides items =>
      refine (hmany sides items List.mem_cons_self).bind fun own hown => ?_
      exact hrest.bind fun operations hoperations =>
        List.forall_mem_append.mpr ⟨hown, hoperations⟩

lemma satisfies_planUpdate {schema : Schema} {entity : Entity} {primary : Value}
    {fields : List (String × FieldInput)}
    (hvalue : ∀ field value, (field, .value value) ∈ fields → V (field, .value value))
    (hone : ∀ field input, (field, .one input) ∈ fields → Satisfies (fun sides =>
      Satisfies (InputStep.Satisfies (fun value => V (field, value)) O) E
        (RelatedRow.toOneStep ⟨sides, primary⟩ input)) E
      (RelationSides.ofField schema entity field))
    (hmany : ∀ field items, (field, .many items) ∈ fields → Satisfies (fun sides =>
      Satisfies (fun operations => ∀ operation ∈ operations, O operation) E
        (RelatedRow.toManyOperations ⟨sides, primary⟩ items)) E
      (RelationSides.ofField schema entity field)) :
    Satisfies (fun plan => (∀ entry ∈ plan.1, V entry) ∧ ∀ operation ∈ plan.2, O operation) E
      (planUpdate schema entity primary fields) := by
  induction fields with
  | nil => exact ⟨fun _ hmem => absurd hmem List.not_mem_nil,
      fun _ hmem => absurd hmem List.not_mem_nil⟩
  | cons entry rest ih =>
    have hrest := ih (fun field value hmem => hvalue field value (List.mem_cons_of_mem _ hmem))
      (fun field input hmem => hone field input (List.mem_cons_of_mem _ hmem))
      (fun field items hmem => hmany field items (List.mem_cons_of_mem _ hmem))
    obtain ⟨field, value | input | items⟩ := entry
    · refine hrest.bind fun plan hplan => ?_
      exact ⟨List.forall_mem_cons.mpr ⟨hvalue field value List.mem_cons_self, hplan.1⟩, hplan.2⟩
    · refine (hone field input List.mem_cons_self).bind fun sides hsides => ?_
      refine hsides.bind fun step hstep => ?_
      cases step with
      | column value =>
        refine hrest.bind fun plan hplan => ?_
        exact ⟨List.forall_mem_cons.mpr ⟨hstep, hplan.1⟩, hplan.2⟩
      | run operation =>
        refine hrest.bind fun plan hplan => ?_
        exact ⟨hplan.1, List.forall_mem_cons.mpr ⟨hstep, hplan.2⟩⟩
    · refine (hmany field items List.mem_cons_self).bind fun sides hsides => ?_
      refine hsides.bind fun own hown => hrest.bind fun plan hplan => ?_
      exact ⟨hplan.1, List.forall_mem_append.mpr ⟨hown, hplan.2⟩⟩

end Plans

end Mutation

end EntityGraph
