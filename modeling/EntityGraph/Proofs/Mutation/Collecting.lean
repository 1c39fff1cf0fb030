import EntityGraph.Mutation.RelationInput
import EntityGraph.Mutation.Session
import EntityGraph.Proofs.Mutation.Reporting
import EntityGraph.Proofs.Schema.Building
/-!
# Results of failed parts

A failure that is a result takes the place of the part that failed with it. Siblings all run, and
come to the first fatal failure among them, or to what each of them came to; the values of a row and
the operations that wait for it are siblings too.
-/
namespace EntityGraph.Mutation

variable {α β : Type} {I : Interface} {C : Contract I (Program.Exchange Effect)}
  {told : Set ConstraintKind} {tells middle : α → Set ConstraintKind}
  {tells' : β → Set ConstraintKind} {action : Action I α} {next : α → Action I β}
  {P : α → Prop} {Q : β → Prop} {E : Failure → Prop}

/-! ### Results -/

/-- The kinds of the violations among the results. -/
def violations (results : List Result) : Set ConstraintKind :=
  {kind | ∃ result ∈ results, result.outcome = .violation kind}

@[simp] lemma violations_nil : violations [] = ∅ := by simp [violations]

@[simp] lemma violations_append (results others : List Result) :
    violations (results ++ others) = violations results ∪ violations others := by
  ext kind
  simp only [violations, Set.mem_ofPred_eq, List.mem_append, or_and_right, exists_or, Set.mem_union]

lemma violations_cons (result : Result) (results : List Result) :
    violations (result :: results) = violations [result] ∪ violations results :=
  violations_append [result] results

@[simp] lemma violations_allUnder (path : Path) (results : List Result) :
    violations (allUnder path results) = violations results := by
  ext kind
  simp [violations, allUnder, Result.under]

/-- A failure that is a result tells what it shows. -/
lemma outcome_of_result? {failure : Failure} {result : Result} {kind : ConstraintKind}
    (h : failure.result? = some result) (hkind : failure.outcome? = some (.violation kind)) :
    result.outcome = .violation kind := by
  rw [Failure.result?, hkind] at h
  cases h
  rfl

lemma result?_eq_none_iff {failure : Failure} :
    failure.result? = none ↔ failure.outcome? = none := Option.map_eq_none_iff

/-- What the outcome is if a failure that is a result is put where results belong. -/
def Failure.rescued (wrap : Result → β) (failure : Failure) : Except Failure β :=
  match failure.result? with
  | some result => .ok (wrap result)
  | none => .error failure

lemma Failure.classified_eq (failure : Failure) :
    failure.classified = failure.rescued fun result => [result] := rfl

lemma classified_eq_ok {failure : Failure} {results : List Result}
    (h : failure.classified = .ok results) :
    ∃ result, failure.result? = some result ∧ results = [result] := by
  rw [Failure.classified] at h
  cases hresult : failure.result? with
  | none =>
    rw [hresult] at h
    cases h
  | some result =>
    rw [hresult] at h
    cases h
    exact ⟨result, rfl, rfl⟩

lemma Reports.rescued {failure : Failure} {log : Log} {wrap : Result → β}
    (h : Reports ∅ tells log (.error failure))
    (hwrap : ∀ result kind, result.outcome = .violation kind → kind ∈ tells' (wrap result)) :
    Reports ∅ tells' log (failure.rescued wrap) := by
  rw [Failure.rescued]
  cases hresult : failure.result? with
  | none => exact h.error
  | some result =>
    have hnone : failure.outcome? ≠ none := by
      rw [← result?_eq_none_iff.ne, hresult]
      simp
    refine ⟨fun hbroken => absurd (fatal_error.mp (h.fatal hbroken)) hnone, ?_, ?_, ?_⟩
    · rintro - other ⟨⟩
    · intro kind hkind
      obtain hfatal | hshows := h.shows kind hkind
      · exact absurd (fatal_error.mp hfatal) hnone
      · exact .inr (hwrap result kind (outcome_of_result? hresult hshows))
    · rintro - kind ⟨⟩

lemma mem_violations_singleton {result : Result} {kind : ConstraintKind} :
    kind ∈ violations [result] ↔ result.outcome = .violation kind := by
  simp [violations]

/-- No failure of the part is a result. -/
def IsSettled (result : Except Failure α) : Prop :=
  ∀ failure, result = .error failure → failure.outcome? = none

lemma settled_rescued (wrap : Result → β) (failure : Failure) :
    IsSettled (failure.rescued wrap) := by
  rw [Failure.rescued]
  cases hresult : failure.result? with
  | none =>
    rintro _ ⟨⟩
    exact result?_eq_none_iff.mp hresult
  | some result => rintro _ ⟨⟩

/-- An attempt whose failures become results where they can; those that cannot are fatal. -/
lemma Ensures.attempt_bind {P : List Result → Prop}
    {next : Except Failure α → Action I (List Result)}
    (haction : Accounts C ∅ middle action)
    (hfailure : ∀ failure, next (.error failure) = Mutation.liftExcept failure.classified)
    (hP : ∀ failure result, Failure.result? failure = some result → P [result])
    (hsuccess : ∀ a, Ensures C (middle a) violations P (fun failure => failure.outcome? = none)
      (next (.ok a))) :
    Ensures C ∅ violations P (fun failure => failure.outcome? = none)
      (attempt action >>= next) := by
  have hrun : (attempt action >>= next).run = action.run >>= fun result => (next result).run := by
    rw [ExceptT.run_bind]
    exact Program.bind_assoc ..
  rw [Ensures, hrun]
  refine Program.meets_bind (Program.Meets.mono haction fun log result hresult => ?_)
  cases result with
  | ok a =>
    exact Program.Meets.mono (hsuccess a) fun more b hb => ⟨hresult.bind hb.1, hb.2⟩
  | error failure =>
    show (next (.error failure)).run.Meets C _
    rw [hfailure]
    refine ⟨?_, ?_, settled_rescued _ failure⟩
    · rw [List.append_nil, Failure.classified_eq]
      exact hresult.rescued fun result kind => mem_violations_singleton.mpr
    · intro results hresults
      obtain ⟨result, hresult, rfl⟩ := classified_eq_ok hresults
      exact hP failure result hresult

/-! ### Paths -/

lemma meets_rescued (wrap : Result → β) {post : Log → Except Failure β → Prop} {failure : Failure}
    (h : post [] (failure.rescued wrap)) :
    (match failure.result? with
      | some result => Pure.pure (.ok (wrap result))
      | none => Pure.pure (.error failure) : Program I (Except Failure β)).Meets C post := by
  rw [Failure.rescued] at h
  cases hfailure : failure.result? with
  | none => rwa [hfailure] at h
  | some result => rwa [hfailure] at h

lemma Accounts.underPath {operation : Action I (List Result)} (path : Path)
    (h : Accounts C ∅ violations operation) :
    Accounts C ∅ violations (Mutation.underPath path operation) := by
  refine Program.meets_bind (Program.Meets.mono h fun log result hresult => ?_)
  cases result with
  | ok results =>
    refine hresult.bind (Reports.of_ok ?_)
    rw [violations_allUnder]
  | error failure =>
    refine meets_rescued (fun result => [result.under path]) ?_
    rw [List.append_nil]
    exact hresult.rescued fun result kind h => mem_violations_singleton.mpr h

/-! ### Siblings -/

/-- How siblings account for their log together. -/
structure ReportAll (tells : α → Set ConstraintKind) (log : Log)
    (outcomes : List (Except Failure α)) : Prop where
  fatal : log.Broken → ∃ outcome ∈ outcomes, Fatal outcome
  isLocal : log.Orderly → ∀ failure, .error failure ∈ outcomes → failure.outcome? = none →
    failure.isLocal
  shows : ∀ kind, log.Violates kind →
    ∃ outcome ∈ outcomes, Fatal outcome ∨ Shows tells kind outcome

lemma reportAll_nil : ReportAll tells [] [] where
  fatal h := absurd h Log.not_broken_nil
  isLocal := by simp
  shows kind h := absurd h Log.not_violates_nil

lemma ReportAll.cons {log more : Log} {outcome : Except Failure α}
    {outcomes : List (Except Failure α)} (h : Reports ∅ tells log outcome)
    (hrest : ReportAll tells more outcomes) :
    ReportAll tells (log ++ more) (outcome :: outcomes) where
  fatal hbroken := by
    obtain hlog | hmore := Log.broken_append.mp hbroken
    · exact ⟨outcome, List.mem_cons_self, h.fatal hlog⟩
    · obtain ⟨other, hmem, hfatal⟩ := hrest.fatal hmore
      exact ⟨other, List.mem_cons_of_mem _ hmem, hfatal⟩
  isLocal horderly failure hmem := by
    obtain heq | hmem := List.mem_cons.mp hmem
    · exact h.isLocal horderly.of_append.1 failure heq.symm
    · exact hrest.isLocal horderly.of_append.2 failure hmem
  shows kind hkind := by
    obtain ⟨hlog, -⟩ | ⟨-, hmore⟩ := Log.violates_append.mp hkind
    · exact ⟨outcome, List.mem_cons_self, h.shows kind hlog⟩
    · obtain ⟨other, hmem, hshows⟩ := hrest.shows kind hmore
      exact ⟨other, List.mem_cons_of_mem _ hmem, hshows⟩

lemma meets_sequence {actions : List (Action I α)}
    (h : ∀ action ∈ actions, Ensures C ∅ tells P E action) :
    (Program.sequence (actions.map ExceptT.run)).Meets C fun log outcomes =>
      ReportAll tells log outcomes ∧ ∀ a, .ok a ∈ outcomes → P a := by
  induction actions with
  | nil => exact ⟨reportAll_nil, by simp⟩
  | cons action rest ih =>
    obtain ⟨haction, hrest⟩ := List.forall_mem_cons.mp h
    refine Program.meets_bind (Program.Meets.mono haction fun log outcome houtcome => ?_)
    refine Program.meets_bind ((ih hrest).mono fun more outcomes houtcomes => ?_)
    show ReportAll tells (log ++ (more ++ [])) (outcome :: outcomes) ∧ _
    rw [List.append_nil]
    refine ⟨houtcomes.1.cons houtcome.1, fun a hmem => ?_⟩
    obtain heq | hmem := List.mem_cons.mp hmem
    · exact houtcome.2.1 a heq.symm
    · exact houtcomes.2 a hmem

/-- What is kept of an outcome that is not fatal. -/
def kept? : Except Failure α → Option (Except Result α)
  | .ok a => some (.ok a)
  | .error failure => failure.result?.map .error

def fatal? : Except Failure α → Option Failure
  | .ok _ => none
  | .error failure => if failure.result?.isNone then some failure else none

/-- The fatal failures among the outcomes, in order. -/
def fatalFailures (outcomes : List (Except Failure α)) : List Failure := outcomes.filterMap fatal?

@[simp] lemma fatalFailures_cons (outcome : Except Failure α) (outcomes : List (Except Failure α)) :
    fatalFailures (outcome :: outcomes) = (fatal? outcome).toList ++ fatalFailures outcomes := by
  rw [fatalFailures, List.filterMap_cons]
  cases fatal? outcome <;> rfl

lemma split_eq (outcomes : List (Except Failure α)) :
    split outcomes = (outcomes.filterMap kept?, fatalFailures outcomes) := by
  induction outcomes with
  | nil => rfl
  | cons outcome rest ih =>
    cases outcome with
    | ok a => simp [split, ih, kept?, fatal?]
    | error failure =>
      cases hresult : failure.result? <;> simp [split, ih, kept?, fatal?, hresult]

lemma mem_split_fatal {outcomes : List (Except Failure α)} {failure : Failure} :
    failure ∈ (split outcomes).2 ↔ .error failure ∈ outcomes ∧ failure.outcome? = none := by
  have hfatal (outcome : Except Failure α) :
      fatal? outcome = some failure ↔ outcome = .error failure ∧ failure.outcome? = none := by
    rw [← result?_eq_none_iff]
    cases outcome with
    | ok a => simp [fatal?]
    | error other =>
      simp only [fatal?, Option.ite_none_right_eq_some, Option.isNone_iff_eq_none,
        Option.some.injEq, Except.error.injEq]
      exact ⟨fun ⟨hnone, heq⟩ => ⟨heq, heq ▸ hnone⟩, fun ⟨heq, hnone⟩ => ⟨heq ▸ hnone, heq⟩⟩
  simp [split_eq, fatalFailures, hfatal]

lemma ok_mem_split {outcomes : List (Except Failure α)} {a : α} :
    .ok a ∈ (split outcomes).1 ↔ .ok a ∈ outcomes := by
  have hkept (outcome : Except Failure α) : kept? outcome = some (.ok a) ↔ outcome = .ok a := by
    cases outcome <;> simp [kept?]
  simp [split_eq, hkept]

/-- The failures that are kept are results. -/
lemma error_mem_split_iff {outcomes : List (Except Failure α)} {result : Result} :
    .error result ∈ (split outcomes).1 ↔
      ∃ failure, .error failure ∈ outcomes ∧ failure.result? = some result := by
  rw [split_eq, List.mem_filterMap]
  constructor
  · rintro ⟨outcome, hmem, hkept⟩
    cases outcome with
    | ok a => cases hkept
    | error failure => exact ⟨failure, hmem, by simpa [kept?] using hkept⟩
  · rintro ⟨failure, hmem, hresult⟩
    exact ⟨.error failure, hmem, by rw [kept?, hresult]; rfl⟩

/-- Siblings come to the first fatal failure among them, or keep what each of them came to. -/
lemma ReportAll.classify {log : Log} {outcomes : List (Except Failure α)}
    (h : ReportAll tells log outcomes) (wrap : List (Except Result α) → β)
    (hok : ∀ kept a, .ok a ∈ kept → tells a ⊆ tells' (wrap kept))
    (herror : ∀ kept result kind, .error result ∈ kept → result.outcome = .violation kind →
      kind ∈ tells' (wrap kept)) :
    Reports ∅ tells' log ((classify outcomes).1.map wrap) ∧
      IsSettled ((classify outcomes).1.map wrap) := by
  rcases hsplit : split outcomes with ⟨kept, _ | ⟨first, later⟩⟩
  · have hfatal (outcome) (hmem : outcome ∈ outcomes) : ¬ Fatal outcome := by
      rintro ⟨failure, rfl, hnone⟩
      have hfailure := mem_split_fatal.mpr ⟨hmem, hnone⟩
      rw [hsplit] at hfailure
      cases hfailure
    have hclassify : (Mutation.classify outcomes).1 = .ok kept := by
      rw [Mutation.classify, hsplit]
    rw [hclassify]
    refine ⟨⟨fun hbroken => ?_, ?_, fun kind hkind => .inr ?_, ?_⟩, ?_⟩
    · obtain ⟨outcome, hmem, hf⟩ := h.fatal hbroken
      exact absurd hf (hfatal outcome hmem)
    · rintro - _ ⟨⟩
    · obtain ⟨outcome, hmem, hf | hshows⟩ := h.shows kind hkind
      · exact absurd hf (hfatal outcome hmem)
      cases outcome with
      | ok a =>
        have hkept := ok_mem_split.mpr hmem
        rw [hsplit] at hkept
        exact hok kept a hkept hshows
      | error failure =>
        have hresult : failure.result? = some (.atRoot (.violation kind)) := by
          rw [Failure.result?, hshows]
          rfl
        have hkept := error_mem_split_iff.mpr ⟨failure, hmem, hresult⟩
        rw [hsplit] at hkept
        exact herror kept _ kind hkept rfl
    · rintro - kind ⟨⟩
    · rintro _ ⟨⟩
  · have hfirst : first ∈ (split outcomes).2 := by
      rw [hsplit]
      exact List.mem_cons_self
    obtain ⟨hmem, hnone⟩ := mem_split_fatal.mp hfirst
    have hclassify : (Mutation.classify outcomes).1 = .error first := by
      rw [Mutation.classify, hsplit]
    rw [hclassify]
    refine ⟨⟨fun _ => fatal_error.mpr hnone, ?_, fun _ _ => .inl (fatal_error.mpr hnone), ?_⟩, ?_⟩
    · rintro horderly _ ⟨⟩ -
      exact h.isLocal horderly first hmem hnone
    · rintro - kind ⟨⟩
    · rintro _ ⟨⟩
      exact hnone

lemma ok_mem_of_classify {outcomes : List (Except Failure α)} {kept : List (Except Result α)}
    (h : (classify outcomes).1 = .ok kept) {a : α} (hmem : .ok a ∈ kept) : .ok a ∈ outcomes := by
  rcases hsplit : split outcomes with ⟨own, _ | ⟨first, later⟩⟩
  · rw [classify, hsplit] at h
    obtain rfl := Except.ok.inj h
    refine ok_mem_split.mp ?_
    rwa [hsplit]
  · rw [classify, hsplit] at h
    cases h

/-- The events that are reported beside an outcome ask nothing. -/
lemma meets_settle {outcome : Except Failure α × List Event} {post : Log → Except Failure α → Prop}
    (h : post [] outcome.1) : (settle outcome : Action I α).run.Meets C post := by
  obtain ⟨outcome, events⟩ := outcome
  change post [] outcome at h
  have hreport : (Program.reportAll events >>= fun _ => .done outcome).Meets C post := by
    induction events with
    | nil => exact h
    | cons event rest ih => exact ih
  exact hreport

lemma violations_subset_flatten {kept : List (Except Result (List Result))} {results : List Result}
    (hmem : .ok results ∈ kept) : violations results ⊆ violations (flatten kept) := by
  induction kept with
  | nil => simp at hmem
  | cons outcome rest ih =>
    obtain rfl | hrest := List.mem_cons.mp hmem
    · rw [flatten, violations_append]
      exact Set.subset_union_left
    · cases outcome with
      | ok first =>
        rw [flatten, violations_append]
        exact (ih hrest).trans Set.subset_union_right
      | error first =>
        rw [flatten, violations_cons]
        exact (ih hrest).trans Set.subset_union_right

lemma mem_flatten_of_error {kept : List (Except Result (List Result))} {result : Result}
    (hmem : .error result ∈ kept) : result ∈ flatten kept := by
  induction kept with
  | nil => simp at hmem
  | cons outcome rest ih =>
    obtain rfl | hrest := List.mem_cons.mp hmem
    · exact List.mem_cons_self
    · cases outcome with
      | ok first => exact List.mem_append_right _ (ih hrest)
      | error first => exact List.mem_cons_of_mem _ (ih hrest)

/-! ### Writes -/

/-- An action whose failures are fatal. -/
def Concludes (C : Contract I (Program.Exchange Effect)) (told : Set ConstraintKind)
    (action : Action I (List Result)) : Prop :=
  Ensures C told violations (fun _ => True) (fun failure => failure.outcome? = none) action

/-- How a write accounts for its log. What it fails with before it has sent a statement is fatal. -/
structure Written (log : Log) (result : Except Failure (List Result)) : Prop where
  reports : Reports ∅ violations log result
  settled : log = [] → IsSettled result

def Writes (C : Contract I (Program.Exchange Effect)) (action : Action I (List Result)) : Prop :=
  action.run.Meets C Written

/-- Two outcomes are collected, the failures of both being fatal. -/
lemma Reports.both {log more : Log} {own related : Except Failure (List Result)}
    (hown : Reports ∅ violations log own) (hsettled : IsSettled own)
    (hrelated : Reports ∅ violations more related) (hrelatedSettled : IsSettled related) :
    Reports ∅ violations (log ++ more) (do return (← own) ++ (← related)) := by
  cases own with
  | error failure =>
    have hnone := hsettled failure rfl
    refine ⟨fun _ => fatal_error.mpr hnone, ?_, fun _ _ => .inl (fatal_error.mpr hnone), ?_⟩
    · rintro horderly _ ⟨⟩
      exact hown.isLocal horderly.of_append.1 failure rfl
    · rintro - kind ⟨⟩
  | ok results =>
    refine hown.bind ?_
    have hframe : Reports (violations results)
        (fun others => violations results ∪ violations others) more related :=
      hrelated.frame fun _ => hrelatedSettled
    cases related with
    | error failure => exact hframe.error
    | ok others =>
      have hok : Reports (violations results ∪ violations others) violations []
          (.ok (results ++ others)) := .of_ok (violations_append ..).symm.subset
      have hboth := hframe.bind hok
      rw [List.append_nil] at hboth
      exact hboth

/-- The results of an attempt, or its failure where that is none. -/
def settledOutcome (results : α → List Result) : Except Failure α → Except Failure (List Result)
  | .ok a => .ok (results a)
  | .error failure => failure.classified

/-- Two attempts, one after the other, whose results are collected. -/
lemma Ensures.attempt_both {P : List Result → Prop} {related : Action I (List Result)}
    {next : Except Failure α → Except Failure (List Result) → Action I (List Result)}
    (results : α → List Result) (hown : Accounts C ∅ middle action)
    (hresults : ∀ a, middle a ⊆ violations (results a)) (hrelated : Concludes C ∅ related)
    (hnext : ∀ own other, (next own other).run =
      .done (do return (← settledOutcome results own) ++ (← other)))
    (hP : ∀ own found others, settledOutcome results own = .ok found → P (found ++ others)) :
    Ensures C ∅ violations P (fun failure => failure.outcome? = none)
      (attempt action >>= fun own => attempt related >>= next own) := by
  have hrun : (attempt action >>= fun own => attempt related >>= next own).run =
      action.run >>= fun own => related.run >>= fun other => (next own other).run := by
    rw [ExceptT.run_bind]
    refine (Program.bind_assoc ..).trans (congrArg _ (funext fun own => ?_))
    show (attempt related >>= next own).run = _
    rw [ExceptT.run_bind]
    exact Program.bind_assoc ..
  rw [Ensures, hrun]
  refine Program.meets_bind (Program.Meets.mono hown fun log own hreports => ?_)
  refine Program.meets_bind (Program.Meets.mono hrelated fun more other hother => ?_)
  have hsettled : Reports ∅ violations log (settledOutcome results own) ∧
      IsSettled (settledOutcome results own) := by
    cases own with
    | ok a =>
      refine ⟨?_, by rintro _ ⟨⟩⟩
      have hok := hreports.bind (Reports.of_ok (hresults a))
      rwa [List.append_nil] at hok
    | error failure =>
      refine ⟨?_, settled_rescued _ failure⟩
      exact hreports.rescued fun result kind => mem_violations_singleton.mpr
  rw [hnext]
  show Reports _ _ (log ++ (more ++ [])) _ ∧ _
  rw [List.append_nil]
  refine ⟨hsettled.1.both hsettled.2 hother.1 hother.2.2, ?_, ?_⟩
  · intro all hall
    obtain ⟨found, hfound, hall⟩ := Except.bind_eq_ok.mp hall
    obtain ⟨others, -, hall⟩ := Except.bind_eq_ok.mp hall
    cases hall
    exact hP own found others hfound
  · intro failure hfailure
    cases hfound : settledOutcome results own with
    | error failed =>
      rw [hfound] at hfailure
      cases hfailure
      exact hsettled.2 _ hfound
    | ok found =>
      rw [hfound] at hfailure
      cases other with
      | error failed =>
        cases hfailure
        exact hother.2.2 _ rfl
      | ok others => cases hfailure

section Writes

variable {action : Action I (List Result)}

lemma Concludes.frame (h : Concludes C ∅ action) :
    Ensures C told (fun results => told ∪ violations results) (fun _ => True)
      (fun failure => failure.outcome? = none) action :=
  Program.Meets.mono h fun _ _ hresult => ⟨hresult.1.frame fun _ => hresult.2.2, hresult.2⟩

lemma Concludes.writes (h : Concludes C ∅ action) : Writes C action :=
  Program.Meets.mono h fun _ _ hresult => ⟨hresult.1, fun _ => hresult.2.2⟩

namespace Writes

lemma accounts (h : Writes C action) : Accounts C ∅ violations action :=
  Program.Meets.mono h fun _ _ hwritten => hwritten.reports

/-- A write does not forget what was told before it. -/
lemma frame (h : Writes C action) :
    Accounts C told (fun results => told ∪ violations results) action :=
  Program.Meets.mono h fun _ _ hwritten => hwritten.reports.frame hwritten.settled

lemma liftExcept_bind {outcome : Except Failure α} {next : α → Action I (List Result)}
    (h : Refuses outcome) (hnext : ∀ a, outcome = .ok a → Writes C (next a)) :
    Writes C (Mutation.liftExcept outcome >>= next) := by
  cases outcome with
  | ok a => exact hnext a rfl
  | error failure =>
    obtain ⟨hlocal, hnone⟩ := h failure rfl
    refine ⟨.of_error hlocal (.inr hnone), ?_⟩
    rintro - _ ⟨⟩
    exact hnone

end Writes

end Writes

/-- Siblings turn into results whatever is one. -/
lemma concludes_collectAll {operations : List (Action I (List Result))}
    (h : ∀ operation ∈ operations, Accounts C ∅ violations operation) :
    Concludes C ∅ (collectAll operations) := by
  have hoperations := meets_sequence fun operation hmem => (h operation hmem).ensures
  refine Program.meets_bind (Program.Meets.mono hoperations fun log outcomes houtcomes => ?_)
  refine meets_settle ?_
  rw [List.append_nil]
  obtain ⟨hreports, hsettled⟩ := houtcomes.1.classify flatten
    (fun _ _ hmem => violations_subset_flatten hmem)
    fun _ result _ hmem hkind => ⟨result, mem_flatten_of_error hmem, hkind⟩
  exact ⟨hreports, fun _ _ => trivial, hsettled⟩

/-! ### Values of a row -/

/-- A deferred value accounts for its log, and so does what it leaves for after the statement. -/
def Resolves (C : Contract I (Program.Exchange Effect)) (resolve : Action I (Resolved I)) : Prop :=
  Ensures C ∅ (fun resolved => violations resolved.results)
    (fun resolved => ∀ action ∈ resolved.after, Accounts C ∅ violations action) (fun _ => True)
    resolve

def FieldValue.Accounts (C : Contract I (Program.Exchange Effect)) : FieldValue I → Prop
  | .value _ => True
  | .deferred resolve => Resolves C resolve

lemma FieldValue.accounts_deferUnderPath {resolve : Action I (Resolved I)} (path : Path)
    (h : Resolves C resolve) : (deferUnderPath path resolve).Accounts C := by
  refine Program.meets_bind (Program.Meets.mono h fun log result hresult => ?_)
  cases result with
  | ok resolved =>
    refine ⟨hresult.1.bind (Reports.of_ok ?_), ?_, fun _ _ => trivial⟩
    · exact (violations_allUnder path resolved.results).symm.subset
    · rintro _ ⟨⟩ action hmem
      obtain ⟨own, hown, rfl⟩ := Option.map_eq_some_iff.mp hmem
      exact (hresult.2.1 resolved rfl own hown).underPath path
  | error failure =>
    refine meets_rescued (fun result => Resolved.skip [result.under path])
      ⟨?_, ?_, fun _ _ => trivial⟩
    · rw [List.append_nil]
      exact hresult.1.rescued fun result kind h => mem_violations_singleton.mpr h
    · intro resolved hresolved action hmem
      rw [Failure.rescued] at hresolved
      cases hfailure : failure.result? with
      | none =>
        rw [hfailure] at hresolved
        cases hresolved
      | some result =>
        rw [hfailure] at hresolved
        cases hresolved
        cases hmem

namespace FieldValues

lemma map_fst_slots (values : FieldValues I) (outcomes : List (Except Result (Resolved I))) :
    (slots values outcomes).map Prod.fst = values.names := by
  induction values, outcomes using slots.induct <;> simp_all [slots, names]

/-- Only fields of the row have a value. -/
lemma mem_names_of_mem_present {values : FieldValues I}
    {outcomes : List (Except Result (Resolved I))} :
    ∀ pair ∈ present (slots values outcomes), pair.1 ∈ values.names := by
  refine (Table.ofPairs_induction (P := fun pair => pair.1 ∈ values.names) fun pair hpair => ?_).2
  obtain ⟨⟨field, value⟩, hslot, heq⟩ := List.mem_filterMap.mp hpair
  obtain ⟨own, -, rfl⟩ := Option.map_eq_some_iff.mp heq
  rw [← map_fst_slots values outcomes]
  exact List.mem_map_of_mem hslot

lemma accounts_of_mem_deferred {values : FieldValues I}
    (h : ∀ entry ∈ values, entry.2.Accounts C) :
    ∀ resolve ∈ values.deferred, Resolves C resolve := by
  induction values with
  | nil => simp [deferred]
  | cons entry rest ih =>
    obtain ⟨hentry, hrest⟩ := List.forall_mem_cons.mp h
    obtain ⟨field, value | resolve⟩ := entry
    · exact ih hrest
    · exact List.forall_mem_cons.mpr ⟨hentry, ih hrest⟩

/-- The deferred values are siblings. -/
lemma ensures_resolve {values : FieldValues I} (h : ∀ entry ∈ values, entry.2.Accounts C) :
    Ensures C ∅ (fun row => violations row.results)
      (fun row => (∀ pair ∈ row.values, pair.1 ∈ values.names) ∧
        ∀ action ∈ row.after, Accounts C ∅ violations action) (fun _ => True) values.resolve := by
  refine Program.meets_bind
    ((meets_sequence (accounts_of_mem_deferred h)).mono fun log outcomes houtcomes => ?_)
  refine Program.meets_run_bind (meets_settle ?_)
  let wrap (kept : List (Except Result (Resolved I))) : RowValues I :=
    ⟨present (slots values kept), kept.flatMap resultsOf, kept.filterMap afterOf?⟩
  have hreports : Reports ∅ (fun row => violations row.results) log
        ((classify outcomes).1.map wrap) ∧ IsSettled ((classify outcomes).1.map wrap) :=
    houtcomes.1.classify wrap ?_ ?_
  · cases hkept : (classify outcomes).1 with
    | error failure =>
      rw [hkept] at hreports
      rw [List.append_nil]
      refine ⟨hreports.1, ?_, fun _ _ => trivial⟩
      rintro row ⟨⟩
    | ok kept =>
      rw [hkept] at hreports
      show Reports ∅ _ (log ++ ([] ++ [])) _ ∧ _
      rw [List.append_nil, List.append_nil]
      refine ⟨hreports.1, ?_, fun _ _ => trivial⟩
      rintro _ ⟨⟩
      refine ⟨mem_names_of_mem_present, fun action hmem => ?_⟩
      obtain ⟨outcome | resolved, hmem, hafter⟩ := List.mem_filterMap.mp hmem
      · cases hafter
      · exact houtcomes.2 resolved (ok_mem_of_classify hkept hmem) action hafter
  · rintro kept resolved hmem kind ⟨result, hresult, hkind⟩
    exact ⟨result, List.mem_flatMap.mpr ⟨_, hmem, hresult⟩, hkind⟩
  · intro kept result kind hmem hkind
    exact ⟨result, List.mem_flatMap.mpr ⟨_, hmem, List.mem_singleton_self result⟩, hkind⟩

end FieldValues

/-- What was left for after the statement forgets nothing. -/
lemma RowValues.accounts_finish {row : RowValues I}
    (h : ∀ action ∈ row.after, Accounts C ∅ violations action) :
    Accounts C (violations row.results) violations row.finish :=
  (concludes_collectAll h).writes.frame.bind fun _ => .pure (violations_append ..).symm.subset

end EntityGraph.Mutation
