import EntityGraph.Proofs.Mutation.Telling
import EntityGraph.Proofs.Program.Completion
/-!
# Siblings told by their outcomes

Sibling operations all run to their ends. Where none of them fails fatally, what each of them tells
stands in its place. Otherwise the first fatal failure is returned, and the others are reported.

The values of a row are siblings as well. A field that was given a value has its outcome at once,
and a deferred one has it when it is resolved. Only the deferred values run, and only their outcomes
are classified; yet the row is what the outcomes of all fields, in their order, make of it.
-/
namespace EntityGraph.Mutation

variable {I : Interface} {α β : Type} {result : Except Failure β} {later : List Event}

/-- What siblings come to that have these fatal failures, and tell `a` where there is none; and
what is reported in the end. -/
inductive Concluded (a : β) : List Failure → Except Failure β → List Event → Prop
  | all : Concluded a [] (.ok a) []
  | first {failure : Failure} {others : List Failure} :
      Concluded a (failure :: others) (.error failure)
        (others.map fun other => .laterFailure other.message)

namespace Concluded

variable {a : β} {fatal : List Failure}

/-- Whatever is reported in the end is an error. -/
lemma severity_eq (h : Concluded a fatal result later) :
    ∀ event ∈ later, event.severity = .error := by
  cases h with
  | all => exact fun _ hmem => absurd hmem List.not_mem_nil
  | first =>
    intro event hmem
    obtain ⟨other, -, rfl⟩ := List.mem_map.mp hmem
    rfl

lemma map_iff {f : α → β} {a : α} :
    Concluded (f a) fatal result later ↔
      ∃ own, Concluded a fatal own later ∧ result = own.map f := by
  constructor
  · rintro ⟨⟩
    · exact ⟨_, .all, rfl⟩
    · exact ⟨_, .first, rfl⟩
  · rintro ⟨own, h, rfl⟩
    cases h with
    | all => exact .all
    | first => exact .first

end Concluded

@[simp] lemma fatalFailures_map (f : α → β) (outcomes : List (Except Failure α)) :
    fatalFailures (outcomes.map (Except.map f)) = fatalFailures outcomes := by
  rw [fatalFailures, List.filterMap_map]
  congr 1
  funext outcome
  cases outcome <;> rfl

lemma concluded_classify_iff {outcomes : List (Except Failure α)}
    {result : Except Failure (List (Except Result α))} :
    Concluded (outcomes.filterMap kept?) (fatalFailures outcomes) result later ↔
      classify outcomes = (result, later) := by
  rw [classify, split_eq]
  rcases fatalFailures outcomes with _ | ⟨failure, others⟩
  · constructor
    · rintro ⟨⟩
      rfl
    · rintro ⟨⟩
      exact .all
  · constructor
    · rintro ⟨⟩
      rfl
    · rintro ⟨⟩
      exact .first

/-- A failure that is a result stands where it occurred, and a fatal one tells nothing. -/
lemma flatMap_kept? {results : α → List Result} {own : Except Result α → List Result}
    (hok : ∀ a, own (.ok a) = results a) (herror : ∀ result, own (.error result) = [result])
    (outcomes : List (Except Failure α)) :
    (outcomes.filterMap kept?).flatMap own = outcomes.flatMap (toldBy results) := by
  induction outcomes with
  | nil => rfl
  | cons outcome rest ih =>
    rw [List.flatMap_cons, ← ih]
    cases outcome with
    | ok a => simp [kept?, toldBy, hok]
    | error failure => cases hresult : failure.result? <;> simp [kept?, toldBy, hresult, herror]

lemma flatten_kept? (outcomes : List (Except Failure (List Result))) :
    flatten (outcomes.filterMap kept?) = outcomes.flatMap (toldBy id) := by
  have hflatten : flatten = List.flatMap fun
      | .ok results => results
      | .error result => [result] := by
    funext kept
    induction kept with
    | nil => rfl
    | cons outcome rest ih => cases outcome <;> simp [flatten, ih]
  rw [hflatten]
  exact flatMap_kept? (fun _ => rfl) (fun _ => rfl) outcomes

lemma concluded_classify_map_iff {outcomes : List (Except Failure α)}
    {f : List (Except Result α) → β} :
    Concluded (f (outcomes.filterMap kept?)) (fatalFailures outcomes) result later ↔
      ((classify outcomes).1.map f, (classify outcomes).2) = (result, later) := by
  rw [Concluded.map_iff, Prod.mk.injEq]
  simp only [concluded_classify_iff, Prod.ext_iff]
  constructor
  · rintro ⟨own, ⟨rfl, rfl⟩, rfl⟩
    exact ⟨rfl, rfl⟩
  · rintro ⟨rfl, rfl⟩
    exact ⟨_, ⟨rfl, rfl⟩, rfl⟩

lemma concluded_collect_iff {outcomes : List (Except Failure (List Result))}
    {result : Except Failure (List Result)} :
    Concluded (outcomes.flatMap (toldBy id)) (fatalFailures outcomes) result later ↔
      collect outcomes = (result, later) := by
  rw [← flatten_kept?]
  exact concluded_classify_map_iff

lemma run_settle (outcome : Except Failure α × List Event) :
    (settle outcome : Action I α).run =
      Program.reportAll outcome.2 >>= fun _ => .done outcome.1 := rfl

lemma settle_bind_pure {outcome : Except Failure α × List Event} {f : α → β} :
    (settle outcome >>= fun a => pure (f a) : Action I β) =
      settle (outcome.1.map f, outcome.2) := by
  refine ExceptT.ext ?_
  rw [ExceptT.run_bind, run_settle, Program.bind_assoc]
  cases outcome.1 <;> rfl

lemma settle_completes_iff {trace : List (Program.Exchange I)} {events : List Event}
    {outcome : Except Failure β × List Event} :
    (settle outcome : Action I β).run.Completes trace events result ↔
      trace = [] ∧ outcome = (result, events) := by
  rw [run_settle, Program.completes_bind_iff]
  constructor
  · rintro ⟨first, before, u, second, after, hreport, hdone, rfl, rfl⟩
    obtain ⟨rfl, rfl⟩ := Program.reportAll_completes_iff.mp hreport
    obtain ⟨rfl, rfl, rfl⟩ := Program.completes_done_iff.mp hdone
    exact ⟨rfl, by rw [List.append_nil]⟩
  · rintro ⟨rfl, rfl⟩
    exact ⟨[], events, (), [], [], Program.reportAll_completes_iff.mpr ⟨rfl, rfl⟩, .done _, rfl,
      (List.append_nil _).symm⟩

section Gathering

variable {trace : List (Program.Exchange I)} {events : List Event}

/-- Programs run in turn, and what their outcomes come to is settled in the end. -/
lemma sequence_settle_completes_iff {programs : List (Program I α)}
    {settled : List α → Except Failure β × List Event} :
    (Program.sequence programs >>= fun outcomes =>
        (settle (settled outcomes) : Action I β).run).Completes trace events result ↔
      ∃ outcomes own later, Program.InTurn programs trace own outcomes ∧ events = own ++ later ∧
        settled outcomes = (result, later) := by
  rw [Program.completes_bind_iff]
  constructor
  · rintro ⟨first, own, outcomes, second, later, hturns, hsettle, rfl, rfl⟩
    obtain ⟨rfl, hsettled⟩ := settle_completes_iff.mp hsettle
    rw [List.append_nil]
    exact ⟨outcomes, own, later, Program.sequence_completes_iff.mp hturns, rfl, hsettled⟩
  · rintro ⟨outcomes, own, later, hturns, rfl, hsettled⟩
    exact ⟨trace, own, outcomes, [], later, Program.sequence_completes_iff.mpr hturns,
      settle_completes_iff.mpr ⟨rfl, hsettled⟩, (List.append_nil _).symm, rfl⟩

lemma collectAll_completes_iff {operations : List (Action I (List Result))}
    {result : Except Failure (List Result)} :
    (collectAll operations).run.Completes trace events result ↔
      ∃ outcomes own later, Program.InTurn (operations.map ExceptT.run) trace own outcomes ∧
        events = own ++ later ∧
        Concluded (outcomes.flatMap (toldBy id)) (fatalFailures outcomes) result later := by
  simp only [concluded_collect_iff]
  exact sequence_settle_completes_iff

lemma toldBy_id_map (f : α → List Result) (outcome : Except Failure α) :
    toldBy id (outcome.map f) = toldBy f outcome := by
  cases outcome <;> rfl

lemma gather_completes_iff {operations : List (Action I Yield)}
    {result : Except Failure (List Result)} :
    (gather operations).run.Completes trace events result ↔
      ∃ outcomes own later, Program.InTurn (operations.map ExceptT.run) trace own outcomes ∧
        events = own ++ later ∧
        Concluded (outcomes.flatMap (toldBy Yield.all)) (fatalFailures outcomes) result later := by
  have htold (outcomes : List (Except Failure Yield)) :
      (outcomes.map (Except.map Yield.all)).flatMap (toldBy id) =
        outcomes.flatMap (toldBy Yield.all) := by
    simp only [List.flatMap_map, toldBy_id_map]
  simp only [← htold, ← fatalFailures_map Yield.all, concluded_collect_iff]
  exact sequence_settle_completes_iff

lemma gather_results (operations : List (Action I (List Result))) :
    gather (operations.map fun operation => Yield.results <$> operation) =
      collectAll operations := by
  have hrun : (operations.map fun operation => Yield.results <$> operation).map ExceptT.run =
      (operations.map ExceptT.run).map (Except.map Yield.results <$> ·) := by
    rw [List.map_map, List.map_map]
    exact List.map_congr_left fun operation _ => ExceptT.run_map ..
  have hall (outcomes : List (Except Failure (List Result))) :
      (outcomes.map (Except.map Yield.results)).map (Except.map Yield.all) = outcomes := by
    rw [List.map_map]
    refine (List.map_congr_left fun outcome _ => ?_).trans (List.map_id _)
    cases outcome <;> rfl
  rw [gather, hrun, Program.sequence_map]
  simp only [bind_map_left, hall]
  rfl

/-- Operations come to their outcomes one after another. What these tell is returned as it stands
if none of them is fatal, and nothing more is reported. Otherwise the first fatal failure is
returned, and every other one is reported as an error, in order. -/
theorem gathering_keeps_every_result (operations : List (Action I Yield))
    (trace : List (Program.Exchange I)) (events : List Event)
    (result : Except Failure (List Result)) :
    ((gather operations).run.Completes trace events result ↔
      ∃ outcomes own later, Program.InTurn (operations.map ExceptT.run) trace own outcomes ∧
        events = own ++ later ∧ (∀ event ∈ later, event.severity = .error) ∧
        Concluded (outcomes.flatMap (toldBy Yield.all)) (fatalFailures outcomes) result later) ∧
    ∀ flat : List (Action I (List Result)),
      gather (flat.map fun operation => Yield.results <$> operation) = collectAll flat := by
  refine ⟨?_, gather_results⟩
  rw [gather_completes_iff]
  constructor
  · rintro ⟨outcomes, own, later, hturns, hevents, h⟩
    exact ⟨outcomes, own, later, hturns, hevents, h.severity_eq, h⟩
  · rintro ⟨outcomes, own, later, hturns, hevents, -, h⟩
    exact ⟨outcomes, own, later, hturns, hevents, h⟩

end Gathering

/-! ### Deferred values -/

/-- What a field comes to: a value that is given needs no run. -/
def FieldValue.action : FieldValue I → Action I (Resolved I)
  | .value given => pure (.ofValue given)
  | .deferred resolve => resolve

namespace FieldValues

variable {values : FieldValues I} {outcomes every : List (Except Failure (Resolved I))}
  {trace : List (Program.Exchange I)} {events : List Event}

def filled? (outcome : Except Failure (Resolved I)) : Option Value :=
  outcome.toOption.bind Resolved.value

def continuation? (outcome : Except Failure (Resolved I)) : Option (Action I (List Result)) :=
  outcome.toOption.bind Resolved.after

/-- The row that is made of the outcomes of its fields, one for each. -/
def settledRow (values : FieldValues I) (every : List (Except Failure (Resolved I))) :
    RowValues I where
  values := (values.names.zip every).filterMap fun (field, outcome) =>
    (filled? outcome).map (field, ·)
  results := every.flatMap (toldBy Resolved.results)
  after := every.filterMap continuation?

/-- `every` has the outcomes of the deferred values in their places, and between them the values
that are given. -/
inductive Aligned : FieldValues I → List (Except Failure (Resolved I)) →
    List (Except Failure (Resolved I)) → Prop
  | nil : Aligned [] [] []
  | value {field : String} {value : Value} {rest : FieldValues I}
      {outcomes every : List (Except Failure (Resolved I))} (tail : Aligned rest outcomes every) :
      Aligned ((field, .value value) :: rest) outcomes (.ok (.ofValue value) :: every)
  | deferred {field : String} {resolve : Action I (Resolved I)} {rest : FieldValues I}
      {outcome : Except Failure (Resolved I)} {outcomes every : List (Except Failure (Resolved I))}
      (tail : Aligned rest outcomes every) :
      Aligned ((field, .deferred resolve) :: rest) (outcome :: outcomes) (outcome :: every)

/-- A value that is given neither asks nor reports anything. -/
lemma inTurn_iff_aligned :
    Program.InTurn (values.map fun entry => entry.2.action.run) trace events every ↔
      ∃ outcomes, Program.InTurn (values.deferred.map ExceptT.run) trace events outcomes ∧
        Aligned values outcomes every := by
  constructor
  · intro h
    induction values generalizing trace events every with
    | nil =>
      cases h
      exact ⟨[], .nil, .nil⟩
    | cons entry rest ih =>
      obtain _ | ⟨head, tail⟩ := h
      obtain ⟨outcomes, hturns, haligned⟩ := ih tail
      obtain ⟨field, value | resolve⟩ := entry
      · obtain ⟨rfl, rfl, rfl⟩ := Program.completes_done_iff.mp head
        exact ⟨outcomes, hturns, .value haligned⟩
      · exact ⟨_ :: outcomes, .cons head hturns, .deferred haligned⟩
  · rintro ⟨outcomes, hturns, haligned⟩
    induction haligned generalizing trace events with
    | nil =>
      cases hturns
      exact .nil
    | value tail ih => exact .cons (.done _) (ih hturns)
    | deferred tail ih =>
      obtain _ | ⟨head, later⟩ := hturns
      exact .cons head (ih later)

/-- Outcomes of the deferred values have their places among all. -/
lemma exists_aligned (h : Program.InTurn (values.deferred.map ExceptT.run) trace events outcomes) :
    ∃ every, Aligned values outcomes every := by
  induction values generalizing trace events outcomes with
  | nil =>
    cases h
    exact ⟨[], .nil⟩
  | cons entry rest ih =>
    obtain ⟨field, value | resolve⟩ := entry
    · obtain ⟨every, hevery⟩ := ih h
      exact ⟨_, .value hevery⟩
    · obtain _ | ⟨-, tail⟩ := h
      obtain ⟨every, hevery⟩ := ih tail
      exact ⟨_, .deferred hevery⟩

namespace Aligned

/-- What given values have nothing of comes from the deferred ones, in their order. -/
lemma flatMap_eq {β : Type} {f : Except Failure (Resolved I) → List β}
    (hgiven : ∀ given, f (.ok (.ofValue given)) = []) (h : Aligned values outcomes every) :
    every.flatMap f = outcomes.flatMap f := by
  induction h with
  | nil => rfl
  | value tail ih => rw [List.flatMap_cons, hgiven, List.nil_append, ih]
  | deferred tail ih => rw [List.flatMap_cons, List.flatMap_cons, ih]

lemma filterMap_eq {β : Type} {f : Except Failure (Resolved I) → Option β}
    (hgiven : ∀ given, f (.ok (.ofValue given)) = none) (h : Aligned values outcomes every) :
    every.filterMap f = outcomes.filterMap f := by
  rw [List.filterMap_eq_flatMap_toList, List.filterMap_eq_flatMap_toList]
  exact h.flatMap_eq fun given => by rw [hgiven, Option.toList_none]

/-- Without a fatal failure no slot is passed over. -/
lemma slots_eq (h : Aligned values outcomes every) (hfatal : fatalFailures outcomes = []) :
    slots values (outcomes.filterMap kept?) = values.names.zip (every.map filled?) := by
  induction h with
  | nil => rfl
  | value tail ih => exact congrArg (List.cons _) (ih hfatal)
  | @deferred field resolve rest outcome outcomes every tail ih =>
    rw [fatalFailures_cons, List.append_eq_nil_iff] at hfatal
    have hrest := congrArg (List.cons (field, filled? outcome)) (ih hfatal.2)
    cases outcome with
    | ok resolved => exact hrest
    | error failure =>
      cases hresult : failure.result? with
      | none => simp [fatal?, hresult] at hfatal
      | some result =>
        rw [List.filterMap_cons, kept?, hresult]
        exact hrest

end Aligned

lemma sublist_names (names : List String) (every : List (Except Failure (Resolved I))) :
    (((names.zip every).filterMap fun (field, outcome) =>
      (filled? outcome).map (field, ·)).map Prod.fst).Sublist names := by
  induction names generalizing every with
  | nil => simp
  | cons field rest ih =>
    cases every with
    | nil => simp
    | cons outcome every =>
      cases hfilled : filled? outcome with
      | none => simpa [hfilled] using (ih every).cons field
      | some value => simpa [hfilled] using ih every

/-- Slots of distinct fields are a table as they stand. -/
lemma present_zip (hnames : values.names.Nodup) (every : List (Except Failure (Resolved I))) :
    present (values.names.zip (every.map filled?)) = (settledRow values every).values := by
  rw [present, List.zip_map_right, List.filterMap_map]
  exact Table.ofPairs_eq_self (hnames.sublist (sublist_names values.names every))

/-- The row that the deferred values leave is the one that all fields leave. -/
lemma Aligned.row_eq (h : Aligned values outcomes every) (hfatal : fatalFailures outcomes = [])
    (hnames : values.names.Nodup) :
    (⟨present (slots values (outcomes.filterMap kept?)),
      (outcomes.filterMap kept?).flatMap resultsOf,
      (outcomes.filterMap kept?).filterMap afterOf?⟩ : RowValues I) = settledRow values every := by
  have hresults : (outcomes.filterMap kept?).flatMap resultsOf =
      outcomes.flatMap (toldBy Resolved.results) :=
    flatMap_kept? (fun _ => rfl) (fun _ => rfl) outcomes
  have hafter : (outcomes.filterMap kept?).filterMap afterOf? =
      outcomes.filterMap continuation? := by
    rw [List.filterMap_filterMap]
    congr 1
    funext outcome
    cases outcome with
    | ok resolved => rfl
    | error failure => cases hresult : failure.result? <;> simp [kept?, hresult] <;> rfl
  rw [h.slots_eq hfatal, present_zip hnames, hresults, hafter, ← h.flatMap_eq fun _ => rfl,
    ← h.filterMap_eq fun _ => rfl]
  rfl

/-- It is the same whether the outcomes of the deferred values are concluded or those of all
fields. -/
lemma Aligned.concluded_iff (h : Aligned values outcomes every) (hnames : values.names.Nodup)
    {result : Except Failure (RowValues I)} {later : List Event} :
    Concluded (⟨present (slots values (outcomes.filterMap kept?)),
        (outcomes.filterMap kept?).flatMap resultsOf,
        (outcomes.filterMap kept?).filterMap afterOf?⟩ : RowValues I)
        (fatalFailures outcomes) result later ↔
      Concluded (settledRow values every) (fatalFailures every) result later := by
  have hevery : fatalFailures every = fatalFailures outcomes := h.filterMap_eq fun _ => rfl
  rw [hevery]
  cases hfatal : fatalFailures outcomes with
  | nil => rw [h.row_eq hfatal hnames]
  | cons failure others =>
    -- The rows may differ here, as slots are filled from the wrong outcomes, but no row is returned.
    constructor <;>
    · rintro ⟨⟩
      exact .first

/-- The values of a row are resolved by what each of its fields comes to. -/
lemma resolve_completes_iff (hnames : values.names.Nodup) {result : Except Failure (RowValues I)} :
    values.resolve.run.Completes trace events result ↔
      ∃ every own later,
        Program.InTurn (values.map fun entry => entry.2.action.run) trace own every ∧
        events = own ++ later ∧
        Concluded (settledRow values every) (fatalFailures every) result later := by
  have hrun : values.resolve.run =
      Program.sequence (values.deferred.map ExceptT.run) >>= fun outcomes =>
        (settle (classify outcomes) >>= fun kept => pure ⟨present (slots values kept),
          kept.flatMap resultsOf, kept.filterMap afterOf?⟩ : Action I (RowValues I)).run := rfl
  simp only [hrun, settle_bind_pure, sequence_settle_completes_iff, inTurn_iff_aligned]
  constructor
  · rintro ⟨outcomes, own, later, hturns, rfl, hclassify⟩
    obtain ⟨every, haligned⟩ := exists_aligned hturns
    exact ⟨every, own, later, ⟨outcomes, hturns, haligned⟩, rfl,
      (haligned.concluded_iff hnames).mp (concluded_classify_map_iff.mpr hclassify)⟩
  · rintro ⟨every, own, later, ⟨outcomes, hturns, haligned⟩, rfl, hconcluded⟩
    exact ⟨outcomes, own, later, hturns, rfl,
      concluded_classify_map_iff.mp ((haligned.concluded_iff hnames).mpr hconcluded)⟩

/-- What is left to run after the statement adds its results to those of the row. -/
lemma finish_completes_iff {row : RowValues I} {result : Except Failure (List Result)} :
    row.finish.run.Completes trace events result ↔
      ∃ outcomes own later, Program.InTurn (row.after.map ExceptT.run) trace own outcomes ∧
        events = own ++ later ∧
        Concluded (row.results ++ outcomes.flatMap (toldBy id)) (fatalFailures outcomes)
          result later := by
  have hrun : row.finish = collectAll row.after >>= fun results =>
      pure (row.results ++ results) := rfl
  rw [hrun, Program.completes_run_map_iff]
  simp only [collectAll_completes_iff]
  constructor
  · rintro ⟨own, ⟨outcomes, told, later, hturns, hevents, h⟩, rfl⟩
    exact ⟨outcomes, told, later, hturns, hevents, Concluded.map_iff.mpr ⟨own, h, rfl⟩⟩
  · rintro ⟨outcomes, told, later, hturns, hevents, h⟩
    obtain ⟨own, hown, rfl⟩ := Concluded.map_iff.mp h
    exact ⟨own, ⟨outcomes, told, later, hturns, hevents, hown⟩, rfl⟩

/-- Deferred values land in their own slots. Where no outcome is fatal, the row has the values of
the fields that were given one or came to one, in the order of the fields, and the results and what
is left to run in that order; and what is left adds its own results in the end. Otherwise the first
fatal failure is returned, and every other one is reported. -/
theorem deferred_values_land_in_place {values : FieldValues I} (hnames : values.names.Nodup)
    (trace : List (Program.Exchange I)) (events : List Event) :
    (∀ result, values.resolve.run.Completes trace events result ↔
      ∃ every own later,
        Program.InTurn (values.map fun entry => entry.2.action.run) trace own every ∧
        events = own ++ later ∧
        Concluded (settledRow values every) (fatalFailures every) result later) ∧
    ∀ (row : RowValues I) (result : Except Failure (List Result)),
      row.finish.run.Completes trace events result ↔
        ∃ outcomes own later, Program.InTurn (row.after.map ExceptT.run) trace own outcomes ∧
          events = own ++ later ∧
          Concluded (row.results ++ outcomes.flatMap (toldBy id)) (fatalFailures outcomes)
            result later :=
  ⟨fun _ => resolve_completes_iff hnames, fun _ _ => finish_completes_iff⟩

/-- Four fields in their order: one is deferred and leaves something to run, and one is denied. -/
def mixedValues : FieldValues Rows :=
  [("title", .value (.string "Hello")),
    ("author", .deferred (liftExcept (.ok
      ⟨some (.int 1), [.atRoot (.idle .noData)], some (liftExcept (.error .denied))⟩))),
    ("category", .deferred (liftExcept (.error .denied))),
    ("slug", .value (.string "hello"))]

/-- The denied field is left out, and its failure is told before that of what was left to run. -/
theorem deferred_values_land_in_place_mixed :
    mixedValues.names.Nodup ∧ ∃ row : RowValues Rows,
      mixedValues.resolve.run.Completes [] [] (.ok row) ∧
      row.values =
        [("title", .string "Hello"), ("author", .int 1), ("slug", .string "hello")] ∧
      row.results = [.atRoot (.idle .noData), .atRoot .denied] ∧
      row.finish.run.Completes [] [] (.ok (row.results ++ [.atRoot .denied])) := by
  have hnames : mixedValues.names.Nodup := by decide
  obtain ⟨hresolve, hfinish⟩ := deferred_values_land_in_place hnames [] []
  let every : List (Except Failure (Resolved Rows)) :=
    [.ok (.ofValue (.string "Hello")),
      .ok ⟨some (.int 1), [.atRoot (.idle .noData)], some (liftExcept (.error .denied))⟩,
      .error .denied, .ok (.ofValue (.string "hello"))]
  have hturns :
      Program.InTurn (mixedValues.map fun entry => entry.2.action.run) [] [] every :=
    .cons (.done _) (.cons (.done _) (.cons (.done _) (.cons (.done _) .nil)))
  exact ⟨hnames, settledRow mixedValues every,
    (hresolve _).mpr ⟨every, [], [], hturns, rfl, .all⟩, rfl, rfl,
    (hfinish _ _).mpr ⟨[.error .denied], [], [], .cons (.done _) .nil, rfl, .all⟩⟩

end FieldValues

end EntityGraph.Mutation
