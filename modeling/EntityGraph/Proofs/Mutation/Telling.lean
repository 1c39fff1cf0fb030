import EntityGraph.Proofs.Mutation.Plans
/-!
# What is told of related rows

While the value of a joining column is resolved, other rows are looked up and written. What became
of them is told by the answers to these calls, and by an answer that names no row where the input
needs one. An input hands on what its calls tell, and nothing else.
-/
namespace EntityGraph.Mutation

variable {α : Type} {rows : RowAnswers} {trace : List (Program.Exchange Effect)}

/-! ### What outcomes tell -/

/-- The results of an outcome, or the one that its failure is. -/
def toldBy (results : α → List Result) : Except Failure α → List Result
  | .ok a => results a
  | .error failure => failure.result?.toList

/-- The results that the answer to an operation on rows tells; a look-up that succeeds tells
none. -/
def told : (request : RowRequest) → request.Reply → List Result
  | .insert .., reply => toldBy id reply
  | .update .., reply => toldBy id reply
  | .delete .., reply => toldBy id reply
  | .selectField .., reply => toldBy (fun _ => []) reply
  | .primaryValue .., reply => toldBy (fun _ => []) reply
  | .connect .., reply => toldBy id reply
  | .disconnect .., reply => toldBy id reply

def toldAlong (calls : List (Program.Exchange Rows)) : List Result :=
  calls.flatMap fun call => told call.request call.reply

@[simp] lemma toldAlong_nil : toldAlong [] = [] := rfl

@[simp] lemma toldAlong_cons (call : Program.Exchange Rows) (calls : List (Program.Exchange Rows)) :
    toldAlong (call :: calls) = told call.request call.reply ++ toldAlong calls := rfl

/-- What the calls that an input made tell of related rows: what the answers to them tell, and that
there is no row to connect, or none at the end of the relation to delete or update. -/
inductive Tells (sides : RelationSides) (input : ToOneInput)
    (calls : List (Program.Exchange Rows)) : Result → Prop
  | reported {result : Result} (hresult : result ∈ toldAlong calls) : Tells sides input calls result
  | missing {which : UniqueWhere} {later : List (Program.Exchange Rows)}
      (hinput : input = .connect which)
      (hcalls : calls = ⟨RowRequest.primaryValue sides.target which, Except.ok none⟩ :: later) :
      Tells sides input calls (.atRoot (.notFound which))
  | empty {which : UniqueWhere} {later : List (Program.Exchange Rows)}
      (hinput : input.operation = .delete ∨ input.operation = .update)
      (hcalls : calls = ⟨RowRequest.selectField sides.entity which sides.relation.name,
        Except.ok none⟩ :: later) :
      Tells sides input calls (.atRoot (.idle .emptyRelation))

section Told

variable {path : Path} {result : Result}

lemma mem_toldBy_outcomeUnder {outcome : Except Failure (List Result)}
    (h : result ∈ toldBy id outcome) :
    result.under path ∈ toldBy id (outcomeUnder path outcome) := by
  cases outcome with
  | ok results => exact List.mem_map_of_mem h
  | error failure =>
    have hresult : failure.result? = some result := Option.mem_toList.mp h
    rw [outcomeUnder, Failure.rescued, hresult]
    exact List.mem_singleton_self _

lemma mem_toldBy_resolvedUnder {outcome : Except Failure (Resolved Rows)}
    (h : result ∈ toldBy Resolved.results outcome) :
    result.under path ∈ toldBy Resolved.results (resolvedUnder path outcome) := by
  cases outcome with
  | ok resolved => exact List.mem_map_of_mem h
  | error failure =>
    have hresult : failure.result? = some result := Option.mem_toList.mp h
    rw [resolvedUnder, Failure.rescued, hresult]
    exact List.mem_singleton_self _

/-- Siblings keep what each of them tells. -/
lemma mem_of_told {results : α → List Result} {outcomes : List (Except Failure α)}
    {outcome : Except Failure α} (hmem : outcome ∈ outcomes)
    (htold : result ∈ toldBy results outcome) :
    (∃ a, .ok a ∈ (split outcomes).1 ∧ result ∈ results a) ∨
      .error result ∈ (split outcomes).1 := by
  cases outcome with
  | ok a => exact .inl ⟨a, ok_mem_split.mpr hmem, htold⟩
  | error failure => exact .inr (error_mem_split_iff.mpr ⟨failure, hmem, Option.mem_toList.mp htold⟩)

lemma mem_flatten_of_ok {kept : List (Except Result (List Result))} {results : List Result}
    (hmem : .ok results ∈ kept) (hresult : result ∈ results) : result ∈ flatten kept := by
  induction kept with
  | nil => cases hmem
  | cons outcome rest ih =>
    obtain rfl | hrest := List.mem_cons.mp hmem
    · exact List.mem_append_left _ hresult
    · cases outcome with
      | ok first => exact List.mem_append_right _ (ih hrest)
      | error first => exact List.mem_cons_of_mem _ (ih hrest)

/-- What siblings keep was told by one of them. -/
lemma exists_told_of_mem {outcomes : List (Except Failure (Resolved Rows))}
    (h : result ∈ (split outcomes).1.flatMap FieldValues.resultsOf) :
    ∃ outcome ∈ outcomes, result ∈ toldBy Resolved.results outcome := by
  obtain ⟨kept, hkept, hresult⟩ := List.mem_flatMap.mp h
  cases kept with
  | ok resolved => exact ⟨.ok resolved, ok_mem_split.mp hkept, hresult⟩
  | error own =>
    obtain rfl := List.mem_singleton.mp hresult
    obtain ⟨failure, hmem, hfailure⟩ := error_mem_split_iff.mp hkept
    exact ⟨.error failure, hmem, Option.mem_toList.mpr hfailure⟩

/-- What is told under a path was told below it. -/
lemma exists_told_of_resolvedUnder {outcome : Except Failure (Resolved Rows)}
    (h : result ∈ toldBy Resolved.results (resolvedUnder path outcome)) :
    ∃ own ∈ toldBy Resolved.results outcome, own.under path = result := by
  cases outcome with
  | ok resolved => exact List.mem_map.mp h
  | error failure =>
    rw [resolvedUnder, Failure.rescued] at h
    cases hresult : failure.result? with
    | none =>
      rw [hresult] at h
      have hnone : failure.result? = some result := Option.mem_toList.mp h
      rw [hresult] at hnone
      cases hnone
    | some own =>
      rw [hresult] at h
      exact ⟨own, Option.mem_toList.mpr hresult, (List.mem_singleton.mp h).symm⟩

section Turns

variable {calls : List (Program.Exchange Rows)} {own more : List (Program.Exchange Effect)}
  (htrace : own ++ more = trace)
include htrace

/-- What a deferred value told in its turn is among the results of the row. -/
lemma Turn.mem_resolved {values : FieldValues Rows} {resolve : Action Rows (Resolved Rows)}
    {outcome : Except Failure (Resolved Rows)} {row : RowValues Rows}
    (h : Turn rows values.deferred resolve trace calls outcome)
    (hrun : (answered rows values.resolve).run.Reaches own (.done (.ok row)))
    (htold : result ∈ toldBy Resolved.results outcome) : result ∈ row.results := by
  obtain ⟨outcomes, hall, -, rfl⟩ := FieldValues.resolve_reaches_ok hrun
  refine List.mem_flatMap.mpr ?_
  obtain ⟨resolved, hresolved, hresult⟩ | herror := mem_of_told (h.mem hall htrace) htold
  · exact ⟨.ok resolved, hresolved, hresult⟩
  · exact ⟨.error result, herror, List.mem_singleton_self _⟩

/-- What an operation told in its turn is among the results that were collected. -/
lemma Turn.mem_collected {operations : List (Action Rows (List Result))}
    {operation : Action Rows (List Result)} {outcome : Except Failure (List Result)}
    {results : List Result} (h : Turn rows operations operation trace calls outcome)
    (hrun : (answered rows (collectAll operations)).run.Reaches own (.done (.ok results)))
    (htold : result ∈ toldBy id outcome) : result ∈ results := by
  obtain ⟨outcomes, hall, hresults⟩ := collectAll_reaches_iff.mp hrun
  cases hkept : (classify outcomes).1 with
  | error failure =>
    rw [hkept] at hresults
    cases hresults
  | ok kept =>
    rw [hkept] at hresults
    cases hresults
    rw [(classify_eq_ok hkept).2]
    obtain ⟨found, hfound, hresult⟩ | herror := mem_of_told (h.mem hall htrace) htold
    · exact mem_flatten_of_ok hfound hresult
    · exact mem_flatten_of_error herror

end Turns

end Told

/-! ### What inputs tell -/

section Inputs

variable {sides : RelationSides} {input : ToOneInput} {own : Option Value} {primary : Value}
  {calls : List (Program.Exchange Rows)} {result : Result}

/-- An input that creates a row where there is none tells what its calls tell. -/
lemma Tells.of_creating (h : Tells sides input calls result)
    (hinput : input.operation = .create ∨ input.operation = .upsert) :
    result ∈ toldAlong calls := by
  cases h with
  | reported hresult => exact hresult
  | missing hconnect => simp [hconnect, ToOneInput.operation] at hinput
  | empty hneeds => rcases hinput with hinput | hinput <;> simp [hinput] at hneeds

lemma Tells.of_connect {which : UniqueWhere} (h : Tells sides (.connect which) calls result) :
    result ∈ toldAlong calls ∨ result = .atRoot (.notFound which) ∧ ∃ later,
      calls = ⟨RowRequest.primaryValue sides.target which, Except.ok none⟩ :: later := by
  cases h with
  | reported hresult => exact .inl hresult
  | missing hconnect hcalls =>
    cases hconnect
    exact .inr ⟨rfl, _, hcalls⟩
  | empty hneeds => simp [ToOneInput.operation] at hneeds

lemma Tells.of_emptying (h : Tells sides input calls result)
    (hinput : input.operation = .delete ∨ input.operation = .update) :
    result ∈ toldAlong calls ∨ result = .atRoot (.idle .emptyRelation) ∧ ∃ which later,
      calls = ⟨RowRequest.selectField sides.entity which sides.relation.name,
        Except.ok none⟩ :: later := by
  cases h with
  | reported hresult => exact .inl hresult
  | missing hconnect => simp [hconnect, ToOneInput.operation] at hinput
  | empty _ hcalls => exact .inr ⟨rfl, _, _, hcalls⟩

section Told

variable {resolved : Except Failure (Resolved Rows)}

lemma toldBy_insertTarget {data : Data}
    (hrun : (insertTarget sides data).run.Reaches calls (.done resolved)) :
    toldBy Resolved.results resolved = toldAlong calls := by
  obtain ⟨failure, rfl, rfl⟩ | ⟨results, later, rfl, hlater⟩ :=
    (makesCall_insert _ _).of_bind hrun
  · simp [told, toldBy]
  · obtain ⟨rfl, hdone⟩ := Program.done_reaches_iff.mp hlater
    cases hdone
    simp [told, toldBy]

lemma toldBy_upsertTarget {create update : Data}
    (hrun : (RelatedRow.upsertTarget ⟨sides, primary⟩ create update).run.Reaches calls
      (.done resolved)) : toldBy Resolved.results resolved = toldAlong calls := by
  obtain ⟨failure, rfl, rfl⟩ | ⟨_ | target, later, rfl, hlater⟩ :=
    (makesCall_selectField _ _ _).of_bind hrun
  · simp [told, toldBy]
  · rw [toldBy_insertTarget hlater]
    simp [told, toldBy]
  obtain ⟨failure, rfl, rfl⟩ | ⟨results, last, rfl, hlast⟩ :=
    (makesCall_update _ _ _).of_bind hlater
  · simp [told, toldBy]
  · obtain ⟨rfl, hdone⟩ := Program.done_reaches_iff.mp hlast
    cases hdone
    simp [told, toldBy, Resolved.skip]

/-- The target to connect is missing, or only the answers to calls tell something. -/
lemma toldBy_claimTarget {which : UniqueWhere}
    (hrun : (claimTarget sides which own).run.Reaches calls (.done resolved)) :
    (calls = [⟨RowRequest.primaryValue sides.target which, Except.ok none⟩] ∧
      toldBy Resolved.results resolved = missing which) ∨
    (∀ later, calls ≠ ⟨RowRequest.primaryValue sides.target which, Except.ok none⟩ :: later) ∧
      toldBy Resolved.results resolved = toldAlong calls := by
  have hsilent {value : Resolved Rows} {calls : List (Program.Exchange Rows)}
      (hvalue : value.results = [])
      (hdone : (pure value : Action Rows (Resolved Rows)).run.Reaches calls (.done resolved)) :
      toldBy Resolved.results resolved = toldAlong calls := by
    obtain ⟨rfl, hdone⟩ := Program.done_reaches_iff.mp hdone
    cases hdone
    exact hvalue
  obtain ⟨failure, rfl, rfl⟩ | ⟨_ | target, later, rfl, hlater⟩ :=
    (makesCall_primaryValue _ _).of_bind hrun
  · refine .inr ⟨by rintro _ ⟨⟩, ?_⟩
    simp [told, toldBy]
  · obtain ⟨rfl, hdone⟩ := Program.done_reaches_iff.mp hlater
    cases hdone
    exact .inl ⟨rfl, rfl⟩
  refine .inr ⟨by rintro _ ⟨⟩, ?_⟩
  have hfirst (target : Option Value) : told (.primaryValue sides.target which) (.ok target) = [] :=
    rfl
  rw [toldAlong_cons, hfirst, List.nil_append]
  dsimp only at hlater
  split at hlater
  · exact hsilent rfl hlater
  obtain ⟨failure, rfl, rfl⟩ | ⟨_ | owner, last, rfl, hlast⟩ :=
    (makesCall_primaryValue _ _).of_bind hlater
  · simp [told, toldBy]
  · rw [hsilent rfl hlast]
    rfl
  have hsecond (claim : UniqueWhere) (owner : Option Value) :
      told (.primaryValue sides.entity claim) (.ok owner) = [] := rfl
  rw [toldAlong_cons, hsecond, List.nil_append]
  dsimp only at hlast
  split at hlast
  · exact hsilent rfl hlast
  obtain ⟨failure, rfl, rfl⟩ | ⟨results, ending, rfl, hending⟩ :=
    (makesCall_update _ _ _).of_bind hlast
  · simp [told, toldBy]
  · obtain ⟨rfl, hdone⟩ := Program.done_reaches_iff.mp hending
    cases hdone
    simp [told, toldBy]

/-- There is no target to delete, or only the answers to calls tell something. -/
lemma toldBy_deleteTarget
    (hrun : (RelatedRow.deleteTarget ⟨sides, primary⟩).run.Reaches calls (.done resolved)) :
    (∃ which, calls = [⟨RowRequest.selectField sides.entity which sides.relation.name,
        Except.ok none⟩] ∧
      toldBy Resolved.results resolved = [.atRoot (.idle .emptyRelation)]) ∨
    (∀ which later, calls ≠ ⟨RowRequest.selectField sides.entity which sides.relation.name,
        Except.ok none⟩ :: later) ∧
      toldBy Resolved.results resolved = toldAlong calls := by
  obtain ⟨failure, rfl, rfl⟩ | ⟨_ | target, later, rfl, hlater⟩ :=
    (makesCall_selectField _ _ _).of_bind hrun
  · refine .inr ⟨by rintro _ _ ⟨⟩, ?_⟩
    simp [told, toldBy]
  · obtain ⟨rfl, hdone⟩ := Program.done_reaches_iff.mp hlater
    cases hdone
    exact .inl ⟨_, rfl, rfl⟩
  · obtain ⟨rfl, hdone⟩ := Program.done_reaches_iff.mp hlater
    cases hdone
    exact .inr ⟨by rintro _ _ ⟨⟩, rfl⟩

/-- The value of a column comes with what is told of the related row, and with nothing else. -/
lemma Joins.tells_iff {resolve : Action Rows (Resolved Rows)} (h : Joins sides own input resolve)
    (hrun : resolve.run.Reaches calls (.done resolved)) :
    Tells sides input calls result ↔ result ∈ toldBy Resolved.results resolved := by
  cases h with
  | connect own which =>
    obtain ⟨rfl, htold⟩ | ⟨hfirst, htold⟩ := toldBy_claimTarget hrun
    · rw [htold, missing, List.mem_singleton]
      refine ⟨fun htells => ?_, fun heq => heq ▸ .missing rfl rfl⟩
      obtain htold | ⟨heq, -⟩ := htells.of_connect
      · simp [told, toldBy] at htold
      · exact heq
    · rw [htold]
      refine ⟨fun htells => ?_, .reported⟩
      obtain htold | ⟨-, later, hcalls⟩ := htells.of_connect
      · exact htold
      · exact absurd hcalls (hfirst later)
  | create own data =>
    rw [toldBy_insertTarget hrun]
    exact ⟨fun htells => htells.of_creating (.inl rfl), .reported⟩
  | upsert primary create update =>
    rw [toldBy_upsertTarget hrun]
    exact ⟨fun htells => htells.of_creating (.inr rfl), .reported⟩
  | delete primary =>
    obtain ⟨which, rfl, htold⟩ | ⟨hfirst, htold⟩ := toldBy_deleteTarget hrun
    · rw [htold, List.mem_singleton]
      refine ⟨fun htells => ?_, fun heq => heq ▸ .empty (.inl rfl) rfl⟩
      obtain htold | ⟨heq, -⟩ := htells.of_emptying (.inl rfl)
      · simp [told, toldBy] at htold
      · exact heq
    · rw [htold]
      refine ⟨fun htells => ?_, .reported⟩
      obtain htold | ⟨-, which, later, hcalls⟩ := htells.of_emptying (.inl rfl)
      · exact htold
      · exact absurd hcalls (hfirst which later)

end Told

/-! What is run beside the row or after its statement -/

section Operations

variable {outcome : Except Failure (List Result)} {operation : Action Rows (List Result)}

lemma keeps_updateTarget {data : Data}
    (hrun : (RelatedRow.updateTarget ⟨sides, primary⟩ data).run.Reaches calls (.done outcome))
    (htells : Tells sides (.update data) calls result) : result ∈ toldBy id outcome := by
  have htells := htells.of_emptying (.inr rfl)
  obtain ⟨failure, rfl, rfl⟩ | ⟨_ | target, later, rfl, hlater⟩ :=
    (makesCall_selectField _ _ _).of_bind hrun
  · obtain htold | ⟨-, _, _, hcontra⟩ := htells
    · simpa [told, toldBy] using htold
    · cases hcontra
  · obtain ⟨rfl, hdone⟩ := Program.done_reaches_iff.mp hlater
    cases hdone
    obtain htold | ⟨rfl, -⟩ := htells
    · simp [told, toldBy] at htold
    · exact List.mem_singleton_self _
  · rw [makesCall_update _ _ _ _ _ hlater] at htells
    obtain htold | ⟨-, _, _, hcontra⟩ := htells
    · simpa [told, toldBy] using htold
    · cases hcontra

lemma keeps_delete {entity : Entity} {which : UniqueWhere}
    (hrun : (Rows.delete entity which).run.Reaches calls (.done outcome))
    (htells : Tells sides .delete calls result) : result ∈ toldBy id outcome := by
  rw [makesCall_delete _ _ _ _ hrun] at htells
  obtain htold | ⟨-, _, _, hcontra⟩ := htells.of_emptying (.inl rfl)
  · simpa [told] using htold
  · cases hcontra

/-- Without a call nothing is told. -/
lemma not_tells_nil : ¬ Tells sides input [] result := by
  intro h
  cases h with
  | reported hresult => cases hresult
  | missing _ hcalls => cases hcalls
  | empty _ hcalls => cases hcalls

/-- What is told of a related row is among the results of an operation under a path. -/
lemma keeps_underPath {path : Path}
    (hrun : (underPath path operation).run.Reaches calls (.done outcome))
    (hkeeps : ∀ own, operation.run.Reaches calls (.done own) → result ∈ toldBy id own) :
    result.under path ∈ toldBy id outcome := by
  rw [run_underPath] at hrun
  obtain ⟨own, hown, rfl⟩ := Program.map_reaches_done_iff.mp hrun
  exact mem_toldBy_outcomeUnder (hkeeps own hown)

lemma keeps_owningStep (hstep : RelatedRow.owningStep ⟨sides, primary⟩ input = .run operation)
    (hrun : operation.run.Reaches calls (.done outcome))
    (htells : Tells sides input calls result) :
    result.under sides.path ∈ toldBy id outcome := by
  have hrefused {results : List Result}
      (hrun : (underPath sides.path (pure results)).run.Reaches calls (.done outcome)) :
      result.under sides.path ∈ toldBy id outcome := by
    refine keeps_underPath hrun fun own hown => ?_
    rw [(Program.done_reaches_iff.mp hown).1] at htells
    exact absurd htells not_tells_nil
  cases input with
  | connect which => cases hstep
  | create data => cases hstep
  | update data =>
    cases hstep
    exact keeps_underPath hrun fun own hown => keeps_updateTarget hown htells
  | upsert create update => cases hstep
  | delete =>
    rw [RelatedRow.owningStep] at hstep
    split at hstep
    · cases hstep
    · cases hstep
      exact hrefused hrun
  | disconnect =>
    rw [RelatedRow.owningStep] at hstep
    split at hstep
    · cases hstep
    · cases hstep
      exact hrefused hrun

end Operations

end Inputs

end EntityGraph.Mutation
