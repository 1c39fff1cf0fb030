import EntityGraph.Proofs.Mutation.Belonging
import EntityGraph.Proofs.Mutation.Expense
import EntityGraph.Proofs.Mutation.ResultPaths
/-!
# The end of nested writes

Writes of rows ask for writes of further rows. The data that a write adds to what was given are
settled within two levels, so as long as nothing is removed the weight of the data bounds how deep
the write nests and how many statements it sends, on any schema that was built.
-/
namespace EntityGraph.Mutation

variable {α β : Type}

/-! ### Inputs of a row -/

/-- Each entry of some data splits its weight between what is resolved for the row and what is run
beside it; so does the data. -/
lemma exists_budgets {δ : Type} {rows : RowAnswers} {fields : List (String × FieldInput)}
    {resolved : String × FieldInput → List (Action Rows α)}
    {beside : δ → String × FieldInput → List (Action Rows β)}
    (h : ∀ entry ∈ fields, ∃ first second, first + second ≤ entry.2.weight ∧
      SpendsInTurn rows (resolved entry) first ∧
      ∀ d, SpendsInTurn rows (beside d entry) second) :
    ∃ first second, first + second ≤ weightOfFields fields ∧
      SpendsInTurn rows (fields.flatMap resolved) first ∧
      ∀ d, SpendsInTurn rows (fields.flatMap (beside d)) second := by
  induction fields with
  | nil => exact ⟨0, 0, Nat.zero_le _, .nil, fun _ => .nil⟩
  | cons entry rest ih =>
    obtain ⟨hentry, hrest⟩ := List.forall_mem_cons.mp h
    obtain ⟨first, second, hsum, hfirst, hsecond⟩ := hentry
    obtain ⟨firsts, seconds, hsums, hfirsts, hseconds⟩ := ih hrest
    obtain ⟨field, input⟩ := entry
    refine ⟨first + firsts, second + seconds, ?_, hfirst.append hfirsts,
      fun d => (hsecond d).append (hseconds d)⟩
    rw [weightOfFields]
    dsimp only at hsum
    omega

lemma weight_le_of_mem {fields : List (String × FieldInput)} {entry : String × FieldInput}
    (h : entry ∈ fields) : entry.2.weight ≤ weightOfFields fields := by
  induction fields with
  | nil => cases h
  | cons first rest ih =>
    obtain ⟨field, input⟩ := first
    rw [weightOfFields]
    obtain rfl | hmem := List.mem_cons.mp h
    · exact Nat.le_add_right _ _
    · exact (ih hmem).trans (Nat.le_add_left _ _)

namespace Affords

variable {schema : Schema} {rows : RowAnswers} {limit : Nat} {entity : Entity} {data : Data}

section Entries

variable (h : Affords schema rows limit) (hs : schema.WellFormed) (hentity : schema.Declares entity)
  (hdata : data.RemovesNothing schema entity) (hlimit : weightOfFields data.fields ≤ limit)
include h hs hentity hdata hlimit

/-- An input for one target of a new row is resolved before the row where the row stores the link,
and waits for the key of the row otherwise. -/
lemma exists_budgets_of_create_one {field : String} {input : ToOneInput}
    (hentry : (field, .one input) ∈ data.fields) :
    ∃ first second, first + second ≤ input.weight ∧
      SpendsInTurn rows (createEntries schema entity (field, .one input)).deferred first ∧
      ∀ primary, SpendsInTurn rows ((createPending schema entity (field, .one input)).flatMap
        (pendingOperations primary)) second := by
  have hweight : input.weight ≤ limit := (weight_le_of_mem hentry).trans hlimit
  cases hsides : RelationSides.ofField schema entity field with
  | error failure =>
    refine ⟨0, 0, Nat.zero_le _, ?_, fun _ => ?_⟩
    · simp only [createEntries, hsides, FieldValues.deferred]
      exact .nil
    · simp only [createPending, hsides, List.flatMap_nil]
      exact .nil
  | ok sides =>
    have hretains := hdata.one hentry hsides
    obtain ⟨htyped, hown⟩ := RelationSides.typed_of_ofField hs hentity hsides
    cases hjoining : sides.kind.hasJoiningColumn with
    | true =>
      refine ⟨input.weight, 0, le_rfl, ?_, fun _ => ?_⟩
      · obtain hnil | ⟨_, _, _, resolve, heq, hsame, -, hjoins, -, hentries⟩ :=
          deferred_createEntries schema entity (field, .one input)
        · rw [hnil]
          exact .nil
        · cases heq
          cases hsides.symm.trans hsame
          rw [hentries]
          exact .singleton
            (h.spends_joins hjoins htyped hown hjoining hretains hweight).resolvingUnder
      · simp only [createPending, hsides, hjoining, if_true, List.flatMap_nil]
        exact .nil
    | false =>
      refine ⟨0, input.weight, (Nat.zero_add _).le, ?_, fun primary => ?_⟩
      · simp only [createEntries, hsides, hjoining, Bool.false_eq_true, if_false,
          FieldValues.deferred]
        exact .nil
      · simp only [createPending, hsides, hjoining, Bool.false_eq_true, if_false,
          List.flatMap_cons, List.flatMap_nil, List.append_nil, pendingOperations]
        cases hoperation : RelatedRow.createToOne ⟨sides, primary⟩ input with
        | error failure => exact .nil
        | ok operation =>
          exact .singleton (h.spends_createToOne htyped hretains hweight hoperation)

/-- An input of a new row is resolved before the row, or waits for its key. -/
lemma exists_budgets_of_create {entry : String × FieldInput} (hentry : entry ∈ data.fields) :
    ∃ first second, first + second ≤ entry.2.weight ∧
      SpendsInTurn rows (createEntries schema entity entry).deferred first ∧
      ∀ primary, SpendsInTurn rows
        ((createPending schema entity entry).flatMap (pendingOperations primary)) second := by
  obtain ⟨field, value | input | items⟩ := entry
  · exact ⟨0, 0, Nat.zero_le _, .nil, fun _ => .nil⟩
  · exact h.exists_budgets_of_create_one hs hentity hdata hlimit hentry
  · have hweight := (weight_le_of_mem hentry).trans hlimit
    rw [FieldInput.weight] at hweight ⊢
    refine ⟨0, weightOfItems items, (Nat.zero_add _).le, .nil, fun primary => ?_⟩
    cases hsides : RelationSides.ofField schema entity field with
    | error failure =>
      simp only [createPending, hsides, List.flatMap_nil]
      exact .nil
    | ok sides =>
      obtain ⟨htyped, -⟩ := RelationSides.typed_of_ofField hs hentity hsides
      simp only [createPending, hsides, List.flatMap_cons, List.flatMap_nil, List.append_nil,
        pendingOperations]
      cases hoperations : RelatedRow.createToMany ⟨sides, primary⟩ items with
      | error failure => exact .nil
      | ok operations =>
        rw [RelatedRow.createToMany] at hoperations
        split at hoperations
        · cases hoperations
        · exact h.spends_toManyFrom ⟨sides, primary⟩ hs htyped
            (fun item hitem => hdata.item hentry hsides hitem) hweight hoperations

/-- An input for one target of an existing row asks for a column, which is resolved before the row,
or for an operation, which is run beside it. -/
lemma exists_budgets_of_update_one (primary : Value) {field : String} {input : ToOneInput}
    (hentry : (field, .one input) ∈ data.fields) :
    ∃ first second, first + second ≤ input.weight ∧
      SpendsInTurn rows (updateEntries schema entity primary (field, .one input)).deferred first ∧
      SpendsInTurn rows (updateOperations schema entity primary (field, .one input)) second := by
  have hweight : input.weight ≤ limit := (weight_le_of_mem hentry).trans hlimit
  cases hasked : stepOf schema entity primary field input with
  | error failure =>
    refine ⟨0, 0, Nat.zero_le _, ?_, ?_⟩
    · simp only [updateEntries, hasked, FieldValues.deferred]
      exact .nil
    · simp only [updateOperations, hasked]
      exact .nil
  | ok step =>
    obtain ⟨sides, hsides, hstep⟩ := Except.bind_eq_ok.mp hasked
    have hretains := hdata.one hentry hsides
    obtain ⟨htyped, hown⟩ := RelationSides.typed_of_ofField hs hentity hsides
    cases step with
    | run operation =>
      refine ⟨0, input.weight, (Nat.zero_add _).le, ?_, ?_⟩
      · simp only [updateEntries, hasked, FieldValues.deferred]
        exact .nil
      · simp only [updateOperations, hasked]
        exact .singleton (h.spends_toOneStep_run hs htyped hretains hweight hstep)
    | column value =>
      refine ⟨input.weight, 0, le_rfl, ?_, ?_⟩
      · obtain hnil | ⟨_, _, _, resolve, heq, hsame, hjoining, hjoins, -, hentries⟩ :=
          deferred_updateEntries schema entity primary (field, .one input)
        · rw [hnil]
          exact .nil
        · cases heq
          cases hsides.symm.trans hsame
          rw [hentries]
          exact .singleton
            (h.spends_joins hjoins htyped hown hjoining hretains hweight).resolvingUnder
      · simp only [updateOperations, hasked]
        exact .nil

/-- An input of an existing row is resolved before the row, or run beside it. -/
lemma exists_budgets_of_update (primary : Value) {entry : String × FieldInput}
    (hentry : entry ∈ data.fields) :
    ∃ first second, first + second ≤ entry.2.weight ∧
      SpendsInTurn rows (updateEntries schema entity primary entry).deferred first ∧
      ∀ _ : Unit, SpendsInTurn rows (updateOperations schema entity primary entry) second := by
  obtain ⟨field, value | input | items⟩ := entry
  · exact ⟨0, 0, Nat.zero_le _, .nil, fun _ => .nil⟩
  · obtain ⟨first, second, hsum, hfirst, hsecond⟩ :=
      h.exists_budgets_of_update_one hs hentity hdata hlimit primary hentry
    exact ⟨first, second, hsum, hfirst, fun _ => hsecond⟩
  · have hweight := (weight_le_of_mem hentry).trans hlimit
    rw [FieldInput.weight] at hweight ⊢
    refine ⟨0, weightOfItems items, (Nat.zero_add _).le, .nil, fun _ => ?_⟩
    cases hsides : RelationSides.ofField schema entity field with
    | error failure =>
      simp only [updateOperations, hsides]
      exact .nil
    | ok sides =>
      obtain ⟨htyped, -⟩ := RelationSides.typed_of_ofField hs hentity hsides
      simp only [updateOperations, hsides]
      cases hoperations : RelatedRow.toManyOperations ⟨sides, primary⟩ items with
      | error failure => exact .nil
      | ok operations =>
        exact h.spends_toManyFrom ⟨sides, primary⟩ hs htyped
          (fun item hitem => hdata.item hentry hsides hitem) hweight hoperations

end Entries

end Affords

/-! ### Writes of a row -/

namespace Session

variable {session : Session} {rows : RowAnswers} {entity : Entity} {data : Data} {limit : Nat}

lemma spends_opening : Spends (session.opening entity data) 0 :=
  .liftExcept_bind fun _ _ => (spends_withKey _).bind_free fun _ _ _ => .pure _

lemma spends_planning (primary : Value) : Spends (session.planning entity primary data) 0 :=
  .liftExcept_bind fun _ _ => (session.spends_permitted _ _ _).bind_free fun _ _ _ => .pure _

section Statement

variable {values : FieldValues Rows} {budget : Nat}
  (hvalues : SpendsInTurn rows values.deferred budget)
  (hafter : ∀ trace row, (answered rows values.resolve).run.Reaches trace (.done (.ok row)) →
    row.after = [])
include hvalues hafter

/-- The values of a row are resolved, and its statement is sent; nothing is left for after it. -/
lemma spends_insertValues : Spends (session.insertValues rows entity values) (budget + 1) := by
  refine Spends.bind hvalues.resolve fun trace row hrow => .liftExcept_bind fun columns _ => ?_
  refine (session.spends_query _).bind_free fun _ set _ => ?_
  exact Spends.bind_free (spendsOn_finish (hafter trace row hrow)) fun _ _ _ => .pure _

lemma spends_updateValues (tree : Sql.ConditionTree) :
    Spends (session.updateValues rows entity values tree) (budget + 1) := by
  rw [updateValues_eq]
  have hupdating : Spends (updating rows entity values tree) budget :=
    Spends.bind_free hvalues.resolve fun _ row _ => .liftExcept_bind fun columns _ => .pure _
  refine hupdating.bind fun trace prepared hprepared => ?_
  obtain ⟨row, statement⟩ := prepared
  have hfinish : SpendsOn rows row.finish 0 :=
    spendsOn_finish (hafter _ _ (preparing_reaches_ok hprepared).1)
  by_cases hset : statement.values = []
  · rw [writing_eq_of_nil hset]
    exact Spends.free_bind hfinish fun _ _ _ => .pure _
  · rw [writing_eq_of_ne_nil hset]
    exact (session.spends_execute _).bind_free fun _ _ _ =>
      Spends.bind_free hfinish fun _ _ _ => .pure _

end Statement

/-- An update is paid for by what its inputs need for every key that the row may turn out to have,
beside the look-up and the statement of the row. -/
lemma spends_updateRow_of {budget : Nat}
    (hdelete : ∀ field input, (field, .one input) ∈ data.fields → input.operation ≠ .delete)
    (hbudgets : ∀ primary, ∃ first second, first + second ≤ budget ∧
      SpendsInTurn rows (data.fields.flatMap fun entry =>
        (updateEntries session.schema entity primary entry).deferred) first ∧
      SpendsInTurn rows (data.fields.flatMap (updateOperations session.schema entity primary))
        second) (which : UniqueWhere) :
    Spends (session.updateRow rows entity which data) (2 + budget) := by
  have hfound (primary : Value) :
      Spends (session.updateFound rows entity primary data) (1 + budget) := by
    obtain ⟨first, second, hsum, hfirst, hsecond⟩ := hbudgets primary
    rw [updateFound_eq]
    refine (spends_planning primary).free_bind fun planned plan hplanned => ?_
    obtain ⟨values, operations, tree⟩ := plan
    have hvalues : SpendsInTurn rows values.deferred first := by
      rw [deferred_of_planning hplanned]
      exact hfirst
    have hbeside : SpendsInTurn rows operations second := by
      rw [(planning_reaches_ok hplanned).2]
      exact hsecond
    have hafter (trace : List (Program.Exchange Effect)) (row : RowValues Rows)
        (hrow : (answered rows values.resolve).run.Reaches trace (.done (.ok row))) :
        row.after = [] := by
      refine after_eq_nil (fun resolve hresolve => ?_) hrow
      rw [deferred_of_planning hplanned] at hresolve
      obtain ⟨entry, hentry, hresolve⟩ := List.mem_flatMap.mp hresolve
      obtain hnil | ⟨field, input, sides, inner, rfl, -, -, hjoins, -, hentries⟩ :=
        deferred_updateEntries session.schema entity primary entry
      · rw [hnil] at hresolve
        cases hresolve
      · rw [hentries] at hresolve
        obtain rfl := List.mem_singleton.mp hresolve
        exact after_of_resolvingUnder (hjoins.after_eq_none (hdelete field input hentry))
    have hown : Spends (attempt (session.updateValues rows entity values tree)) (first + 1) :=
      (spends_updateValues hvalues hafter tree).attempt
    have hrelated : Spends (attempt (answered rows (collectAll operations))) second :=
      Spends.attempt hbeside.collectAll
    exact .bind_le (first + 1) second hown
      (fun _ own _ => hrelated.bind_free fun _ related _ => .liftExcept _) (by omega)
  cases hfilter : which.expand entity with
  | error e =>
    rw [updateRow, hfilter]
    exact .liftExcept _
  | ok filter =>
    rw [session.updateRow_eq rows entity hfilter]
    refine .bind_le 1 (1 + budget) (session.spends_selectField which entity.primary)
      (fun _ found _ => ?_) (by omega)
    cases found with
    | none => exact .pure _
    | some primary =>
      dsimp only
      split
      · exact .pure _
      · exact hfound primary

section Given

variable (h : Affords session.schema rows limit) (hs : session.schema.WellFormed)
  (hentity : session.schema.Declares entity)
  (hdata : data.RemovesNothing session.schema entity)
  (hlimit : weightOfFields data.fields ≤ limit)
include h hs hentity hdata hlimit

/-- An insertion stays within the weight of its data. -/
lemma spends_insertRow : Spends (session.insertRow rows entity data) data.weight := by
  obtain ⟨first, second, hsum, hfirst, hsecond⟩ :=
    exists_budgets fun entry hentry => h.exists_budgets_of_create hs hentity hdata hlimit hentry
  rw [insertRow_eq]
  refine spends_opening.free_bind fun opened plan hopened => ?_
  obtain ⟨values, pending⟩ := plan
  have hvalues : SpendsInTurn rows values.deferred first := by
    rw [deferred_of_opening hopened]
    exact hfirst
  have hinsert : Spends (attempt (session.insertValues rows entity values)) (first + 1) :=
    (spends_insertValues hvalues fun _ _ hrow => after_of_insertion hopened hrow).attempt
  rw [Data.weight_eq]
  refine .bind_le (first + 1) second hinsert (fun _ outcome _ => ?_) (by omega)
  obtain failure | ⟨_ | primary, values, results⟩ := outcome
  · exact .liftExcept _
  · exact .pure _
  · refine .liftExcept_bind fun operations hoperations => ?_
    have hrun : SpendsInTurn rows operations second := by
      rw [afterInsert_eq_ok hoperations, (opening_reaches_ok hopened).1, List.flatMap_assoc]
      exact hsecond primary
    exact Spends.bind_free hrun.collectAll fun _ _ _ => .pure _

/-- An update stays within the weight of its data. -/
lemma spends_updateRow (which : UniqueWhere) :
    Spends (session.updateRow rows entity which data) data.weight := by
  rw [Data.weight_eq]
  refine spends_updateRow_of (fun _ _ => hdata.operation_ne_delete) (fun primary => ?_) which
  obtain ⟨first, second, hsum, hfirst, hsecond⟩ := exists_budgets fun entry hentry =>
    h.exists_budgets_of_update hs hentity hdata hlimit primary hentry
  exact ⟨first, second, hsum, hfirst, hsecond ()⟩

end Given

section Added

variable {field : String} {sides : RelationSides}
  (hsides : RelationSides.ofField session.schema entity field = .ok sides)
include hsides

/-- A row lets go of its target: nothing is asked for beside its own statement. -/
lemma spends_clear (hjoining : sides.kind.hasJoiningColumn = true) (which : UniqueWhere) :
    Spends (session.updateRow rows entity which (disconnecting field)) 2 := by
  have hfields : (disconnecting field).fields = [(field, .one .disconnect)] := rfl
  refine spends_updateRow_of (fun name input hmem => ?_) (fun primary => ⟨0, 0, le_rfl, ?_⟩) which
  · rw [hfields] at hmem
    cases List.mem_singleton.mp hmem
    exact fun hdelete => nomatch hdelete
  · rw [hfields]
    simp only [List.flatMap_singleton, updateEntries, updateOperations,
      stepOf_eq_owningStep primary hsides hjoining, RelatedRow.owningStep]
    cases sides.relation.isNullable with
    | true => exact ⟨.nil, .nil⟩
    | false => exact ⟨.nil, .singleton (SpendsOn.underPath (.pure _))⟩

/-- A row connects to a target of its one-to-one relation, which another row may have to let go. -/
lemma spends_claim (h : Affords session.schema rows limit) (hs : session.schema.WellFormed)
    (hentity : session.schema.Declares entity) (hlimit : 1 ≤ limit)
    (hkind : sides.kind = .oneHasOneOwning) (which target : UniqueWhere) :
    Spends (session.updateRow rows entity which (Data.empty.withOne field (.connect target)))
      6 := by
  have hfields : (Data.empty.withOne field (.connect target)).fields =
      [(field, .one (.connect target))] := rfl
  have hjoining : sides.kind.hasJoiningColumn = true := by
    rw [hkind]
    rfl
  refine spends_updateRow_of (fun name input hmem => ?_) (fun primary => ⟨4, 0, le_rfl, ?_⟩) which
  · rw [hfields] at hmem
    cases List.mem_singleton.mp hmem
    exact fun hdelete => nomatch hdelete
  · obtain ⟨-, hown⟩ := RelationSides.typed_of_ofField hs hentity hsides
    rw [hfields]
    simp only [List.flatMap_singleton, updateEntries, updateOperations,
      stepOf_eq_owningStep primary hsides hjoining, RelatedRow.owningStep, connectOwning_eq]
    exact ⟨.singleton (h.spends_claimTarget hlimit target hown hjoining).resolvingUnder, .nil⟩

end Added

/-- Operations that nest to a bounded depth are answered within the weights of their data. -/
theorem affords_rows (session : Session) (hs : session.schema.WellFormed) (depth : Nat) :
    Affords session.schema (session.rows depth) depth := by
  induction depth with
  | zero =>
    have hweight (data : Data) : ¬ data.weight ≤ 0 := by
      rw [Data.weight_eq]
      omega
    exact {
      selectField := fun hlimit => absurd hlimit (by decide)
      primaryValue := fun hlimit => absurd hlimit (by decide)
      connect := fun hlimit => absurd hlimit (by decide)
      disconnect := fun hlimit => absurd hlimit (by decide)
      insert := fun _ _ hlimit => absurd hlimit (hweight _)
      update := fun _ _ _ hlimit => absurd hlimit (hweight _)
      clear := fun hlimit => absurd hlimit (by decide)
      claim := fun hlimit => absurd hlimit (by decide) }
  | succ depth ih =>
    have hfields {data : Data} (hlimit : data.weight ≤ depth + 1) :
        weightOfFields data.fields ≤ depth := by
      rw [Data.weight_eq] at hlimit
      omega
    exact {
      selectField := fun _ _ which field =>
        costsAtMost_call_iff.mpr (session.spends_selectField which field)
      primaryValue := fun _ _ which => costsAtMost_call_iff.mpr (session.spends_selectField which _)
      connect := fun _ _ relation _ _ =>
        costsAtMost_call_iff.mpr (session.spends_connect relation _ _)
      disconnect := fun _ _ relation _ _ =>
        costsAtMost_call_iff.mpr (session.spends_disconnect relation _ _)
      insert := fun hentity hdata hlimit =>
        costsAtMost_call_iff.mpr (spends_insertRow ih hs hentity hdata (hfields hlimit))
      update := fun which hentity hdata hlimit =>
        costsAtMost_call_iff.mpr (spends_updateRow ih hs hentity hdata (hfields hlimit) which)
      clear := fun _ _ _ _ which hsides hjoining =>
        costsAtMost_call_iff.mpr (spends_clear hsides hjoining which)
      claim := fun hlimit _ _ _ which target hentity hsides hkind =>
        costsAtMost_call_iff.mpr
          (spends_claim hsides ih hs hentity (Nat.le_of_succ_le_succ hlimit) hkind which target) }

/-- Nested writes come to an end. As long as the data removes nothing, the weight of the data is
deep enough for the nesting of the write, whatever the database and the access rules answer: where
every question is answered, the write comes to its results, and on no run, complete or not, does it
send more statements than the data weigh. -/
theorem nested_writes_end (session : Session) (hs : session.schema.WellFormed) {entity : Entity}
    (hentity : session.schema.Declares entity) {data : Data} (hdeletes : ¬ data.Deletes)
    (horphans : ¬ data.TouchesOrphans session.schema entity) {request : RowRequest}
    (hrequest : request.Writes entity data) {depth : Nat} (hdepth : data.weight ≤ depth) :
    (∀ {σ : Type} (answer : (request : Effect.Request) → σ → Option (Effect.Reply request × σ)),
      (∀ asked state, asked ≠ .overrun → (answer asked state).isSome = true) → ∀ state,
        ∃ trace outcome,
          (session.rows depth request).trace? answer state = some (trace, outcome)) ∧
    ∀ trace last, (session.rows depth request).Reaches trace last →
      (statements trace).length ≤ data.weight := by
  have hdata : data.RemovesNothing session.schema entity := ⟨hdeletes, horphans⟩
  have hafford := session.affords_rows hs depth
  have hcost : (session.rows depth request).CostsAtMost EffectRequest.price data.weight := by
    cases hrequest with
    | insert => exact costsAtMost_call_iff.mp (hafford.insert hentity hdata hdepth)
    | update which => exact costsAtMost_call_iff.mp (hafford.update which hentity hdata hdepth)
  refine ⟨fun answer hanswer state => ?_, fun trace last hrun => ?_⟩
  · refine hcost.exists_trace? (fun asked state hprice => hanswer asked state ?_) state
    rintro rfl
    cases hprice
  · rw [← cost_eq_length_statements]
    exact (hcost.of_reaches hrun).2

/-- A database in which every row that is looked up is the one with the key 7, over and over. -/
def endless : (request : Effect.Request) → Unit → Option (Effect.Reply request × Unit)
  | .query _, _ => some (.ok ⟨["id"], [[.int 7]], none⟩, ())
  | .execute _, _ => some (.ok 1, ())
  | .command _, _ => some (.ok (), ())
  | .predicate .., _ => some (.empty, ())
  | .freshUuid, _ => some (⟨0⟩, ())
  | .overrun, _ => none

/-- An author takes over a profile, for which the profile connects from its side and the one that
claims the author lets go; it ends although every look-up finds a row. -/
theorem nested_writes_end_profile :
    pairedProfiles.WellFormed ∧ pairedProfiles.Declares (.ofSteps "Author" pairedAuthorSteps) ∧
    ¬ connectingProfile.Deletes ∧
    ¬ connectingProfile.TouchesOrphans pairedProfiles (.ofSteps "Author" pairedAuthorSteps) ∧
    ∃ trace outcome,
      (Session.rows ⟨pairedProfiles, .standard⟩ 8 (.update (.ofSteps "Author" pairedAuthorSteps)
        (.single "id" (.int 7)) connectingProfile)).trace? endless () = some (trace, outcome) ∧
      (statements trace).length ≤ 8 := by
  have hschema : pairedProfiles.WellFormed := Schema.wellFormed_of_build
    (show Schema.build [("Author", pairedAuthorSteps), ("Profile", pairedProfileSteps)] =
      .ok pairedProfiles by decide +kernel)
  have hauthor : pairedProfiles.Declares (.ofSteps "Author" pairedAuthorSteps) :=
    show pairedProfiles.entity "Author" = .ok (.ofSteps "Author" pairedAuthorSteps) by
      decide +kernel
  have hdeletes : ¬ connectingProfile.Deletes := by
    intro h
    cases h with
    | here hentry hdelete =>
      cases List.mem_singleton.mp hentry
      cases List.mem_singleton.mp hdelete
    | inside hentry hpart =>
      cases List.mem_singleton.mp hentry
      cases hpart
  have horphans : ¬ connectingProfile.TouchesOrphans pairedProfiles
      (.ofSteps "Author" pairedAuthorSteps) := by
    intro h
    cases h with
    | here hentry hinput hsides horphans =>
      cases List.mem_singleton.mp hentry
      obtain ⟨sides, hlooked, hkeeps⟩ : ∃ sides, RelationSides.ofField pairedProfiles
          (.ofSteps "Author" pairedAuthorSteps) "profile" = .ok sides ∧ ¬ sides.RemovesOrphans := by
        refine ⟨_, rfl, ?_⟩
        rintro (hown | ⟨paired, hpaired, hremoves⟩)
        · cases hown
        · cases hpaired
          cases hremoves
      cases hsides.symm.trans hlooked
      exact hkeeps horphans
    | inside hentry hsides hpart =>
      cases List.mem_singleton.mp hentry
      cases hpart
  have hweight : connectingProfile.weight ≤ 8 := by decide
  obtain ⟨hends, hbound⟩ := nested_writes_end ⟨pairedProfiles, .standard⟩ hschema hauthor hdeletes
    horphans (.update (.single "id" (.int 7))) hweight
  obtain ⟨trace, outcome, htrace⟩ := hends endless (fun asked state hasked => by
    cases asked with
    | overrun => exact absurd rfl hasked
    | _ => rfl) ()
  exact ⟨hschema, hauthor, hdeletes, horphans, trace, outcome, htrace,
    (hbound trace _ (Program.reaches_of_trace? htrace)).trans hweight⟩

end Session

end EntityGraph.Mutation
