import EntityGraph.Proofs.Mutation.Turns
/-!
# What the inputs of a row ask for

A write of a row is planned from its inputs. Here a plan is taken apart into the values and the
operations that each input asks for.
-/
namespace EntityGraph.Mutation

variable {α : Type} {rows : RowAnswers} {trace : List (Program.Exchange Effect)}

/-! ### Plans -/

section Plans

variable (schema : Schema) (entity : Entity) (primary : Value)

/-- The values that an input of a new row asks for. -/
def createEntries : String × FieldInput → FieldValues Rows
  | (field, .value value) => [(field, .value value)]
  | (field, .one input) =>
    match RelationSides.ofField schema entity field with
    | .ok sides =>
      if sides.kind.hasJoiningColumn then
        match createColumn sides input with
        | .ok column => [(field, column)]
        | .error _ => []
      else []
    | .error _ => []
  | (_, .many _) => []

/-- The inputs of a new row that wait for its key. -/
def createPending : String × FieldInput → List Pending
  | (_, .value _) => []
  | (field, .one input) =>
    match RelationSides.ofField schema entity field with
    | .ok sides => if sides.kind.hasJoiningColumn then [] else [.one sides input]
    | .error _ => []
  | (field, .many items) =>
    match RelationSides.ofField schema entity field with
    | .ok sides => [.many sides items]
    | .error _ => []

/-- The operations of an input that waited for the key. -/
def pendingOperations : Pending → List (Action Rows (List Result))
  | .one sides input =>
    match RelatedRow.createToOne ⟨sides, primary⟩ input with
    | .ok operation => [operation]
    | .error _ => []
  | .many sides items =>
    match RelatedRow.createToMany ⟨sides, primary⟩ items with
    | .ok operations => operations
    | .error _ => []

/-- The step that an input on a has-one relation of an existing row asks for. -/
def stepOf (field : String) (input : ToOneInput) : Except Failure InputStep := do
  let sides ← RelationSides.ofField schema entity field
  RelatedRow.toOneStep ⟨sides, primary⟩ input

/-- The values that an input of an existing row asks for. -/
def updateEntries : String × FieldInput → FieldValues Rows
  | (field, .value value) => [(field, .value value)]
  | (field, .one input) =>
    match stepOf schema entity primary field input with
    | .ok (.column column) => [(field, column)]
    | _ => []
  | (_, .many _) => []

/-- The operations that an input asks for beside an existing row. -/
def updateOperations : String × FieldInput → List (Action Rows (List Result))
  | (_, .value _) => []
  | (field, .one input) =>
    match stepOf schema entity primary field input with
    | .ok (.run operation) => [operation]
    | _ => []
  | (field, .many items) =>
    match RelationSides.ofField schema entity field with
    | .ok sides =>
      match RelatedRow.toManyOperations ⟨sides, primary⟩ items with
      | .ok operations => operations
      | .error _ => []
    | .error _ => []

end Plans

variable {schema : Schema} {entity : Entity} {primary : Value}

lemma planInsert_eq_ok {fields : List (String × FieldInput)} {values : FieldValues Rows}
    {pending : List Pending} (h : planInsert schema entity fields = .ok (values, pending)) :
    values = fields.flatMap (createEntries schema entity) ∧
      pending = fields.flatMap (createPending schema entity) := by
  induction fields generalizing values pending with
  | nil =>
    cases h
    exact ⟨rfl, rfl⟩
  | cons entry rest ih =>
    obtain ⟨field, value | input | items⟩ := entry
    · obtain ⟨⟨values, pending⟩, hrest, h⟩ := Except.bind_eq_ok.mp h
      cases h
      obtain ⟨rfl, rfl⟩ := ih hrest
      exact ⟨rfl, rfl⟩
    · obtain ⟨sides, hsides, h⟩ := Except.bind_eq_ok.mp h
      simp only [List.flatMap_cons, createEntries, createPending, hsides]
      split at h
      · rename_i hkind
        obtain ⟨column, hcolumn, h⟩ := Except.bind_eq_ok.mp h
        obtain ⟨⟨values, pending⟩, hrest, h⟩ := Except.bind_eq_ok.mp h
        cases h
        obtain ⟨rfl, rfl⟩ := ih hrest
        rw [if_pos hkind, if_pos hkind, hcolumn]
        exact ⟨rfl, rfl⟩
      · rename_i hkind
        obtain ⟨⟨values, pending⟩, hrest, h⟩ := Except.bind_eq_ok.mp h
        cases h
        obtain ⟨rfl, rfl⟩ := ih hrest
        rw [if_neg hkind, if_neg hkind]
        exact ⟨rfl, rfl⟩
    · obtain ⟨sides, hsides, h⟩ := Except.bind_eq_ok.mp h
      obtain ⟨⟨values, pending⟩, hrest, h⟩ := Except.bind_eq_ok.mp h
      cases h
      obtain ⟨rfl, rfl⟩ := ih hrest
      simp only [List.flatMap_cons, createEntries, createPending, hsides]
      exact ⟨rfl, rfl⟩

lemma afterInsert_eq_ok {pending : List Pending} {operations : List (Action Rows (List Result))}
    (h : afterInsert primary pending = .ok operations) :
    operations = pending.flatMap (pendingOperations primary) := by
  induction pending generalizing operations with
  | nil =>
    cases h
    rfl
  | cons waiting rest ih =>
    cases waiting with
    | one sides input =>
      obtain ⟨operation, hoperation, h⟩ := Except.bind_eq_ok.mp h
      obtain ⟨operations, hrest, h⟩ := Except.bind_eq_ok.mp h
      cases h
      rw [ih hrest, List.flatMap_cons, pendingOperations, hoperation]
      rfl
    | many sides items =>
      obtain ⟨own, hown, h⟩ := Except.bind_eq_ok.mp h
      obtain ⟨operations, hrest, h⟩ := Except.bind_eq_ok.mp h
      cases h
      rw [ih hrest, List.flatMap_cons, pendingOperations, hown]

lemma planUpdate_eq_ok {fields : List (String × FieldInput)} {values : FieldValues Rows}
    {operations : List (Action Rows (List Result))}
    (h : planUpdate schema entity primary fields = .ok (values, operations)) :
    values = fields.flatMap (updateEntries schema entity primary) ∧
      operations = fields.flatMap (updateOperations schema entity primary) := by
  induction fields generalizing values operations with
  | nil =>
    cases h
    exact ⟨rfl, rfl⟩
  | cons entry rest ih =>
    obtain ⟨field, value | input | items⟩ := entry
    · obtain ⟨⟨values, operations⟩, hrest, h⟩ := Except.bind_eq_ok.mp h
      cases h
      obtain ⟨rfl, rfl⟩ := ih hrest
      exact ⟨rfl, rfl⟩
    · obtain ⟨sides, hsides, h⟩ := Except.bind_eq_ok.mp h
      obtain ⟨step, hstep, h⟩ := Except.bind_eq_ok.mp h
      have hof : stepOf schema entity primary field input = .ok step :=
        Except.bind_eq_ok.mpr ⟨sides, hsides, hstep⟩
      simp only [List.flatMap_cons, updateEntries, updateOperations, hof]
      cases step with
      | column column =>
        obtain ⟨⟨values, operations⟩, hrest, h⟩ := Except.bind_eq_ok.mp h
        cases h
        obtain ⟨rfl, rfl⟩ := ih hrest
        exact ⟨rfl, rfl⟩
      | run operation =>
        obtain ⟨⟨values, operations⟩, hrest, h⟩ := Except.bind_eq_ok.mp h
        cases h
        obtain ⟨rfl, rfl⟩ := ih hrest
        exact ⟨rfl, rfl⟩
    · obtain ⟨sides, hsides, h⟩ := Except.bind_eq_ok.mp h
      obtain ⟨own, hown, h⟩ := Except.bind_eq_ok.mp h
      obtain ⟨⟨values, operations⟩, hrest, h⟩ := Except.bind_eq_ok.mp h
      cases h
      obtain ⟨rfl, rfl⟩ := ih hrest
      simp only [List.flatMap_cons, updateEntries, updateOperations, hsides, hown]
      exact ⟨rfl, trivial⟩

/-- What an input asks for stands under its field. -/
lemma fst_of_mem_createEntries {entry : String × FieldInput}
    {value : String × FieldValue Rows} (h : value ∈ createEntries schema entity entry) :
    value.1 = entry.1 := by
  obtain ⟨field, given | input | items⟩ := entry
  · rw [List.mem_singleton.mp h]
  · rw [createEntries] at h
    split at h
    · split at h
      · split at h
        · rw [List.mem_singleton.mp h]
        · cases h
      · cases h
    · cases h
  · cases h

lemma fst_of_mem_updateEntries {entry : String × FieldInput}
    {value : String × FieldValue Rows} (h : value ∈ updateEntries schema entity primary entry) :
    value.1 = entry.1 := by
  obtain ⟨field, given | input | items⟩ := entry
  · rw [List.mem_singleton.mp h]
  · rw [updateEntries] at h
    split at h
    · rw [List.mem_singleton.mp h]
    · cases h
  · cases h

/-! ### Joining columns -/

/-- What a connect resolves on a relation with a joining column. -/
def claimTarget (sides : RelationSides) (which : UniqueWhere) (row : Option Value) :
    Action Rows (Resolved Rows) := do
  match ← Rows.primaryValue sides.target which with
  | none => return .skip (missing which)
  | some target =>
    if sides.kind ≠ .oneHasOneOwning then
      return .ofValue target
    else
      let claim := UniqueWhere.empty.withRelation sides.relation.name
        (byPrimary sides.target target)
      match ← Rows.primaryValue sides.entity claim with
      | none => return .ofValue target
      | some owner =>
        if isRow row owner then
          return .skip []
        else
          let results ← Rows.update sides.entity (byPrimary sides.entity owner)
            (disconnecting sides.relation.name)
          return ⟨some target, results, none⟩

lemma connectOwning_eq (sides : RelationSides) (which : UniqueWhere) (row : Option Value) :
    connectOwning sides which row =
      .deferred (resolvingUnder sides.path (claimTarget sides which row)) :=
  deferUnderPath_eq sides.path (claimTarget sides which row)

/-- What an input resolves for the joining column, of a new row or of the row with that key. -/
inductive Joins (sides : RelationSides) :
    Option Value → ToOneInput → Action Rows (Resolved Rows) → Prop
  | connect (own : Option Value) (which : UniqueWhere) :
      Joins sides own (.connect which) (claimTarget sides which own)
  | create (own : Option Value) (data : Data) :
      Joins sides own (.create data) (insertTarget sides data)
  | upsert (primary : Value) (create update : Data) :
      Joins sides (some primary) (.upsert create update)
        (RelatedRow.upsertTarget ⟨sides, primary⟩ create update)
  | delete (primary : Value) :
      Joins sides (some primary) .delete (RelatedRow.deleteTarget ⟨sides, primary⟩)

section Columns

variable {sides : RelationSides} {input : ToOneInput} {own : Option Value}
  {resolve : Action Rows (Resolved Rows)}

lemma createColumn_eq_ok {column : FieldValue Rows} (h : createColumn sides input = .ok column) :
    ∃ resolve, column = .deferred (resolvingUnder sides.path resolve) ∧
      Joins sides none input resolve := by
  unfold createColumn at h
  split at h
  · cases h
    exact ⟨_, connectOwning_eq _ _ _, .connect _ _⟩
  · cases h
    exact ⟨_, deferUnderPath_eq _ _, .create _ _⟩
  · cases h

/-- Only a relation with a joining column asks for a value of it. -/
lemma toOneStep_eq_column {row : RelatedRow} {column : FieldValue Rows}
    (h : row.toOneStep input = .ok (.column column)) :
    row.sides.kind.hasJoiningColumn = true ∧ row.owningStep input = .column column := by
  rw [RelatedRow.toOneStep] at h
  split at h
  · rename_i hkind
    exact ⟨by rw [hkind]; rfl, Except.ok.inj h⟩
  · rename_i hkind
    exact ⟨by rw [hkind]; rfl, Except.ok.inj h⟩
  · obtain ⟨paired, -, h⟩ := Except.bind_eq_ok.mp h
    cases h
  · cases h

lemma createColumn_connect (which : UniqueWhere) (hkind : sides.kind = .oneHasOneOwning) :
    createColumn sides (.connect which) =
      .ok (.deferred (resolvingUnder sides.path (claimTarget sides which none))) := by
  rw [createColumn, connectOwning_eq]
  rw [hkind]
  rfl

lemma toOneStep_connect (which : UniqueWhere) (primary : Value)
    (hkind : sides.kind = .oneHasOneOwning) :
    RelatedRow.toOneStep ⟨sides, primary⟩ (.connect which) =
      .ok (.column (.deferred (resolvingUnder sides.path
        (claimTarget sides which (some primary))))) := by
  rw [RelatedRow.toOneStep]
  simp only [hkind, RelatedRow.owningStep, connectOwning_eq]

lemma owningStep_of_toOneStep {row : RelatedRow} {step : InputStep}
    (hjoining : row.sides.kind.hasJoiningColumn = true) (h : row.toOneStep input = .ok step) :
    row.owningStep input = step := by
  rw [RelatedRow.toOneStep] at h
  split at h
  · exact Except.ok.inj h
  · exact Except.ok.inj h
  · rename_i hkind
    rw [hkind] at hjoining
    cases hjoining
  · cases h

/-- On a relation with a joining column every input has its step. -/
lemma stepOf_eq_owningStep {field : String} (primary : Value)
    (hsides : RelationSides.ofField schema entity field = .ok sides)
    (hjoining : sides.kind.hasJoiningColumn = true) :
    stepOf schema entity primary field input =
      .ok (RelatedRow.owningStep ⟨sides, primary⟩ input) := by
  refine Except.bind_eq_ok.mpr ⟨sides, hsides, ?_⟩
  cases hkind : sides.kind with
  | manyHasOne | oneHasOneOwning => simp only [RelatedRow.toOneStep, hkind]
  | oneHasMany | oneHasOneInverse | manyHasManyOwning | manyHasManyInverse =>
    rw [hkind] at hjoining
    cases hjoining

lemma owningStep_eq_deferred {row : RelatedRow}
    (h : row.owningStep input = .column (.deferred resolve)) :
    ∃ inner, resolve = resolvingUnder row.sides.path inner ∧
      Joins row.sides (some row.primary) input inner := by
  have hunder (inner : Action Rows (Resolved Rows))
      (heq : InputStep.column (deferUnderPath row.sides.path inner) = .column (.deferred resolve)) :
      resolve = resolvingUnder row.sides.path inner := by
    rw [deferUnderPath_eq] at heq
    cases heq
    rfl
  cases input with
  | connect which => exact ⟨_, hunder (claimTarget _ _ _) h, .connect _ _⟩
  | create data => exact ⟨_, hunder (insertTarget _ _) h, .create _ _⟩
  | update data => cases h
  | upsert create update => exact ⟨_, hunder _ h, .upsert _ _ _⟩
  | delete =>
    rw [RelatedRow.owningStep] at h
    split at h
    · exact ⟨_, hunder _ h, .delete _⟩
    · cases h
  | disconnect =>
    rw [RelatedRow.owningStep] at h
    split at h <;> cases h

/-- An input of a new row has at most one value to resolve. -/
lemma deferred_createEntries (schema : Schema) (entity : Entity) (entry : String × FieldInput) :
    (createEntries schema entity entry).deferred = [] ∨ ∃ field input sides resolve,
      entry = (field, .one input) ∧ RelationSides.ofField schema entity field = .ok sides ∧
      sides.kind.hasJoiningColumn = true ∧ Joins sides none input resolve ∧
      createColumn sides input = .ok (.deferred (resolvingUnder sides.path resolve)) ∧
      createEntries schema entity entry =
        [(field, .deferred (resolvingUnder sides.path resolve))] := by
  obtain ⟨field, value | input | items⟩ := entry
  · exact .inl rfl
  · cases hsides : RelationSides.ofField schema entity field with
    | error failure => exact .inl (by simp only [createEntries, hsides, FieldValues.deferred])
    | ok sides =>
      cases hjoining : sides.kind.hasJoiningColumn with
      | false => exact .inl (by simp [createEntries, hsides, hjoining, FieldValues.deferred])
      | true =>
        cases hcolumn : createColumn sides input with
        | error failure =>
          exact .inl (by simp [createEntries, hsides, hjoining, hcolumn, FieldValues.deferred])
        | ok column =>
          obtain ⟨resolve, rfl, hjoins⟩ := createColumn_eq_ok hcolumn
          refine .inr ⟨field, input, sides, resolve, rfl, hsides, hjoining, hjoins, hcolumn, ?_⟩
          simp [createEntries, hsides, hjoining, hcolumn]
  · exact .inl rfl

/-- An input of an existing row has at most one value to resolve. -/
lemma deferred_updateEntries (schema : Schema) (entity : Entity) (primary : Value)
    (entry : String × FieldInput) :
    (updateEntries schema entity primary entry).deferred = [] ∨ ∃ field input sides resolve,
      entry = (field, .one input) ∧ RelationSides.ofField schema entity field = .ok sides ∧
      sides.kind.hasJoiningColumn = true ∧ Joins sides (some primary) input resolve ∧
      stepOf schema entity primary field input =
        .ok (.column (.deferred (resolvingUnder sides.path resolve))) ∧
      updateEntries schema entity primary entry =
        [(field, .deferred (resolvingUnder sides.path resolve))] := by
  obtain ⟨field, value | input | items⟩ := entry
  · exact .inl rfl
  · cases hstep : stepOf schema entity primary field input with
    | error failure => exact .inl (by simp only [updateEntries, hstep, FieldValues.deferred])
    | ok step =>
      obtain operation | value | column := step
      · exact .inl (by simp only [updateEntries, hstep, FieldValues.deferred])
      · exact .inl (by simp only [updateEntries, hstep, FieldValues.deferred])
      · obtain ⟨sides, hsides, hrow⟩ := Except.bind_eq_ok.mp hstep
        obtain ⟨hjoining, hown⟩ := toOneStep_eq_column hrow
        obtain ⟨resolve, rfl, hjoins⟩ := owningStep_eq_deferred hown
        refine .inr ⟨field, input, sides, resolve, rfl, hsides, hjoining, hjoins, hstep, ?_⟩
        simp only [updateEntries, hstep]
  · exact .inl rfl

/-- Only a deletion leaves something for after the statement of the row. -/
lemma Joins.after_eq_none (h : Joins sides own input resolve)
    (hdelete : input.operation ≠ .delete) :
    Returns .any (fun resolved => resolved.after = none) (fun _ => True) resolve := by
  cases h with
  | connect own which =>
    refine (Returns.trivial _).bind fun found _ => ?_
    cases found with
    | none => exact .pure rfl
    | some target =>
      refine .ite (fun _ => .pure rfl) fun _ => (Returns.trivial _).bind fun claimed _ => ?_
      cases claimed with
      | none => exact .pure rfl
      | some owner =>
        exact .ite (fun _ => .pure rfl) fun _ => (Returns.trivial _).bind fun _ _ => .pure rfl
  | create own data => exact (Returns.trivial _).bind fun _ _ => .pure rfl
  | upsert primary create update =>
    refine (Returns.trivial _).bind fun found _ => ?_
    cases found with
    | none => exact (Returns.trivial _).bind fun _ _ => .pure rfl
    | some target => exact (Returns.trivial _).bind fun _ _ => .pure rfl
  | delete primary => exact absurd rfl hdelete

lemma after_of_resolvingUnder {path : Path}
    (h : Returns .any (fun resolved => resolved.after = none) (fun _ => True) resolve) :
    Returns .any (fun resolved => resolved.after = none) (fun _ => True)
      (resolvingUnder path resolve) := by
  refine Program.meets_bind (Program.Meets.mono h fun _ outcome houtcome => ?_)
  cases outcome with
  | ok resolved => exact congrArg (Option.map (underPath path)) houtcome
  | error failure =>
    dsimp only [resolvedUnder, Failure.rescued]
    cases failure.result? with
    | none => trivial
    | some result => exact rfl

/-- A new row has no target to delete. -/
lemma Joins.operation_ne_delete (h : Joins sides none input resolve) :
    input.operation ≠ .delete := by
  cases h <;> exact fun heq => nomatch heq

/-- Something is left for after the statement only where the statement sets the column. -/
def Resolved.Follows {I : Interface} (resolved : Resolved I) : Prop :=
  resolved.after ≠ none → resolved.value ≠ none

lemma Joins.follows (h : Joins sides own input resolve) :
    Returns .any Resolved.Follows (fun _ => True) resolve := by
  by_cases hdelete : input.operation = .delete
  · cases h with
    | delete primary =>
      refine (Returns.trivial _).bind fun found _ => ?_
      cases found with
      | none => exact .pure fun hafter => absurd rfl hafter
      | some target => exact .pure fun _ => Option.some_ne_none _
    | connect => cases hdelete
    | create => cases hdelete
    | upsert => cases hdelete
  · exact (h.after_eq_none hdelete).mono (fun _ hnone hafter => absurd hnone hafter) fun _ => id

lemma Resolved.Follows.under {I : Interface} {path : Path} {resolved : Resolved I}
    (h : resolved.Follows) : (resolved.under path).Follows := by
  intro hafter
  refine h fun hnone => hafter ?_
  rw [Resolved.under, hnone]
  rfl

lemma follows_resolvingUnder {path : Path}
    (h : Returns .any Resolved.Follows (fun _ => True) resolve) :
    Returns .any Resolved.Follows (fun _ => True) (resolvingUnder path resolve) := by
  refine Program.meets_bind (Program.Meets.mono h fun _ outcome houtcome => ?_)
  cases outcome with
  | ok resolved => exact houtcome.under
  | error failure =>
    dsimp only [resolvedUnder, Failure.rescued]
    cases failure.result? with
    | none => trivial
    | some result => exact fun hafter => absurd rfl hafter

end Columns

/-- Whatever the values of an existing row leave for after the statement, the statement sets the
columns of it. -/
lemma follows_of_mem_updateEntries {fields : List (String × FieldInput)}
    {resolve : Action Rows (Resolved Rows)}
    (h : resolve ∈ fields.flatMap fun entry =>
      (updateEntries schema entity primary entry).deferred) :
    Returns .any Resolved.Follows (fun _ => True) resolve := by
  obtain ⟨entry, -, hresolve⟩ := List.mem_flatMap.mp h
  obtain hnil | ⟨field, input, sides, inner, rfl, -, -, hjoins, -, hentries⟩ :=
    deferred_updateEntries schema entity primary entry
  · rw [hnil] at hresolve
    cases hresolve
  · rw [hentries] at hresolve
    obtain rfl := List.mem_singleton.mp hresolve
    exact follows_resolvingUnder hjoins.follows

/-- Only an empty row has no columns. -/
lemma columnValues_eq_nil {values : Table Value} (h : columnValues entity values = .ok []) :
    values = [] := by
  cases values with
  | nil => rfl
  | cons pair rest =>
    obtain ⟨column, -, h⟩ := Except.bind_eq_ok.mp h
    obtain ⟨columns, -, h⟩ := Except.bind_eq_ok.mp h
    cases h

end EntityGraph.Mutation
