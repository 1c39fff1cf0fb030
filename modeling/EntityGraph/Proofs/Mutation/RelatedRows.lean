import EntityGraph.Mutation.RowWriter
import EntityGraph.Proofs.Mutation.Collecting
/-!
# Operations on related rows

What the inputs of relations ask for concerns rows of the entities that are known, and accounts for
every statement that is sent on the way.
-/
namespace EntityGraph

variable {schema : Schema} {known : Entity → Prop}

lemma Entity.mem_relations_of_relation {entity : Entity} {field : String} {relation : Relation}
    (h : entity.relation field = .ok relation) : relation ∈ entity.relations :=
  List.mem_filterMap.mpr ⟨_, Table.mem_of_find? (relation_eq_ok.mp h), rfl⟩

lemma Except.eq_ok_of_mapError {ε ε' α : Type} {f : ε → ε'} {outcome : Except ε α} {a : α}
    (h : outcome.mapError f = .ok a) : outcome = .ok a := by
  cases outcome with
  | ok b => exact congrArg Except.ok (Except.ok.inj h)
  | error e => cases h

namespace Mutation

/-- The operation is on a known entity, or on the junction table of one. -/
def RowRequest.Within (known : Entity → Prop) : RowRequest → Prop
  | insert entity _ => known entity
  | update entity .. => known entity
  | delete entity _ => known entity
  | selectField entity .. => known entity
  | primaryValue entity _ => known entity
  | connect owner relation .. => known owner ∧ relation ∈ owner.relations
  | disconnect owner relation .. => known owner ∧ relation ∈ owner.relations

/-- The only statement was a selection. -/
def Log.IsLookup (log : Log) : Prop := ∃ sent reply, log = [⟨.query (.select sent), reply⟩]

/-- What the operation fails with is fatal, unless its look-up failed with it. -/
def SettledButLookup {α : Type} (log : Log) (result : Except Failure α) : Prop :=
  ∀ failure, result = .error failure → failure.outcome? = none ∨ log.IsLookup

/-- How an operation accounts for its log. An update that misses its row does nothing else. -/
def RowRequest.Answers : (request : RowRequest) → Log → request.Reply → Prop
  | insert .., log, reply => Reports ∅ violations log reply ∧ SettledButLookup log reply
  | update .., log, reply => Reports ∅ violations log reply ∧ SettledButLookup log reply ∧
      ∀ results, reply = .ok results → foundRow? results = none → violations results = ∅
  | delete .., log, reply => Reports ∅ violations log reply ∧ SettledButLookup log reply
  | selectField .., log, reply => Reports ∅ (fun _ => ∅) log reply
  | primaryValue .., log, reply => Reports ∅ (fun _ => ∅) log reply
  | connect .., log, reply => Written log reply
  | disconnect .., log, reply => Written log reply

/-- A look-up is a statement. -/
lemma SettledButLookup.settled {α : Type} {log : Log} {result : Except Failure α}
    (h : SettledButLookup log result) (hnil : log = []) : IsSettled result := by
  intro failure hresult
  obtain hnone | ⟨sent, reply, hlog⟩ := h failure hresult
  · exact hnone
  · rw [hnil] at hlog
    cases hlog

def rowContract (known : Entity → Prop) : Contract Rows (Program.Exchange Effect) :=
  ⟨RowRequest.Within known, RowRequest.Answers⟩

namespace Rows

variable {entity owner : Entity} {relation : Relation}

lemma meets_ask {request : RowRequest} {post : Log → request.Reply → Prop}
    (hwithin : request.Within known) (h : ∀ log reply, request.Answers log reply → post log reply) :
    (Program.ask request Program.done : Program Rows request.Reply).Meets (rowContract known)
      post := by
  refine ⟨hwithin, fun log reply hreply => ?_⟩
  show post (log ++ []) reply
  rw [List.append_nil]
  exact h log reply hreply

lemma writes_insert (h : known entity) (data : Data) :
    Writes (rowContract known) (insert entity data) :=
  meets_ask h fun _ _ hreply => ⟨hreply.1, hreply.2.settled⟩

lemma writes_update (h : known entity) (which : UniqueWhere) (data : Data) :
    Writes (rowContract known) (update entity which data) :=
  meets_ask h fun _ _ hreply => ⟨hreply.1, hreply.2.1.settled⟩

lemma ensures_update (h : known entity) (which : UniqueWhere) (data : Data) :
    Ensures (rowContract known) ∅ violations
      (fun results => foundRow? results = none → violations results = ∅) (fun _ => True)
      (update entity which data) :=
  meets_ask h fun _ _ hreply => ⟨hreply.1, hreply.2.2, fun _ _ => trivial⟩

lemma writes_delete (h : known entity) (which : UniqueWhere) :
    Writes (rowContract known) (delete entity which) :=
  meets_ask h fun _ _ hreply => ⟨hreply.1, hreply.2.settled⟩

lemma accounts_selectField (h : known entity) (which : UniqueWhere) (field : String) :
    Accounts (rowContract known) ∅ (fun _ => ∅) (selectField entity which field) :=
  meets_ask h fun _ _ => id

lemma accounts_primaryValue (h : known entity) (which : UniqueWhere) :
    Accounts (rowContract known) ∅ (fun _ => ∅) (primaryValue entity which) :=
  meets_ask h fun _ _ => id

lemma writes_connect (h : known owner) (hrelation : relation ∈ owner.relations)
    (ownerKey inversedKey : Value) :
    Writes (rowContract known) (connect owner relation ownerKey inversedKey) :=
  meets_ask ⟨h, hrelation⟩ fun _ _ => id

lemma writes_disconnect (h : known owner) (hrelation : relation ∈ owner.relations)
    (ownerKey inversedKey : Value) :
    Writes (rowContract known) (disconnect owner relation ownerKey inversedKey) :=
  meets_ask ⟨h, hrelation⟩ fun _ _ => id

end Rows

/-! ### Sides of relations -/

namespace RelationSides

/-- Both sides are known, with their relations. -/
structure Within (known : Entity → Prop) (sides : RelationSides) : Prop where
  entity : known sides.entity
  target : known sides.target
  relation : sides.relation ∈ sides.entity.relations
  paired : ∀ paired ∈ sides.paired, paired ∈ sides.target.relations

lemma within_ofField (hknown : ∀ pair ∈ schema.entities, known pair.2) {entity : Entity}
    (hentity : known entity) {field : String} {sides : RelationSides}
    (h : ofField schema entity field = .ok sides) : sides.Within known := by
  obtain ⟨relation, hrelation, hsides⟩ := Except.bind_eq_ok.mp (Except.eq_ok_of_mapError h)
  obtain ⟨target, htarget, hsides⟩ := Except.bind_eq_ok.mp hsides
  obtain ⟨paired, hpaired, hsides⟩ := Except.bind_eq_ok.mp hsides
  cases hsides
  refine ⟨hentity, hknown _ (Table.mem_of_find? (Schema.entity_eq_ok.mp htarget)),
    Entity.mem_relations_of_relation hrelation, ?_⟩
  rintro other rfl
  rw [Schema.targetRelation, htarget] at hpaired
  cases hname : relation.pairedName? with
  | none =>
    rw [hname] at hpaired
    cases hpaired
  | some name =>
    rw [hname] at hpaired
    cases hother : target.relation name with
    | error e =>
      simp [hother, bind, Except.bind] at hpaired
    | ok own =>
      simp [hother, bind, Except.bind] at hpaired
      exact Entity.mem_relations_of_relation (hpaired ▸ hother)

lemma refuses_ofField (schema : Schema) (entity : Entity) (field : String) :
    Refuses (ofField schema entity field) := .schema _

lemma refuses_pair (sides : RelationSides) : Refuses sides.pair := by
  rw [pair]
  split
  · exact .ok
  · rintro _ ⟨⟩
    exact ⟨rfl, rfl⟩

lemma refuses_unsupported {α : Type} (sides : RelationSides) (operation : RelationOperation)
    (place : InputPlace) :
    Refuses (.error (sides.unsupported operation place) : Except Failure α) := by
  rintro _ ⟨⟩
  exact ⟨rfl, rfl⟩

lemma Within.pair {sides : RelationSides} (h : sides.Within known) {relation : Relation}
    (hpair : sides.pair = .ok relation) : relation ∈ sides.target.relations := by
  rw [RelationSides.pair] at hpair
  split at hpair
  · rename_i hpaired
    cases hpair
    exact h.paired _ hpaired
  · cases hpair

end RelationSides

/-! ### Steps of relation inputs -/

section Steps

variable {sides : RelationSides} (hsides : sides.Within known)
include hsides

lemma accounts_connectOwning (which : UniqueWhere) (row : Option Value) :
    (connectOwning sides which row).Accounts (rowContract known) := by
  refine FieldValue.accounts_deferUnderPath _ ?_
  refine (Rows.accounts_primaryValue hsides.target which).ensures.bind fun found _ => ?_
  cases found with
  | none => exact .pure (Set.empty_subset _) (by rintro _ ⟨⟩)
  | some target =>
    have hvalue : Resolves (rowContract known) (pure (Resolved.ofValue target)) :=
      .pure (Set.empty_subset _) (by rintro _ ⟨⟩)
    dsimp only
    split
    · exact hvalue
    · refine (Rows.accounts_primaryValue hsides.entity _).ensures.bind fun claiming _ => ?_
      cases claiming with
      | none => exact hvalue
      | some owner =>
        dsimp only
        split
        · exact .pure (Set.empty_subset _) (by rintro _ ⟨⟩)
        · refine (Rows.writes_update hsides.entity _ _).accounts.ensures.bind fun results _ => ?_
          exact .pure subset_rfl (by rintro _ ⟨⟩)

lemma resolves_insertTarget (data : Data) :
    Resolves (rowContract known) (insertTarget sides data) :=
  (Rows.writes_insert hsides.target data).accounts.ensures.bind fun _ _ =>
    .pure subset_rfl (by rintro _ ⟨⟩)

lemma accounts_createOwning (data : Data) :
    (createOwning sides data).Accounts (rowContract known) :=
  FieldValue.accounts_deferUnderPath _ (resolves_insertTarget hsides data)

end Steps

/-- Steps account for what they do, whether that is an operation or a value. -/
def InputStep.Accounts (C : Contract Rows (Program.Exchange Effect)) : InputStep → Prop
  | .run operation => Mutation.Accounts C ∅ violations operation
  | .column value => value.Accounts C

lemma accounts_refuseNull {C : Contract Rows (Program.Exchange Effect)} (path : Path) :
    (refuseNull path).Accounts C :=
  (Accounts.pure (Set.empty_subset _)).underPath path

lemma eq_of_foundRow? {results found : List Result} (h : foundRow? results = some found) :
    results = found := by
  unfold foundRow? at h
  split at h
  · cases h
  · exact Option.some.inj h

namespace RelatedRow

variable {row : RelatedRow} (hrow : row.sides.Within known)
include hrow

/-! ### Has-one relations -/

lemma accounts_updateTarget (data : Data) :
    Accounts (rowContract known) ∅ violations (row.updateTarget data) := by
  refine (Rows.accounts_selectField hrow.entity _ _).bind fun found => ?_
  cases found with
  | some target => exact (Rows.writes_update hrow.target _ data).accounts
  | none => exact .pure (Set.empty_subset _)

lemma resolves_upsertTarget (create update : Data) :
    Resolves (rowContract known) (row.upsertTarget create update) := by
  refine (Rows.accounts_selectField hrow.entity _ _).ensures.bind fun found _ => ?_
  cases found with
  | some target =>
    refine (Rows.writes_update hrow.target _ update).accounts.ensures.bind fun results _ => ?_
    exact .pure subset_rfl (by rintro _ ⟨⟩)
  | none => exact resolves_insertTarget hrow create

lemma resolves_deleteTarget : Resolves (rowContract known) row.deleteTarget := by
  refine (Rows.accounts_selectField hrow.entity _ _).ensures.bind fun found _ => ?_
  cases found with
  | some target =>
    refine .pure (Set.empty_subset _) ?_
    rintro _ ⟨⟩
    exact (Rows.writes_delete hrow.target _).accounts
  | none => exact .pure (Set.empty_subset _) (by rintro _ ⟨⟩)

lemma accounts_owningStep (input : ToOneInput) :
    (row.owningStep input).Accounts (rowContract known) := by
  cases input with
  | connect which => exact accounts_connectOwning hrow which (some row.primary)
  | create data => exact accounts_createOwning hrow data
  | update data => exact (accounts_updateTarget hrow data).underPath _
  | upsert create update =>
    exact FieldValue.accounts_deferUnderPath _ (resolves_upsertTarget hrow create update)
  | delete =>
    rw [owningStep]
    split
    · exact FieldValue.accounts_deferUnderPath _ (resolves_deleteTarget hrow)
    · exact accounts_refuseNull _
  | disconnect =>
    rw [owningStep]
    split
    · trivial
    · exact accounts_refuseNull _

lemma accounts_replaceInverse (paired : Relation) (data : Data) :
    Accounts (rowContract known) ∅ violations (row.replaceInverse paired data) := by
  refine (Rows.writes_update hrow.target _ _).accounts.bind fun previous => ?_
  refine (Rows.writes_insert hrow.target _).frame.bind fun inserted => .pure ?_
  rw [violations_append]
  refine Set.union_subset_union_left _ ?_
  rintro kind ⟨result, hmem, hkind⟩
  exact ⟨result, List.mem_filter.mpr ⟨hmem, by rw [hkind]; rfl⟩, hkind⟩

lemma accounts_upsertInverse (paired : Relation) (which : UniqueWhere) (update create : Data) :
    Accounts (rowContract known) ∅ violations (row.upsertInverse paired which update create) := by
  refine (Rows.ensures_update hrow.target which update).bind_accounts fun results hmissed => ?_
  cases hfound : foundRow? results with
  | none =>
    rw [hmissed hfound]
    exact (Rows.writes_insert hrow.target _).accounts
  | some found =>
    obtain rfl := eq_of_foundRow? hfound
    exact .pure subset_rfl

lemma accounts_inverseOperation (paired : Relation) (input : ToOneInput) :
    Accounts (rowContract known) ∅ violations (row.inverseOperation paired input) := by
  cases input with
  | connect which => exact (Rows.writes_update hrow.target _ _).accounts
  | create data => exact accounts_replaceInverse hrow paired data
  | update data => exact (Rows.writes_update hrow.target _ _).accounts
  | upsert create update => exact accounts_upsertInverse hrow paired _ update create
  | delete => exact (Rows.writes_delete hrow.target _).accounts
  | disconnect => exact (Rows.writes_update hrow.target _ _).accounts

lemma accounts_toOneStep {input : ToOneInput} {step : InputStep}
    (h : row.toOneStep input = .ok step) : step.Accounts (rowContract known) := by
  rw [toOneStep] at h
  split at h
  · cases h
    exact accounts_owningStep hrow input
  · cases h
    exact accounts_owningStep hrow input
  · obtain ⟨paired, -, h⟩ := Except.bind_eq_ok.mp h
    cases h
    exact (accounts_inverseOperation hrow paired input).underPath _
  · cases h

omit hrow in
lemma refuses_toOneStep (input : ToOneInput) : Refuses (row.toOneStep input) := by
  rw [toOneStep]
  split
  · exact .ok
  · exact .ok
  · exact row.sides.refuses_pair.bind fun paired _ => .ok
  · exact row.sides.refuses_unsupported _ _

/-! ### To-many relations -/

lemma accounts_itemOperation (paired : Relation) (input : ToManyInput) :
    Accounts (rowContract known) ∅ violations (row.itemOperation paired input) := by
  cases input with
  | connect which => exact (Rows.writes_update hrow.target _ _).accounts
  | create data => exact (Rows.writes_insert hrow.target _).accounts
  | update which data => exact (Rows.writes_update hrow.target _ _).accounts
  | upsert which update create => exact accounts_upsertInverse hrow paired _ update create
  | delete which => exact (Rows.writes_delete hrow.target _).accounts
  | disconnect which => exact (Rows.writes_update hrow.target _ _).accounts

lemma writes_connectJunction (target : Value) :
    Writes (rowContract known) (row.connectJunction target) := by
  rw [connectJunction]
  split
  · exact Rows.writes_connect hrow.entity hrow.relation _ _
  · exact .liftExcept_bind row.sides.refuses_pair fun paired hpaired =>
      Rows.writes_connect hrow.target (hrow.pair hpaired) _ _

lemma writes_disconnectJunction (target : Value) :
    Writes (rowContract known) (row.disconnectJunction target) := by
  rw [disconnectJunction]
  split
  · exact Rows.writes_disconnect hrow.entity hrow.relation _ _
  · exact .liftExcept_bind row.sides.refuses_pair fun paired hpaired =>
      Rows.writes_disconnect hrow.target (hrow.pair hpaired) _ _

lemma accounts_insertLinked (data : Data) :
    Accounts (rowContract known) ∅ violations (row.insertLinked data) := by
  refine (Rows.writes_insert hrow.target data).accounts.bind fun results => ?_
  cases createdKey? results with
  | some target =>
    refine (writes_connectJunction hrow target).frame.bind fun linked => .pure ?_
    rw [violations_append]
  | none => exact .pure subset_rfl

lemma accounts_updateLinked (target : Value) (data : Data) :
    Accounts (rowContract known) ∅ violations (row.updateLinked target data) := by
  refine (Rows.writes_update hrow.target _ data).accounts.bind fun results => ?_
  refine (writes_connectJunction hrow target).frame.bind fun linked => .pure ?_
  rw [violations_append]

/-- The target is looked up first, and nothing is done where it is missing. -/
lemma accounts_find {onFound : Value → Action Rows (List Result)} (which : UniqueWhere)
    {onMissing : Action Rows (List Result)}
    (hfound : ∀ target, Accounts (rowContract known) ∅ violations (onFound target))
    (hmissing : Accounts (rowContract known) ∅ violations onMissing) :
    Accounts (rowContract known) ∅ violations (do
      match ← Rows.primaryValue row.sides.target which with
      | some target => onFound target
      | none => onMissing) := by
  refine (Rows.accounts_primaryValue hrow.target which).bind fun found => ?_
  cases found with
  | some target => exact hfound target
  | none => exact hmissing

lemma accounts_junctionOperation (input : ToManyInput) :
    Accounts (rowContract known) ∅ violations (row.junctionOperation input) := by
  have hmissing (which : UniqueWhere) :
      Accounts (rowContract known) ∅ violations (pure (missing which)) :=
    .pure (Set.empty_subset _)
  cases input with
  | connect which =>
    exact accounts_find hrow which (fun target => (writes_connectJunction hrow target).accounts)
      (hmissing which)
  | create data => exact accounts_insertLinked hrow data
  | update which data =>
    exact accounts_find hrow which (fun target => accounts_updateLinked hrow target data)
      (hmissing which)
  | upsert which update create =>
    exact accounts_find hrow which (fun target => accounts_updateLinked hrow target update)
      (accounts_insertLinked hrow create)
  | delete which => exact (Rows.writes_delete hrow.target which).accounts
  | disconnect which =>
    exact accounts_find hrow which (fun target => (writes_disconnectJunction hrow target).accounts)
      (hmissing which)

lemma accounts_toManyOperation {index : Nat} {item : ToManyItem}
    {operation : Action Rows (List Result)} (h : row.toManyOperation index item = .ok operation) :
    Accounts (rowContract known) ∅ violations operation := by
  rw [toManyOperation] at h
  split at h
  · obtain ⟨paired, -, h⟩ := Except.bind_eq_ok.mp h
    cases h
    exact (accounts_itemOperation hrow paired item.input).underPath _
  · cases h
    exact (accounts_junctionOperation hrow item.input).underPath _
  · cases h
    exact (accounts_junctionOperation hrow item.input).underPath _
  · cases h

lemma accounts_toManyFrom {index : Nat} {items : List ToManyItem}
    {operations : List (Action Rows (List Result))}
    (h : row.toManyFrom index items = .ok operations) :
    ∀ operation ∈ operations, Accounts (rowContract known) ∅ violations operation := by
  induction items generalizing index operations with
  | nil =>
    cases h
    simp
  | cons item rest ih =>
    obtain ⟨operation, hoperation, h⟩ := Except.bind_eq_ok.mp h
    obtain ⟨others, hothers, h⟩ := Except.bind_eq_ok.mp h
    cases h
    exact List.forall_mem_cons.mpr ⟨accounts_toManyOperation hrow hoperation, ih hothers⟩

omit hrow in
lemma refuses_toManyFrom (index : Nat) (items : List ToManyItem) :
    Refuses (row.toManyFrom index items) := by
  induction items generalizing index with
  | nil => exact .ok
  | cons item rest ih =>
    refine Refuses.bind ?_ fun operation _ => (ih _).bind fun operations _ => .ok
    rw [toManyOperation]
    split
    · exact row.sides.refuses_pair.bind fun paired _ => .ok
    · exact .ok
    · exact .ok
    · exact row.sides.refuses_unsupported _ _

/-! ### Rows that are being created -/

lemma accounts_connectInverse (which : UniqueWhere) :
    Accounts (rowContract known) ∅ violations (row.connectInverse which) := by
  refine .liftExcept_bind row.sides.refuses_pair fun paired _ => ?_
  refine (Rows.accounts_primaryValue hrow.target which).bind fun found => ?_
  cases found with
  | none => exact .pure (Set.empty_subset _)
  | some target =>
    refine (Rows.accounts_selectField hrow.target _ _).bind fun previous => ?_
    refine .ite (.pure (Set.empty_subset _)) ?_
    refine (Rows.writes_update hrow.target _ _).accounts.bind fun results => ?_
    split
    · refine Accounts.bind (Accounts.note _) fun _ => ?_
      refine (Rows.writes_delete hrow.entity _).frame.bind fun removed => .pure ?_
      rw [violations_append]
    · exact .pure subset_rfl

lemma accounts_createToOne {input : ToOneInput} {operation : Action Rows (List Result)}
    (h : row.createToOne input = .ok operation) :
    Accounts (rowContract known) ∅ violations operation := by
  unfold createToOne at h
  split at h
  · cases h
    exact (accounts_connectInverse hrow _).underPath _
  · obtain ⟨paired, -, h⟩ := Except.bind_eq_ok.mp h
    cases h
    exact (Rows.writes_insert hrow.target _).accounts.underPath _
  · cases h

lemma accounts_createToMany {items : List ToManyItem}
    {operations : List (Action Rows (List Result))}
    (h : row.createToMany items = .ok operations) :
    ∀ operation ∈ operations, Accounts (rowContract known) ∅ violations operation := by
  unfold createToMany at h
  split at h
  · cases h
  · exact accounts_toManyFrom hrow h

omit hrow in
lemma refuses_createToOne (input : ToOneInput) : Refuses (row.createToOne input) := by
  unfold createToOne
  split
  · exact .ok
  · exact row.sides.refuses_pair.bind fun paired _ => .ok
  · exact row.sides.refuses_unsupported _ _

omit hrow in
lemma refuses_createToMany (items : List ToManyItem) : Refuses (row.createToMany items) := by
  unfold createToMany
  split
  · exact row.sides.refuses_unsupported _ _
  · exact refuses_toManyFrom 0 items

end RelatedRow

lemma accounts_createColumn {sides : RelationSides} (hsides : sides.Within known)
    {input : ToOneInput} {value : FieldValue Rows} (h : createColumn sides input = .ok value) :
    value.Accounts (rowContract known) := by
  unfold createColumn at h
  split at h
  · cases h
    exact accounts_connectOwning hsides _ none
  · cases h
    exact accounts_createOwning hsides _
  · cases h

lemma refuses_createColumn (sides : RelationSides) (input : ToOneInput) :
    Refuses (createColumn sides input) := by
  unfold createColumn
  split
  · exact .ok
  · exact .ok
  · exact sides.refuses_unsupported _ _

/-! ### Plans -/

section Plans

variable (hknown : ∀ pair ∈ schema.entities, known pair.2) {entity : Entity}

/-- The sides of a relation that waits for the key of the new row. -/
def Pending.sides : Pending → RelationSides
  | one sides _ => sides
  | many sides _ => sides

lemma refuses_planInsert (schema : Schema) (entity : Entity) (fields : List (String × FieldInput)) :
    Refuses (planInsert schema entity fields) := by
  induction fields with
  | nil => exact .ok
  | cons entry rest ih =>
    obtain ⟨field, value | input | items⟩ := entry
    · exact ih.bind fun plan _ => .ok
    · refine (RelationSides.refuses_ofField schema entity field).bind fun sides _ => ?_
      split
      · exact (refuses_createColumn sides input).bind fun column _ => ih.bind fun plan _ => .ok
      · exact ih.bind fun plan _ => .ok
    · refine (RelationSides.refuses_ofField schema entity field).bind fun sides _ => ?_
      exact ih.bind fun plan _ => .ok

include hknown in
lemma accounts_planInsert (hentity : known entity) {fields : List (String × FieldInput)}
    {values : FieldValues Rows} {pending : List Pending}
    (h : planInsert schema entity fields = .ok (values, pending)) :
    (∀ entry ∈ values, entry.2.Accounts (rowContract known)) ∧
      ∀ waiting ∈ pending, waiting.sides.Within known := by
  induction fields generalizing values pending with
  | nil =>
    cases h
    simp
  | cons entry rest ih =>
    obtain ⟨field, value | input | items⟩ := entry
    · obtain ⟨⟨others, waiting⟩, hrest, h⟩ := Except.bind_eq_ok.mp h
      cases h
      exact ⟨List.forall_mem_cons.mpr ⟨trivial, (ih hrest).1⟩, (ih hrest).2⟩
    · obtain ⟨sides, hsides, h⟩ := Except.bind_eq_ok.mp h
      have hwithin := RelationSides.within_ofField hknown hentity hsides
      split at h
      · obtain ⟨column, hcolumn, h⟩ := Except.bind_eq_ok.mp h
        obtain ⟨⟨others, waiting⟩, hrest, h⟩ := Except.bind_eq_ok.mp h
        cases h
        exact ⟨List.forall_mem_cons.mpr ⟨accounts_createColumn hwithin hcolumn, (ih hrest).1⟩,
          (ih hrest).2⟩
      · obtain ⟨⟨others, waiting⟩, hrest, h⟩ := Except.bind_eq_ok.mp h
        cases h
        exact ⟨(ih hrest).1, List.forall_mem_cons.mpr ⟨hwithin, (ih hrest).2⟩⟩
    · obtain ⟨sides, hsides, h⟩ := Except.bind_eq_ok.mp h
      have hwithin := RelationSides.within_ofField hknown hentity hsides
      obtain ⟨⟨others, waiting⟩, hrest, h⟩ := Except.bind_eq_ok.mp h
      cases h
      exact ⟨(ih hrest).1, List.forall_mem_cons.mpr ⟨hwithin, (ih hrest).2⟩⟩

lemma refuses_afterInsert (primary : Value) (pending : List Pending) :
    Refuses (afterInsert primary pending) := by
  induction pending with
  | nil => exact .ok
  | cons waiting rest ih =>
    cases waiting with
    | one sides input =>
      exact (RelatedRow.refuses_createToOne input).bind fun operation _ =>
        ih.bind fun operations _ => .ok
    | many sides items =>
      exact (RelatedRow.refuses_createToMany items).bind fun own _ =>
        ih.bind fun operations _ => .ok

lemma accounts_afterInsert {primary : Value} {pending : List Pending}
    (hpending : ∀ waiting ∈ pending, waiting.sides.Within known)
    {operations : List (Action Rows (List Result))}
    (h : afterInsert primary pending = .ok operations) :
    ∀ operation ∈ operations, Accounts (rowContract known) ∅ violations operation := by
  induction pending generalizing operations with
  | nil =>
    cases h
    simp
  | cons waiting rest ih =>
    obtain ⟨hwaiting, hrest⟩ := List.forall_mem_cons.mp hpending
    cases waiting with
    | one sides input =>
      obtain ⟨operation, hoperation, h⟩ := Except.bind_eq_ok.mp h
      obtain ⟨others, hothers, h⟩ := Except.bind_eq_ok.mp h
      cases h
      exact List.forall_mem_cons.mpr
        ⟨RelatedRow.accounts_createToOne hwaiting hoperation, ih hrest hothers⟩
    | many sides items =>
      obtain ⟨own, hown, h⟩ := Except.bind_eq_ok.mp h
      obtain ⟨others, hothers, h⟩ := Except.bind_eq_ok.mp h
      cases h
      exact List.forall_mem_append.mpr
        ⟨RelatedRow.accounts_createToMany hwaiting hown, ih hrest hothers⟩

lemma refuses_planUpdate (schema : Schema) (entity : Entity) (primary : Value)
    (fields : List (String × FieldInput)) : Refuses (planUpdate schema entity primary fields) := by
  induction fields with
  | nil => exact .ok
  | cons entry rest ih =>
    obtain ⟨field, value | input | items⟩ := entry
    · exact ih.bind fun plan _ => .ok
    · refine (RelationSides.refuses_ofField schema entity field).bind fun sides _ => ?_
      refine (RelatedRow.refuses_toOneStep input).bind fun step _ => ?_
      cases step with
      | column value => exact ih.bind fun plan _ => .ok
      | run operation => exact ih.bind fun plan _ => .ok
    · refine (RelationSides.refuses_ofField schema entity field).bind fun sides _ => ?_
      exact (RelatedRow.refuses_toManyFrom 0 items).bind fun own _ => ih.bind fun plan _ => .ok

include hknown in
lemma accounts_planUpdate (hentity : known entity) {primary : Value}
    {fields : List (String × FieldInput)} {values : FieldValues Rows}
    {operations : List (Action Rows (List Result))}
    (h : planUpdate schema entity primary fields = .ok (values, operations)) :
    (∀ entry ∈ values, entry.2.Accounts (rowContract known)) ∧
      ∀ operation ∈ operations, Accounts (rowContract known) ∅ violations operation := by
  induction fields generalizing values operations with
  | nil =>
    cases h
    simp
  | cons entry rest ih =>
    obtain ⟨field, value | input | items⟩ := entry
    · obtain ⟨⟨others, more⟩, hrest, h⟩ := Except.bind_eq_ok.mp h
      cases h
      exact ⟨List.forall_mem_cons.mpr ⟨trivial, (ih hrest).1⟩, (ih hrest).2⟩
    · obtain ⟨sides, hsides, h⟩ := Except.bind_eq_ok.mp h
      obtain ⟨step, hstep, h⟩ := Except.bind_eq_ok.mp h
      have hrow : (RelatedRow.mk sides primary).sides.Within known :=
        RelationSides.within_ofField hknown hentity hsides
      have haccounts := RelatedRow.accounts_toOneStep hrow hstep
      cases step with
      | column value =>
        obtain ⟨⟨others, more⟩, hrest, h⟩ := Except.bind_eq_ok.mp h
        cases h
        exact ⟨List.forall_mem_cons.mpr ⟨haccounts, (ih hrest).1⟩, (ih hrest).2⟩
      | run operation =>
        obtain ⟨⟨others, more⟩, hrest, h⟩ := Except.bind_eq_ok.mp h
        cases h
        exact ⟨(ih hrest).1, List.forall_mem_cons.mpr ⟨haccounts, (ih hrest).2⟩⟩
    · obtain ⟨sides, hsides, h⟩ := Except.bind_eq_ok.mp h
      obtain ⟨own, hown, h⟩ := Except.bind_eq_ok.mp h
      obtain ⟨⟨others, more⟩, hrest, h⟩ := Except.bind_eq_ok.mp h
      cases h
      have hrow : (RelatedRow.mk sides primary).sides.Within known :=
        RelationSides.within_ofField hknown hentity hsides
      have haccounts := RelatedRow.accounts_toManyFrom hrow hown
      exact ⟨(ih hrest).1, List.forall_mem_append.mpr ⟨haccounts, (ih hrest).2⟩⟩

end Plans

end Mutation

end EntityGraph
