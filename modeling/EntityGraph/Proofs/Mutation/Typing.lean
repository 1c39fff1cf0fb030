import EntityGraph.Proofs.Data.Fitting
import EntityGraph.Proofs.Mutation.Returning
/-!
# Operations of the right types

In a well formed schema, input that fits an entity asks for operations on rows whose own input fits
theirs; nothing is looked up on the way that the schema does not have. The only operations that are
refused are those that create data misplaces.
-/
namespace EntityGraph

/-- The entity is the one that the schema has under its name. -/
def Schema.Declares (schema : Schema) (entity : Entity) : Prop :=
  schema.entity entity.name = .ok entity

/-- Whether the key field of every entity is a column. -/
def Schema.KeysAreColumns (schema : Schema) : Prop :=
  ∀ name entity, schema.entity name = .ok entity →
    ∃ column, entity.column entity.primary = .ok column

variable {schema : Schema} {entity target : Entity} {field : String} {relation : Relation}

lemma Schema.WellFormed.declares (hs : schema.WellFormed) {name : String}
    (h : schema.entity name = .ok entity) : schema.Declares entity := by
  rw [Schema.Declares, hs.name_eq h]
  exact h

lemma RelationKind.isHasOne_of_hasJoiningColumn {kind : RelationKind}
    (h : kind.hasJoiningColumn = true) : kind.isHasOne = true := by
  cases kind <;> first | rfl | cases h

/-- The keys can be checked entity by entity. -/
lemma Schema.keysAreColumns_of_forall_mem
    (h : ∀ pair ∈ schema.entities, (pair.2.column pair.2.primary).isOk = true) :
    schema.KeysAreColumns := by
  intro name entity hentity
  have hok := h _ (Table.mem_of_find? (Schema.entity_eq_ok.mp hentity))
  cases hcolumn : entity.column entity.primary with
  | ok column => exact ⟨column, rfl⟩
  | error e =>
    rw [hcolumn] at hok
    cases hok

lemma Schema.KeysAreColumns.columnName (hkeys : schema.KeysAreColumns)
    (h : schema.Declares entity) : ∃ column, entity.columnName entity.primary = .ok column := by
  obtain ⟨column, hcolumn⟩ := hkeys _ entity h
  exact ⟨_, Entity.columnName_of_column (Entity.field_of_column hcolumn)⟩

namespace Data

variable {data : Data} {name : String} {creates : Bool} {misplaced : Prop}

/-- The data fits the entity, and it misplaces an operation only if one is known to be misplaced. -/
structure Typed (schema : Schema) (misplaced : Prop) (entity : Entity) (creates : Bool)
    (data : Data) : Prop where
  fits : data.Fits schema entity
  misplaces : data.Misplaces creates → misplaced

lemma typed_empty : empty.Typed schema misplaced entity creates :=
  ⟨fits_empty, fun h => absurd h not_misplaces_empty⟩

lemma Typed.withValue (h : data.Typed schema misplaced entity creates) {column : String}
    (hcolumn : entity.columnName name = .ok column) (value : Value) :
    (data.withValue name value).Typed schema misplaced entity creates :=
  ⟨h.fits.set (.value hcolumn), fun hset => h.misplaces (hset.of_set
    (fun _ hmem => absurd hmem List.not_mem_nil) fun _ hmem => absurd hmem List.not_mem_nil)⟩

/-- A single operation without data on a relation to one row is typed for a row that exists. -/
lemma typed_single {input : ToOneInput} (hrelation : entity.relation name = .ok relation)
    (hkind : relation.kind.isHasOne = true) (htarget : schema.targetEntity relation = .ok target)
    (hwheres : ∀ which ∈ input.wheres, which.Fits schema target) (hparts : input.parts = []) :
    (empty.withOne name input).Typed schema misplaced entity false := by
  refine ⟨fits_empty.set (.one hrelation hkind htarget hwheres fun part hmem => ?_), fun h => ?_⟩
  · rw [hparts] at hmem
    exact absurd hmem List.not_mem_nil
  · refine absurd (h.of_set (fun _ _ hcreates => Bool.false_ne_true hcreates.1) fun part hmem => ?_)
      not_misplaces_empty
    rw [FieldInput.parts, hparts] at hmem
    exact absurd hmem List.not_mem_nil

end Data

namespace Mutation

/-- The failure does not come from the schema; it refuses an operation only if one is known to be
misplaced. -/
def Failure.Expected (misplaced : Prop) : Failure → Prop
  | .schema _ => False
  | .unsupported .. => misplaced
  | _ => True

/-- The action fails only as expected. -/
abbrev Safe {I : Interface} {α : Type} (C : Contract I (Program.Exchange Effect))
    (misplaced : Prop) (action : Action I α) : Prop :=
  Returns C (fun _ => True) (Failure.Expected misplaced) action

/-- A value for a column that fails only as expected. -/
abbrev FieldValue.Safe {I : Interface} (C : Contract I (Program.Exchange Effect))
    (misplaced : Prop) (value : FieldValue I) : Prop :=
  value.Yields C (fun _ => True) (Failure.Expected misplaced)

namespace Safe

variable {I : Interface} {α β : Type} {C : Contract I (Program.Exchange Effect)}
  {misplaced : Prop}

lemma yields {operation : Action I (List Result)} (h : Safe C misplaced operation) :
    Yields C (fun _ => True) (Failure.Expected misplaced) operation :=
  h.mono (fun _ _ _ _ => trivial) fun _ => id

lemma bind {action : Action I α} {next : α → Action I β} {Q : β → Prop}
    (h : Safe C misplaced action)
    (hnext : ∀ a, Returns C Q (Failure.Expected misplaced) (next a)) :
    Returns C Q (Failure.Expected misplaced) (action >>= next) :=
  Returns.bind h fun a _ => hnext a

/-- An attempt hands every outcome on, and what failed in it failed as expected. -/
lemma attempt_bind {action : Action I α} {next : Except Failure α → Action I β} {Q : β → Prop}
    (h : Safe C misplaced action)
    (hnext : ∀ outcome, Satisfies (fun _ => True) (Failure.Expected misplaced) outcome →
      Returns C Q (Failure.Expected misplaced) (next outcome)) :
    Returns C Q (Failure.Expected misplaced) (attempt action >>= next) :=
  Returns.attempt_bind h hnext

lemma underPath {path : Path} {operation : Action I (List Result)}
    (h : Safe C misplaced operation) : Safe C misplaced (Mutation.underPath path operation) :=
  (h.yields.underPath (R := fun _ => True) fun _ _ _ _ => trivial).mono (fun _ _ => trivial)
    fun _ => And.left

lemma collectAll {operations : List (Action I (List Result))}
    (h : ∀ operation ∈ operations, Safe C misplaced operation) :
    Safe C misplaced (Mutation.collectAll operations) :=
  (Returns.collectAll (fun operation hmem => (h operation hmem).yields)
    fun _ _ _ _ => trivial).mono (fun _ _ => trivial) fun _ => And.left

end Safe

/-- What a deferred value leaves for after the statement fails only as expected. -/
def Resolved.Safe {I : Interface} (C : Contract I (Program.Exchange Effect)) (misplaced : Prop)
    (resolved : Resolved I) : Prop :=
  ∀ operation ∈ resolved.after, Mutation.Safe C misplaced operation

lemma FieldValue.safe_deferUnderPath {I : Interface} {C : Contract I (Program.Exchange Effect)}
    {misplaced : Prop} {path : Path} {resolve : Action I (Resolved I)}
    (h : Returns C (Resolved.Safe C misplaced) (Failure.Expected misplaced) resolve) :
    (deferUnderPath path resolve).Safe C misplaced := by
  refine Returns.mono (FieldValue.yields_deferUnderPath (R := fun _ => True) (h.mono ?_ fun _ => id)
    fun _ _ _ _ => trivial) ?_ fun _ => And.left
  · exact fun resolved hafter =>
      ⟨fun _ _ => trivial, fun operation hmem => (hafter operation hmem).yields⟩
  · exact fun resolved hresolved =>
      ⟨hresolved.1, fun operation hmem => (hresolved.2 operation hmem).mono (fun _ => id)
        fun _ => And.left⟩

/-! ### Operations on rows -/

/-- The operation is on a row of a declared entity, and its input fits. -/
def RowRequest.Typed (schema : Schema) (misplaced : Prop) : RowRequest → Prop
  | insert entity data => schema.Declares entity ∧ data.Typed schema misplaced entity true
  | update entity which data =>
    schema.Declares entity ∧ which.Fits schema entity ∧ data.Typed schema misplaced entity false
  | delete entity which => schema.Declares entity ∧ which.Fits schema entity
  | selectField entity which field =>
    schema.Declares entity ∧ which.Fits schema entity ∧
      ∃ column, entity.columnName field = .ok column
  | primaryValue entity which => schema.Declares entity ∧ which.Fits schema entity
  | connect _ relation .. => relation.kind = .manyHasManyOwning
  | disconnect _ relation .. => relation.kind = .manyHasManyOwning

/-- The operation failed only as expected. -/
def RowRequest.Succeeds (misplaced : Prop) : (request : RowRequest) → request.Reply → Prop
  | insert .., reply => Satisfies (fun _ => True) (Failure.Expected misplaced) reply
  | update .., reply => Satisfies (fun _ => True) (Failure.Expected misplaced) reply
  | delete .., reply => Satisfies (fun _ => True) (Failure.Expected misplaced) reply
  | selectField .., reply => Satisfies (fun _ => True) (Failure.Expected misplaced) reply
  | primaryValue .., reply => Satisfies (fun _ => True) (Failure.Expected misplaced) reply
  | connect .., reply => Satisfies (fun _ => True) (Failure.Expected misplaced) reply
  | disconnect .., reply => Satisfies (fun _ => True) (Failure.Expected misplaced) reply

def typedContract (schema : Schema) (misplaced : Prop) : Contract Rows (Program.Exchange Effect) :=
  ⟨RowRequest.Typed schema misplaced, fun request _ => request.Succeeds misplaced⟩

/-- Together with the operations on rows that it asks for, the action fails only as expected. -/
abbrev SafeOnRows {α : Type} (schema : Schema) (misplaced : Prop) (action : Action Rows α) : Prop :=
  Safe (typedContract schema misplaced) misplaced action

abbrev FieldValue.SafeOnRows (schema : Schema) (misplaced : Prop) (value : FieldValue Rows) :
    Prop := value.Safe (typedContract schema misplaced) misplaced

/-- Resolving a value fails only as expected, and so does what it leaves for after the statement. -/
abbrev ResolvesOnRows (schema : Schema) (misplaced : Prop)
    (resolve : Action Rows (Resolved Rows)) : Prop :=
  Returns (typedContract schema misplaced)
    (Resolved.Safe (typedContract schema misplaced) misplaced) (Failure.Expected misplaced) resolve

variable {misplaced : Prop} {which : UniqueWhere} {data : Data}

namespace Rows

lemma safe_insert (h : schema.Declares entity) (hdata : data.Typed schema misplaced entity true) :
    SafeOnRows schema misplaced (insert entity data) := ⟨⟨h, hdata⟩, fun _ _ => id⟩

lemma safe_update (h : schema.Declares entity) (hwhich : which.Fits schema entity)
    (hdata : data.Typed schema misplaced entity false) :
    SafeOnRows schema misplaced (update entity which data) := ⟨⟨h, hwhich, hdata⟩, fun _ _ => id⟩

lemma safe_delete (h : schema.Declares entity) (hwhich : which.Fits schema entity) :
    SafeOnRows schema misplaced (delete entity which) := ⟨⟨h, hwhich⟩, fun _ _ => id⟩

lemma safe_selectField (h : schema.Declares entity) (hwhich : which.Fits schema entity)
    {column : String} (hcolumn : entity.columnName field = .ok column) :
    SafeOnRows schema misplaced (selectField entity which field) :=
  ⟨⟨h, hwhich, column, hcolumn⟩, fun _ _ => id⟩

lemma safe_primaryValue (h : schema.Declares entity) (hwhich : which.Fits schema entity) :
    SafeOnRows schema misplaced (primaryValue entity which) := ⟨⟨h, hwhich⟩, fun _ _ => id⟩

lemma safe_connect (h : relation.kind = .manyHasManyOwning) (ownerKey inversedKey : Value) :
    SafeOnRows schema misplaced (connect entity relation ownerKey inversedKey) :=
  ⟨h, fun _ _ => id⟩

lemma safe_disconnect (h : relation.kind = .manyHasManyOwning) (ownerKey inversedKey : Value) :
    SafeOnRows schema misplaced (disconnect entity relation ownerKey inversedKey) :=
  ⟨h, fun _ _ => id⟩

end Rows

/-! ### Sides of relations -/

/-- The relation of the target leads back. -/
structure RelationSides.Pairs (schema : Schema) (sides : RelationSides) (paired : Relation) :
    Prop where
  relation : sides.target.relation paired.name = .ok paired
  targetEntity : schema.targetEntity paired = .ok sides.entity
  kind : paired.kind = sides.kind.opposite

/-- The sides are those of a relation of the schema. -/
structure RelationSides.Typed (schema : Schema) (sides : RelationSides) : Prop where
  entity : schema.Declares sides.entity
  target : schema.Declares sides.target
  relation : sides.entity.relation sides.relation.name = .ok sides.relation
  targetEntity : schema.targetEntity sides.relation = .ok sides.target
  paired : sides.kind.isOwning = false → ∃ paired, sides.paired = some paired ∧
    sides.Pairs schema paired

namespace RelationSides

variable {sides : RelationSides}

/-- The sides of every relation of the schema can be looked up. -/
lemma typed_ofField (hs : schema.WellFormed) (hentity : schema.Declares entity)
    (hrelation : entity.relation field = .ok relation)
    (htarget : schema.targetEntity relation = .ok target) :
    ∃ paired, ofField schema entity field = .ok ⟨entity, relation, target, paired⟩ ∧
      Typed schema ⟨entity, relation, target, paired⟩ := by
  have hname : entity.relation relation.name = .ok relation := by
    rw [(hs.wellFormed hentity).relation_name hrelation]
    exact hrelation
  have hsides (paired : Option Relation) (hpaired : schema.targetRelation relation = .ok paired) :
      ofField schema entity field = .ok ⟨entity, relation, target, paired⟩ := by
    simp only [ofField, ofRelation, hrelation, htarget, hpaired, bind, Except.bind,
      Except.mapError]
  cases hpair : relation.pairedName? with
  | none =>
    refine ⟨none, hsides none ?_, hentity, hs.declares htarget, hname, htarget, fun hkind => ?_⟩
    · rw [Schema.targetRelation, htarget]
      simp only [hpair, bind, Except.bind]
    · obtain ⟨name, hsome⟩ := Relation.exists_pairedName hkind
      rw [hpair] at hsome
      cases hsome
  | some name =>
    obtain ⟨paired, hpaired, hlooked, hkind, hback⟩ := hs.paired hentity hrelation hpair htarget
    refine ⟨some paired, hsides _ hlooked, hentity, hs.declares htarget, hname, htarget,
      fun _ => ⟨paired, rfl, ?_, ?_, hkind⟩⟩
    · rw [(hs.wellFormed htarget).relation_name hpaired]
      exact hpaired
    · rw [Schema.targetEntity, hback]
      exact hentity

/-- A relation that does not store its links has a pair. -/
lemma Typed.satisfies_pair (h : sides.Typed schema) (hkind : sides.kind.isOwning = false) :
    Satisfies (sides.Pairs schema) (Failure.Expected misplaced) sides.pair := by
  obtain ⟨paired, hpaired, hpairs⟩ := h.paired hkind
  rw [pair, hpaired]
  exact hpairs

end RelationSides

lemma fits_byPrimary (hkeys : schema.KeysAreColumns) (h : schema.Declares entity)
    (primary : Value) : (byPrimary entity primary).Fits schema entity := by
  obtain ⟨column, hcolumn⟩ := hkeys.columnName h
  exact UniqueWhere.fits_single hcolumn primary

lemma typed_disconnecting {name : String} (hrelation : entity.relation name = .ok relation)
    (hkind : relation.kind.isHasOne = true) (htarget : schema.targetEntity relation = .ok target) :
    (disconnecting name).Typed schema misplaced entity false :=
  Data.typed_single hrelation hkind htarget (fun _ hmem => absurd hmem List.not_mem_nil) rfl

/-- Whether the unique wheres and the data of an operation fit the target of its relation. -/
structure OperationTyped (schema : Schema) (misplaced : Prop) (target : Entity)
    (addressed : List UniqueWhere) (contents : List (Bool × Data)) : Prop where
  wheres : ∀ which ∈ addressed, which.Fits schema target
  parts : ∀ part ∈ contents, part.2.Typed schema misplaced target part.1

/-! ### Owning has-one relations -/

section Targets

variable {sides : RelationSides} (hsides : sides.Typed schema)
include hsides

lemma safe_connectOwning (hkeys : schema.KeysAreColumns) (hwhich : which.Fits schema sides.target)
    (row : Option Value) : (connectOwning sides which row).SafeOnRows schema misplaced := by
  refine FieldValue.safe_deferUnderPath ?_
  refine (Rows.safe_primaryValue hsides.target hwhich).bind fun found => ?_
  cases found with
  | none => exact .pure (by rintro _ ⟨⟩)
  | some target =>
    have hvalue : ResolvesOnRows schema misplaced (pure (Resolved.ofValue target)) :=
      .pure (by rintro _ ⟨⟩)
    dsimp only
    refine .ite (fun _ => hvalue) fun hkind => ?_
    rw [not_not] at hkind
    have hclaim : (UniqueWhere.empty.withRelation sides.relation.name
        (byPrimary sides.target target)).Fits schema sides.entity :=
      UniqueWhere.fits_empty.withRelation hsides.relation hsides.targetEntity
        (fits_byPrimary hkeys hsides.target target)
    refine (Rows.safe_primaryValue hsides.entity hclaim).bind fun claiming => ?_
    cases claiming with
    | none => exact hvalue
    | some owner =>
      dsimp only
      refine .ite (fun _ => .pure (by rintro _ ⟨⟩)) fun _ => ?_
      have hone : sides.relation.kind.isHasOne = true := congrArg RelationKind.isHasOne hkind
      refine (Rows.safe_update hsides.entity (fits_byPrimary hkeys hsides.entity owner)
        (typed_disconnecting hsides.relation hone hsides.targetEntity)).bind fun results => ?_
      exact .pure (by rintro _ ⟨⟩)

variable (hdata : data.Typed schema misplaced sides.target true)
include hdata

lemma safe_insertTarget : ResolvesOnRows schema misplaced (insertTarget sides data) :=
  (Rows.safe_insert hsides.target hdata).bind fun _ => .pure (by rintro _ ⟨⟩)

lemma safe_createOwning : (createOwning sides data).SafeOnRows schema misplaced :=
  FieldValue.safe_deferUnderPath (safe_insertTarget hsides hdata)

end Targets

namespace RelatedRow

variable (hkeys : schema.KeysAreColumns) {row : RelatedRow} (hrow : row.sides.Typed schema)

section Owning

variable (hkind : row.sides.kind.hasJoiningColumn = true)
include hkeys hrow hkind

lemma safe_currentTarget : SafeOnRows schema misplaced row.currentTarget := by
  obtain ⟨column, hcolumn⟩ := Entity.exists_columnName hrow.relation hkind
  exact Rows.safe_selectField hrow.entity (fits_byPrimary hkeys hrow.entity row.primary) hcolumn

lemma safe_updateTarget (hdata : data.Typed schema misplaced row.sides.target false) :
    SafeOnRows schema misplaced (row.updateTarget data) := by
  refine (safe_currentTarget hkeys hrow hkind).bind fun found => ?_
  cases found with
  | some target =>
    exact Rows.safe_update hrow.target (fits_byPrimary hkeys hrow.target target) hdata
  | none => exact .pure trivial

lemma safe_upsertTarget {create update : Data}
    (hcreate : create.Typed schema misplaced row.sides.target true)
    (hupdate : update.Typed schema misplaced row.sides.target false) :
    ResolvesOnRows schema misplaced (row.upsertTarget create update) := by
  refine (safe_currentTarget hkeys hrow hkind).bind fun found => ?_
  cases found with
  | some target =>
    refine (Rows.safe_update hrow.target (fits_byPrimary hkeys hrow.target target)
      hupdate).bind fun results => ?_
    exact .pure (by rintro _ ⟨⟩)
  | none => exact safe_insertTarget hrow hcreate

lemma safe_deleteTarget : ResolvesOnRows schema misplaced row.deleteTarget := by
  refine (safe_currentTarget hkeys hrow hkind).bind fun found => ?_
  cases found with
  | some target =>
    refine .pure ?_
    rintro _ ⟨⟩
    exact Rows.safe_delete hrow.target (fits_byPrimary hkeys hrow.target target)
  | none => exact .pure (by rintro _ ⟨⟩)

lemma safe_owningStep {input : ToOneInput}
    (hinput : OperationTyped schema misplaced row.sides.target input.wheres input.parts) :
    (row.owningStep input).Satisfies (FieldValue.SafeOnRows schema misplaced)
      (SafeOnRows schema misplaced) := by
  have hrefused : (refuseNull row.sides.path).Satisfies (FieldValue.SafeOnRows schema misplaced)
      (SafeOnRows schema misplaced) := Safe.underPath (.pure trivial)
  cases input with
  | connect which =>
    exact safe_connectOwning hrow hkeys (hinput.wheres which List.mem_cons_self) _
  | create data => exact safe_createOwning hrow (hinput.parts (true, data) List.mem_cons_self)
  | update data =>
    have hdata := hinput.parts (false, data) List.mem_cons_self
    exact (safe_updateTarget hkeys hrow hkind hdata).underPath
  | upsert create update =>
    have hcreate := hinput.parts (true, create) List.mem_cons_self
    have hupdate := hinput.parts (false, update) (List.mem_cons_of_mem _ List.mem_cons_self)
    exact FieldValue.safe_deferUnderPath (safe_upsertTarget hkeys hrow hkind hcreate hupdate)
  | delete =>
    rw [owningStep]
    split
    · exact FieldValue.safe_deferUnderPath (safe_deleteTarget hkeys hrow hkind)
    · exact hrefused
  | disconnect =>
    rw [owningStep]
    split
    · trivial
    · exact hrefused

end Owning

/-! ### Relations that are stored in a column of the target -/

section Inverse

variable {paired : Relation} (hpaired : row.sides.Pairs schema paired)

include hkeys hrow hpaired in
lemma fits_pointingHere (hwhich : which.Fits schema row.sides.target) :
    (row.pointingHere paired which).Fits schema row.sides.target :=
  hwhich.withRelation hpaired.relation hpaired.targetEntity (fits_byPrimary hkeys hrow.entity _)

variable (hjoining : paired.kind.hasJoiningColumn = true)
include hpaired hjoining

lemma typed_linked {creates : Bool} (hdata : data.Typed schema misplaced row.sides.target creates) :
    (row.linked paired data).Typed schema misplaced row.sides.target creates := by
  obtain ⟨column, hcolumn⟩ := Entity.exists_columnName hpaired.relation hjoining
  exact hdata.withValue hcolumn row.primary

include hrow

/-- A target that is inserted is linked to the row. -/
lemma safe_insert_linked (hdata : data.Typed schema misplaced row.sides.target true) :
    SafeOnRows schema misplaced (Rows.insert row.sides.target (row.linked paired data)) :=
  Rows.safe_insert hrow.target (typed_linked hpaired hjoining hdata)

lemma safe_disconnect_paired (hwhich : which.Fits schema row.sides.target) :
    SafeOnRows schema misplaced
      (Rows.update row.sides.target which (disconnecting paired.name)) :=
  Rows.safe_update hrow.target hwhich (typed_disconnecting hpaired.relation
    (RelationKind.isHasOne_of_hasJoiningColumn hjoining) hpaired.targetEntity)

lemma safe_upsertInverse {update create : Data} (hwhich : which.Fits schema row.sides.target)
    (hupdate : update.Typed schema misplaced row.sides.target false)
    (hcreate : create.Typed schema misplaced row.sides.target true) :
    SafeOnRows schema misplaced (row.upsertInverse paired which update create) := by
  refine (Rows.safe_update hrow.target hwhich hupdate).bind fun results => ?_
  cases foundRow? results with
  | some found => exact .pure trivial
  | none => exact safe_insert_linked hrow hpaired hjoining hcreate

include hkeys

/-- Operations on the target of an inverse relation to one row. -/
lemma safe_inverseOperation {input : ToOneInput}
    (hinput : OperationTyped schema misplaced row.sides.target input.wheres input.parts) :
    SafeOnRows schema misplaced (row.inverseOperation paired input) := by
  have hhere : (row.pointingHere paired .empty).Fits schema row.sides.target :=
    fits_pointingHere hkeys hrow hpaired UniqueWhere.fits_empty
  cases input with
  | connect which =>
    refine Rows.safe_update hrow.target (hinput.wheres which List.mem_cons_self)
      (Data.typed_single hpaired.relation (RelationKind.isHasOne_of_hasJoiningColumn hjoining)
        hpaired.targetEntity ?_ rfl)
    exact List.forall_mem_singleton.mpr (fits_byPrimary hkeys hrow.entity row.primary)
  | create data =>
    have hdata := hinput.parts (true, data) List.mem_cons_self
    refine (safe_disconnect_paired hrow hpaired hjoining hhere).bind fun previous => ?_
    exact (safe_insert_linked hrow hpaired hjoining hdata).bind fun inserted => .pure trivial
  | update data =>
    exact Rows.safe_update hrow.target hhere (hinput.parts (false, data) List.mem_cons_self)
  | upsert create update =>
    have hcreate := hinput.parts (true, create) List.mem_cons_self
    have hupdate := hinput.parts (false, update) (List.mem_cons_of_mem _ List.mem_cons_self)
    exact safe_upsertInverse hrow hpaired hjoining hhere hupdate hcreate
  | delete => exact Rows.safe_delete hrow.target hhere
  | disconnect => exact safe_disconnect_paired hrow hpaired hjoining hhere

/-- Operations on one of the targets of a one-to-many relation. -/
lemma safe_itemOperation {input : ToManyInput}
    (hinput : OperationTyped schema misplaced row.sides.target input.wheres input.parts) :
    SafeOnRows schema misplaced (row.itemOperation paired input) := by
  have hhere {which : UniqueWhere} (hmem : which ∈ input.wheres) :
      (row.pointingHere paired which).Fits schema row.sides.target :=
    fits_pointingHere hkeys hrow hpaired (hinput.wheres which hmem)
  cases input with
  | connect which =>
    exact Rows.safe_update hrow.target (hinput.wheres which List.mem_cons_self)
      (typed_linked hpaired hjoining Data.typed_empty)
  | create data =>
    exact safe_insert_linked hrow hpaired hjoining (hinput.parts (true, data) List.mem_cons_self)
  | update which data =>
    exact Rows.safe_update hrow.target (hhere List.mem_cons_self)
      (hinput.parts (false, data) List.mem_cons_self)
  | upsert which update create =>
    have hupdate := hinput.parts (false, update) List.mem_cons_self
    have hcreate := hinput.parts (true, create) (List.mem_cons_of_mem _ List.mem_cons_self)
    exact safe_upsertInverse hrow hpaired hjoining (hhere List.mem_cons_self) hupdate hcreate
  | delete which => exact Rows.safe_delete hrow.target (hhere List.mem_cons_self)
  | disconnect which =>
    exact safe_disconnect_paired hrow hpaired hjoining (hhere List.mem_cons_self)

end Inverse

/-! ### Many-to-many relations -/

section Junction

include hrow

/-- The target is looked up first. -/
lemma safe_find {onFound : Value → Action Rows (List Result)}
    {onMissing : Action Rows (List Result)} (hwhich : which.Fits schema row.sides.target)
    (hfound : ∀ target, SafeOnRows schema misplaced (onFound target))
    (hmissing : SafeOnRows schema misplaced onMissing) :
    SafeOnRows schema misplaced (do
      match ← Rows.primaryValue row.sides.target which with
      | some target => onFound target
      | none => onMissing) := by
  refine (Rows.safe_primaryValue hrow.target hwhich).bind fun found => ?_
  cases found with
  | some target => exact hfound target
  | none => exact hmissing

variable (hkind : row.sides.kind = .manyHasManyOwning ∨ row.sides.kind = .manyHasManyInverse)
include hkind

/-- The junction table is written from the side that owns it. -/
lemma safe_onJunction (write : Entity → Relation → Value → Value → Action Rows (List Result))
    (hwrite : ∀ owner relation ownerKey inversedKey, relation.kind = .manyHasManyOwning →
      SafeOnRows schema misplaced (write owner relation ownerKey inversedKey)) (target : Value) :
    SafeOnRows schema misplaced (do
      match row.sides.kind with
      | .manyHasManyOwning => write row.sides.entity row.sides.relation row.primary target
      | _ => write row.sides.target (← liftExcept row.sides.pair) target row.primary) := by
  obtain howning | hinverse := hkind
  · rw [howning]
    exact hwrite _ _ _ _ howning
  · rw [hinverse]
    have hpair : Satisfies (row.sides.Pairs schema) (Failure.Expected misplaced) row.sides.pair :=
      hrow.satisfies_pair (by rw [hinverse]; rfl)
    refine Returns.bind (.liftExcept hpair) fun paired hpaired => ?_
    refine hwrite _ _ _ _ ?_
    rw [hpaired.kind, hinverse]
    rfl

lemma safe_connectJunction (target : Value) :
    SafeOnRows schema misplaced (row.connectJunction target) :=
  safe_onJunction hrow hkind Rows.connect
    (fun _ _ ownerKey inversedKey howning => Rows.safe_connect howning ownerKey inversedKey) target

lemma safe_disconnectJunction (target : Value) :
    SafeOnRows schema misplaced (row.disconnectJunction target) :=
  safe_onJunction hrow hkind Rows.disconnect (fun _ _ ownerKey inversedKey howning =>
    Rows.safe_disconnect howning ownerKey inversedKey) target

lemma safe_insertLinked (hdata : data.Typed schema misplaced row.sides.target true) :
    SafeOnRows schema misplaced (row.insertLinked data) := by
  refine (Rows.safe_insert hrow.target hdata).bind fun results => ?_
  cases createdKey? results with
  | some target => exact (safe_connectJunction hrow hkind target).bind fun _ => .pure trivial
  | none => exact .pure trivial

include hkeys

lemma safe_updateLinked (target : Value)
    (hdata : data.Typed schema misplaced row.sides.target false) :
    SafeOnRows schema misplaced (row.updateLinked target data) := by
  refine (Rows.safe_update hrow.target (fits_byPrimary hkeys hrow.target target)
    hdata).bind fun results => ?_
  exact (safe_connectJunction hrow hkind target).bind fun _ => .pure trivial

lemma safe_junctionOperation {input : ToManyInput}
    (hinput : OperationTyped schema misplaced row.sides.target input.wheres input.parts) :
    SafeOnRows schema misplaced (row.junctionOperation input) := by
  cases input with
  | connect which =>
    exact safe_find hrow (hinput.wheres which List.mem_cons_self)
      (safe_connectJunction hrow hkind) (.pure trivial)
  | create data => exact safe_insertLinked hrow hkind (hinput.parts (true, data) List.mem_cons_self)
  | update which data =>
    have hdata := hinput.parts (false, data) List.mem_cons_self
    exact safe_find hrow (hinput.wheres which List.mem_cons_self)
      (fun target => safe_updateLinked hkeys hrow hkind target hdata) (.pure trivial)
  | upsert which update create =>
    have hupdate := hinput.parts (false, update) List.mem_cons_self
    have hcreate := hinput.parts (true, create) (List.mem_cons_of_mem _ List.mem_cons_self)
    exact safe_find hrow (hinput.wheres which List.mem_cons_self)
      (fun target => safe_updateLinked hkeys hrow hkind target hupdate)
      (safe_insertLinked hrow hkind hcreate)
  | delete which => exact Rows.safe_delete hrow.target (hinput.wheres which List.mem_cons_self)
  | disconnect which =>
    exact safe_find hrow (hinput.wheres which List.mem_cons_self)
      (safe_disconnectJunction hrow hkind) (.pure trivial)

end Junction

/-! ### Steps -/

section Steps

include hkeys hrow

/-- A row that exists is offered every operation on a relation to one row. Only the relations with a
joining column ask for a value in it. -/
lemma safe_toOneStep {input : ToOneInput} {V : FieldValue Rows → Prop}
    (hone : row.sides.kind.isHasOne = true)
    (hinput : OperationTyped schema misplaced row.sides.target input.wheres input.parts)
    (hV : row.sides.kind.hasJoiningColumn = true → ∀ value : FieldValue Rows,
      value.SafeOnRows schema misplaced → V value) :
    Satisfies (InputStep.Satisfies V (SafeOnRows schema misplaced)) (Failure.Expected misplaced)
      (row.toOneStep input) := by
  have howning (hjoining : row.sides.kind.hasJoiningColumn = true) :
      (row.owningStep input).Satisfies V (SafeOnRows schema misplaced) :=
    (safe_owningStep hkeys hrow hjoining hinput).mono (hV hjoining) fun _ => id
  rw [toOneStep]
  cases hkind : row.sides.kind with
  | manyHasOne => exact howning (by rw [hkind]; rfl)
  | oneHasOneOwning => exact howning (by rw [hkind]; rfl)
  | oneHasOneInverse =>
    refine (hrow.satisfies_pair (by rw [hkind]; rfl)).bind fun paired hpaired => ?_
    have hjoining : paired.kind.hasJoiningColumn = true := by
      rw [hpaired.kind, hkind]
      rfl
    exact (safe_inverseOperation hkeys hrow hpaired hjoining hinput).underPath
  | oneHasMany | manyHasManyOwning | manyHasManyInverse =>
    rw [hkind] at hone
    cases hone

/-- A row is offered every operation on a relation to many rows. -/
lemma safe_toManyOperation {index : Nat} {item : ToManyItem}
    (hmany : row.sides.kind.isHasOne = false)
    (hinput : OperationTyped schema misplaced row.sides.target item.input.wheres item.input.parts) :
    Satisfies (SafeOnRows schema misplaced) (Failure.Expected misplaced)
      (row.toManyOperation index item) := by
  rw [toManyOperation]
  cases hkind : row.sides.kind with
  | oneHasMany =>
    refine (hrow.satisfies_pair (by rw [hkind]; rfl)).bind fun paired hpaired => ?_
    have hjoining : paired.kind.hasJoiningColumn = true := by
      rw [hpaired.kind, hkind]
      rfl
    exact (safe_itemOperation hkeys hrow hpaired hjoining hinput).underPath
  | manyHasManyOwning => exact (safe_junctionOperation hkeys hrow (.inl hkind) hinput).underPath
  | manyHasManyInverse => exact (safe_junctionOperation hkeys hrow (.inr hkind) hinput).underPath
  | manyHasOne | oneHasOneOwning | oneHasOneInverse =>
    rw [hkind] at hmany
    cases hmany

variable {items : List ToManyItem} (hmany : row.sides.kind.isHasOne = false)
  (hitems : ∀ item ∈ items,
    OperationTyped schema misplaced row.sides.target item.input.wheres item.input.parts)
include hmany hitems

lemma safe_toManyOperations :
    Satisfies (fun operations => ∀ operation ∈ operations, SafeOnRows schema misplaced operation)
      (Failure.Expected misplaced) (row.toManyOperations items) :=
  satisfies_toManyFrom (fun item hmem _ =>
    safe_toManyOperation hkeys hrow hmany (hitems item hmem)) 0

/-- A row that is being created is offered to connect and to create targets. -/
lemma safe_createToMany (hplaced : ∀ item ∈ items,
      item.input.operation ≠ .connect ∧ item.input.operation ≠ .create → misplaced) :
    Satisfies (fun operations => ∀ operation ∈ operations, SafeOnRows schema misplaced operation)
      (Failure.Expected misplaced) (row.createToMany items) := by
  unfold createToMany
  split
  · rename_i item hfind
    have hother := List.find?_some hfind
    rw [Bool.and_eq_true_iff, decide_eq_true_iff, decide_eq_true_iff] at hother
    exact hplaced item (List.mem_of_find?_eq_some hfind) hother
  · exact safe_toManyOperations hkeys hrow hmany hitems

end Steps

/-! ### Rows that are being created -/

section Creating

variable (hkind : row.sides.kind = .oneHasOneInverse)
include hkeys hrow hkind

lemma safe_connectInverse (hwhich : which.Fits schema row.sides.target) :
    SafeOnRows schema misplaced (row.connectInverse which) := by
  have hpair : Satisfies (row.sides.Pairs schema) (Failure.Expected misplaced) row.sides.pair :=
    hrow.satisfies_pair (by rw [hkind]; rfl)
  refine Returns.bind (.liftExcept hpair) fun paired hpaired => ?_
  have hjoining : paired.kind.hasJoiningColumn = true := by
    rw [hpaired.kind, hkind]
    rfl
  obtain ⟨column, hcolumn⟩ := Entity.exists_columnName hpaired.relation hjoining
  refine (Rows.safe_primaryValue hrow.target hwhich).bind fun found => ?_
  cases found with
  | none => exact .pure trivial
  | some target =>
    have htarget : (row.targetKey target).Fits schema row.sides.target :=
      fits_byPrimary hkeys hrow.target target
    refine (Rows.safe_selectField hrow.target htarget hcolumn).bind fun previous => ?_
    refine .ite (fun _ => .pure trivial) fun _ => ?_
    refine (Rows.safe_update hrow.target htarget
      (typed_linked hpaired hjoining Data.typed_empty)).bind fun results => ?_
    split
    · have horphan (orphan : Value) := fits_byPrimary hkeys hrow.entity orphan
      refine Returns.bind (.note _) fun _ _ => ?_
      exact (Rows.safe_delete hrow.entity (horphan _)).bind fun removed => .pure trivial
    · exact .pure trivial

lemma safe_createToOne {input : ToOneInput}
    (hinput : OperationTyped schema misplaced row.sides.target input.wheres input.parts)
    (hplaced : input.operation ≠ .connect ∧ input.operation ≠ .create → misplaced) :
    Satisfies (SafeOnRows schema misplaced) (Failure.Expected misplaced)
      (row.createToOne input) := by
  unfold createToOne
  rw [hkind]
  cases input with
  | connect which =>
    exact (safe_connectInverse hkeys hrow hkind (hinput.wheres which List.mem_cons_self)).underPath
  | create data =>
    refine (hrow.satisfies_pair (by rw [hkind]; rfl)).bind fun paired hpaired => ?_
    have hjoining : paired.kind.hasJoiningColumn = true := by
      rw [hpaired.kind, hkind]
      rfl
    exact (safe_insert_linked hrow hpaired hjoining
      (hinput.parts (true, data) List.mem_cons_self)).underPath
  | update | upsert | disconnect | delete => exact hplaced ⟨nofun, nofun⟩

end Creating

end RelatedRow

lemma safe_createColumn (hkeys : schema.KeysAreColumns) {sides : RelationSides}
    (hsides : sides.Typed schema) (hkind : sides.kind.hasJoiningColumn = true) {input : ToOneInput}
    (hinput : OperationTyped schema misplaced sides.target input.wheres input.parts)
    (hplaced : input.operation ≠ .connect ∧ input.operation ≠ .create → misplaced) :
    Satisfies (FieldValue.SafeOnRows schema misplaced) (Failure.Expected misplaced)
      (createColumn sides input) := by
  unfold createColumn
  rw [hkind]
  cases input with
  | connect which =>
    exact safe_connectOwning hsides hkeys (hinput.wheres which List.mem_cons_self) none
  | create data => exact safe_createOwning hsides (hinput.parts (true, data) List.mem_cons_self)
  | update | upsert | disconnect | delete => exact hplaced ⟨nofun, nofun⟩

/-! ### Plans -/

/-- What waits for the key of a new row is typed, and is offered to a row that is being created. -/
def Pending.Typed (schema : Schema) (misplaced : Prop) : Pending → Prop
  | one sides input =>
    sides.Typed schema ∧ sides.kind = .oneHasOneInverse ∧
      OperationTyped schema misplaced sides.target input.wheres input.parts ∧
      (input.operation ≠ .connect ∧ input.operation ≠ .create → misplaced)
  | many sides items =>
    sides.Typed schema ∧ sides.kind.isHasOne = false ∧
      (∀ item ∈ items,
        OperationTyped schema misplaced sides.target item.input.wheres item.input.parts) ∧
      ∀ item ∈ items,
        item.input.operation ≠ .connect ∧ item.input.operation ≠ .create → misplaced

/-- A value that has a column to go to and fails only as expected. -/
def Placed (schema : Schema) (misplaced : Prop) (entity : Entity)
    (entry : String × FieldValue Rows) : Prop :=
  (∃ column, entity.columnName entry.1 = .ok column) ∧ entry.2.SafeOnRows schema misplaced

lemma RelationKind.eq_oneHasOneInverse {kind : RelationKind} (hone : kind.isHasOne = true)
    (hjoining : ¬ kind.hasJoiningColumn = true) : kind = .oneHasOneInverse := by
  cases kind with
  | oneHasOneInverse => rfl
  | manyHasOne | oneHasOneOwning => exact absurd rfl hjoining
  | oneHasMany | manyHasManyOwning | manyHasManyInverse => cases hone

section Plans

variable (hs : schema.WellFormed) (hentity : schema.Declares entity) {creates : Bool}
  (hdata : data.Typed schema misplaced entity creates)

include hdata in
lemma placed_value {value : Value} (hmem : (field, .value value) ∈ data.fields) :
    Placed schema misplaced entity (field, .value value) := by
  cases hdata.fits.fields _ hmem with
  | value hcolumn => exact ⟨⟨_, hcolumn⟩, trivial⟩

include hs hentity hdata

/-- The sides of a relation to one row, as the data asks for an operation on it. -/
lemma exists_sides_of_one {input : ToOneInput} (hmem : (field, .one input) ∈ data.fields) :
    ∃ sides, RelationSides.ofField schema entity field = .ok sides ∧ sides.Typed schema ∧
      entity.relation field = .ok sides.relation ∧ sides.kind.isHasOne = true ∧
      OperationTyped schema misplaced sides.target input.wheres input.parts := by
  cases hdata.fits.fields _ hmem with
  | one hrelation hkind htarget hwheres hparts =>
    obtain ⟨paired, hsides, htyped⟩ := RelationSides.typed_ofField hs hentity hrelation htarget
    exact ⟨_, hsides, htyped, hrelation, hkind, hwheres, fun part hpart =>
      ⟨hparts part hpart, fun h => hdata.misplaces (.inside hmem hpart h)⟩⟩

/-- The sides of a relation to many rows, as the data asks for operations on it. -/
lemma exists_sides_of_many {items : List ToManyItem}
    (hmem : (field, .many items) ∈ data.fields) :
    ∃ sides, RelationSides.ofField schema entity field = .ok sides ∧ sides.Typed schema ∧
      sides.kind.isHasOne = false ∧ ∀ item ∈ items,
        OperationTyped schema misplaced sides.target item.input.wheres item.input.parts := by
  cases hdata.fits.fields _ hmem with
  | many hrelation hkind htarget hwheres hparts =>
    obtain ⟨paired, hsides, htyped⟩ := RelationSides.typed_ofField hs hentity hrelation htarget
    refine ⟨_, hsides, htyped, hkind, fun item hitem => ⟨hwheres item hitem, fun part hpart => ?_⟩⟩
    have hinside : part ∈ (FieldInput.many items).parts :=
      List.mem_flatMap.mpr ⟨item, hitem, hpart⟩
    exact ⟨hparts item hitem part hpart, fun h => hdata.misplaces (.inside hmem hinside h)⟩

end Plans

section Plans

variable (hs : schema.WellFormed) (hkeys : schema.KeysAreColumns)
  (hentity : schema.Declares entity)
include hs hkeys hentity

/-- The data of a new row is planned unless it misplaces an operation. -/
lemma typed_planInsert (hdata : data.Typed schema misplaced entity true) :
    Satisfies (fun plan => (∀ entry ∈ plan.1, Placed schema misplaced entity entry) ∧
      ∀ waiting ∈ plan.2, waiting.Typed schema misplaced) (Failure.Expected misplaced)
      (planInsert schema entity data.fields) := by
  refine satisfies_planInsert (fun _ _ => placed_value hdata) (fun field input hmem => ?_)
    fun field items hmem => ?_
  · obtain ⟨sides, hsides, htyped, hrelation, hone, hinput⟩ :=
      exists_sides_of_one hs hentity hdata hmem
    have hplaced (hother : input.operation ≠ .connect ∧ input.operation ≠ .create) : misplaced :=
      hdata.misplaces (.here hmem List.mem_cons_self hother)
    rw [hsides]
    dsimp only [Satisfies]
    split
    · rename_i hjoining
      exact (safe_createColumn hkeys htyped hjoining hinput hplaced).mono
        (fun value hvalue => ⟨Entity.exists_columnName hrelation hjoining, hvalue⟩) fun _ => id
    · exact ⟨htyped, RelationKind.eq_oneHasOneInverse hone ‹_›, hinput, hplaced⟩
  · obtain ⟨sides, hsides, htyped, hmany, hitems⟩ := exists_sides_of_many hs hentity hdata hmem
    rw [hsides]
    exact ⟨htyped, hmany, hitems, fun item hitem hother =>
      hdata.misplaces (.here hmem (List.mem_map.mpr ⟨item, hitem, rfl⟩) hother)⟩

/-- The data for an existing row is always planned. -/
lemma typed_planUpdate (hdata : data.Typed schema misplaced entity false) (primary : Value) :
    Satisfies (fun plan => (∀ entry ∈ plan.1, Placed schema misplaced entity entry) ∧
      ∀ operation ∈ plan.2, SafeOnRows schema misplaced operation)
      (Failure.Expected misplaced) (planUpdate schema entity primary data.fields) := by
  refine satisfies_planUpdate (fun _ _ => placed_value hdata) (fun field input hmem => ?_)
    fun field items hmem => ?_
  · obtain ⟨sides, hsides, htyped, hrelation, hone, hinput⟩ :=
      exists_sides_of_one hs hentity hdata hmem
    rw [hsides]
    exact RelatedRow.safe_toOneStep hkeys htyped hone hinput fun hjoining value hvalue =>
      ⟨Entity.exists_columnName hrelation hjoining, hvalue⟩
  · obtain ⟨sides, hsides, htyped, hmany, hitems⟩ := exists_sides_of_many hs hentity hdata hmem
    rw [hsides]
    exact RelatedRow.safe_toManyOperations hkeys htyped hmany hitems

omit hs hentity in
lemma typed_afterInsert {primary : Value} {pending : List Pending}
    (h : ∀ waiting ∈ pending, waiting.Typed schema misplaced) :
    Satisfies (fun operations => ∀ operation ∈ operations, SafeOnRows schema misplaced operation)
      (Failure.Expected misplaced) (afterInsert primary pending) := by
  refine satisfies_afterInsert (fun sides input hmem => ?_) fun sides items hmem => ?_
  · obtain ⟨hsides, hkind, hinput, hplaced⟩ := h _ hmem
    exact RelatedRow.safe_createToOne hkeys hsides hkind hinput hplaced
  · obtain ⟨hsides, hmany, hitems, hplaced⟩ := h _ hmem
    exact RelatedRow.safe_createToMany hkeys hsides hmany hitems hplaced

end Plans

end Mutation

end EntityGraph
