import EntityGraph.Proofs.Data.Fitting
import EntityGraph.Proofs.Mutation.OwnResult
/-!
# Paths to inputs

A path goes through the inputs of some data from the outside in, a field at a time. Operations on a
relation report what leads on from them: into the data given inside them, or into data of their own,
since some of them write a further row and say with data what to do with it.
-/
namespace EntityGraph

open Mutation

/-- Where an input comes from: from the data of the write, or from an operation on a relation. -/
inductive Origin where
  | given
  | added

/-- The data for a further row that an operation on a has-one relation brings along. -/
inductive ToOneInput.Brings (sides : RelationSides) : ToOneInput → Entity → Data → Prop
  /-- The row that claims a target loses it. -/
  | claim {which : UniqueWhere} (hkind : sides.kind = .oneHasOneOwning) :
      Brings sides (.connect which) sides.entity (disconnecting sides.relation.name)
  /-- The target of an inverse relation connects to the row from its own side. -/
  | pair {which : UniqueWhere} {paired : Relation} {primary : Value}
      (hkind : sides.kind = .oneHasOneInverse) (hpaired : sides.paired = some paired) :
      Brings sides (.connect which) sides.target
        (Data.empty.withOne paired.name (.connect (byPrimary sides.entity primary)))
  /-- The target before makes way for the one that is created. -/
  | replace {data : Data} {paired : Relation} (hkind : sides.kind = .oneHasOneInverse)
      (hpaired : sides.paired = some paired) :
      Brings sides (.create data) sides.target (disconnecting paired.name)
  | part {paired : Relation} (hkind : sides.kind = .oneHasOneInverse)
      (hpaired : sides.paired = some paired) :
      Brings sides .disconnect sides.target (disconnecting paired.name)

/-- The data for a further row that an operation on a to-many relation brings along. -/
inductive ToManyInput.Brings (sides : RelationSides) : ToManyInput → Entity → Data → Prop
  | part {which : UniqueWhere} {paired : Relation} (hkind : sides.kind = .oneHasMany)
      (hpaired : sides.paired = some paired) :
      Brings sides (.disconnect which) sides.target (disconnecting paired.name)

namespace Data

/-- An input of the data and the segments that stand for it: the field of its relation and, if that
leads to many rows, the place and the label of the item. With it come the data given inside, for the
target of the relation, and the data that it brings along. -/
inductive Input (schema : Schema) (entity : Entity) (data : Data) :
    Path → RelationSides → List (Bool × Data) → (Entity → Data → Prop) → Prop
  | one {field : String} {input : ToOneInput} {sides : RelationSides}
      (hfield : (field, .one input) ∈ data.fields)
      (hsides : RelationSides.ofField schema entity field = .ok sides) :
      Input schema entity data [.field field] sides input.parts (input.Brings sides)
  | item {field : String} {items : List ToManyItem} {item : ToManyItem} {index : Nat}
      {sides : RelationSides} (hfield : (field, .many items) ∈ data.fields)
      (hsides : RelationSides.ofField schema entity field = .ok sides)
      (hitem : items[index]? = some item) :
      Input schema entity data [.field field, .index index item.label] sides item.input.parts
        (item.input.Brings sides)

/-- The path leads to an input of the data, or to the data itself if it is empty. -/
inductive Leads (schema : Schema) : Origin → Entity → Data → Path → Prop
  | root {entity : Entity} {data : Data} : Leads schema .given entity data []
  | input {entity : Entity} {data : Data} {segments : Path} {sides : RelationSides}
      {parts : List (Bool × Data)} {brings : Entity → Data → Prop}
      (hinput : Input schema entity data segments sides parts brings) :
      Leads schema .given entity data segments
  | inside {origin : Origin} {entity : Entity} {data : Data} {segments path : Path}
      {sides : RelationSides} {parts : List (Bool × Data)} {brings : Entity → Data → Prop}
      {part : Bool × Data} (hinput : Input schema entity data segments sides parts brings)
      (hpart : part ∈ parts) (hpath : Leads schema origin sides.target part.2 path) :
      Leads schema origin entity data (segments ++ path)
  | through {origin : Origin} {entity owner : Entity} {data brought : Data} {segments path : Path}
      {segment : PathSegment} {sides : RelationSides} {parts : List (Bool × Data)}
      {brings : Entity → Data → Prop}
      (hinput : Input schema entity data segments sides parts brings)
      (hbrings : brings owner brought)
      (hpath : Leads schema origin owner brought (segment :: path)) :
      Leads schema .added entity data (segments ++ segment :: path)

/-- Some operation in the data brings data for a further row along. -/
inductive Brings (schema : Schema) : Entity → Data → Prop
  | here {entity owner : Entity} {data brought : Data} {segments : Path} {sides : RelationSides}
      {parts : List (Bool × Data)} {brings : Entity → Data → Prop}
      (hinput : Input schema entity data segments sides parts brings)
      (hbrings : brings owner brought) : Brings schema entity data
  | inside {entity : Entity} {data : Data} {segments : Path} {sides : RelationSides}
      {parts : List (Bool × Data)} {brings : Entity → Data → Prop} {part : Bool × Data}
      (hinput : Input schema entity data segments sides parts brings) (hpart : part ∈ parts)
      (hbrings : Brings schema sides.target part.2) : Brings schema entity data

/-- Only what an operation brings along is not given. -/
lemma Leads.brings {schema : Schema} {entity : Entity} {data : Data} {path : Path}
    (h : data.Leads schema .added entity path) : data.Brings schema entity := by
  generalize horigin : Origin.added = origin at h
  induction h with
  | root => cases horigin
  | input => cases horigin
  | inside hinput hpart _ ih => exact .inside hinput hpart (ih horigin)
  | through hinput hbrings => exact .here hinput hbrings

/-- The path of the result leads to an input. -/
def Led (schema : Schema) (entity : Entity) (data : Data) (result : Result) : Prop :=
  ∃ origin, data.Leads schema origin entity result.path

end Data

namespace Mutation

variable {schema : Schema} {entity : Entity} {data : Data} {sides : RelationSides}
  {segments : Path} {parts : List (Bool × Data)} {brings : Entity → Data → Prop}
  {result : Result}

/-- The result of an operation on a relation is about the operation itself, or its path leads to an
input of the data given inside the operation or brought along with it. -/
def LeadsOn (schema : Schema) (target : Entity) (parts : List (Bool × Data))
    (brings : Entity → Data → Prop) (result : Result) : Prop :=
  result.path = [] ∨ (∃ part ∈ parts, part.2.Led schema target result) ∨
    ∃ owner brought, brings owner brought ∧ brought.Led schema owner result

lemma led_of_root (h : result.path = []) : data.Led schema entity result :=
  ⟨.given, h ▸ .root⟩

/-- What an operation reports leads on from its input. -/
lemma LeadsOn.under (h : LeadsOn schema sides.target parts brings result)
    (hinput : data.Input schema entity segments sides parts brings) :
    data.Led schema entity (result.under segments) := by
  show ∃ origin, data.Leads schema origin entity (segments ++ result.path)
  obtain hroot | ⟨part, hpart, origin, hleads⟩ | ⟨owner, brought, hbrings, origin, hleads⟩ := h
  · rw [hroot, List.append_nil]
    exact ⟨.given, .input hinput⟩
  · exact ⟨origin, .inside hinput hpart hleads⟩
  · cases hpath : result.path with
    | nil =>
      rw [List.append_nil]
      exact ⟨.given, .input hinput⟩
    | cons segment rest => exact ⟨.added, .through hinput hbrings (hpath ▸ hleads)⟩

/-- Data that only points at a row asks for nothing that it did not ask for before. -/
lemma led_of_withValue {name : String} {value : Value}
    (h : (data.withValue name value).Led schema entity result) : data.Led schema entity result := by
  have hinput {segments : Path} {sides : RelationSides} {parts : List (Bool × Data)}
      {brings : Entity → Data → Prop}
      (h : (data.withValue name value).Input schema entity segments sides parts brings) :
      data.Input schema entity segments sides parts brings := by
    cases h with
    | one hfield hsides =>
      obtain heq | hmem := Table.mem_put hfield
      · cases heq
      · exact .one hmem hsides
    | item hfield hsides hitem =>
      obtain heq | hmem := Table.mem_put hfield
      · cases heq
      · exact .item hmem hsides hitem
  obtain ⟨origin, h⟩ := h
  refine ⟨origin, ?_⟩
  generalize result.path = path at h ⊢
  cases h with
  | root => exact .root
  | input h => exact .input (hinput h)
  | inside h hpart hpath => exact .inside (hinput h) hpart hpath
  | through h hbrings hpath => exact .through (hinput h) hbrings hpath

/-- Data without inputs leads nowhere. -/
lemma root_of_led_empty (h : Data.empty.Led schema entity result) : result.path = [] := by
  have hinput {segments : Path} {sides : RelationSides} {parts : List (Bool × Data)}
      {brings : Entity → Data → Prop} :
      ¬ Data.empty.Input schema entity segments sides parts brings := by
    rintro (⟨hfield⟩ | ⟨hfield⟩)
    · exact absurd hfield List.not_mem_nil
    · exact absurd hfield List.not_mem_nil
  obtain ⟨origin, h⟩ := h
  generalize result.path = path at h ⊢
  cases h with
  | root => rfl
  | input h => exact absurd h hinput
  | inside h => exact absurd h hinput
  | through h => exact absurd h hinput

/-! ### Operations on rows -/

/-- What the operation reports leads to an input of its data. -/
def RowRequest.Locates (schema : Schema) : (request : RowRequest) → request.Reply → Prop
  | insert entity data, reply =>
    Satisfies (fun results => ∀ result ∈ results, data.Led schema entity result) (fun _ => True)
      reply
  | update entity _ data, reply =>
    Satisfies (fun results => ∀ result ∈ results, data.Led schema entity result) (fun _ => True)
      reply
  | delete .., reply | connect .., reply | disconnect .., reply =>
    Satisfies (fun results => ∀ result ∈ results, result.path = []) (fun _ => True) reply
  | selectField .., _ | primaryValue .., _ => True

/-- Data may be written for rows of entities whose fields have their names. -/
def RowRequest.Named : RowRequest → Prop
  | insert entity _ | update entity .. => entity.WellFormed
  | _ => True

def pathContract (schema : Schema) : Contract Rows (Program.Exchange Effect) :=
  ⟨RowRequest.Named, fun request _ reply => request.Locates schema reply⟩

abbrev LeadingOn (schema : Schema) (target : Entity) (parts : List (Bool × Data))
    (brings : Entity → Data → Prop) (operation : Action Rows (List Result)) : Prop :=
  Yields (pathContract schema) (LeadsOn schema target parts brings) (fun _ => True) operation

abbrev ResolvesLeading (schema : Schema) (target : Entity) (parts : List (Bool × Data))
    (brings : Entity → Data → Prop) (resolve : Action Rows (Resolved Rows)) : Prop :=
  Returns (pathContract schema)
    (Resolved.Yields (pathContract schema) (LeadsOn schema target parts brings) fun _ => True)
    (fun _ => True) resolve

lemma Failure.path_of_result? {failure : Failure} (h : failure.result? = some result) :
    result.path = [] := by
  obtain ⟨outcome, -, rfl⟩ := Option.map_eq_some_iff.mp h
  rfl

lemma rescued_of_root {E : Failure → Prop} {R : Result → Prop}
    (h : ∀ result, result.path = [] → R result) : Rescued E R :=
  fun _ result _ hresult => h result (Failure.path_of_result? hresult)

section Inputs

variable (hinput : data.Input schema entity segments sides parts brings)
include hinput

lemma rescued_led : Rescued (fun _ => True) fun result =>
    data.Led schema entity (result.under segments) :=
  rescued_of_root fun _ hroot => LeadsOn.under (.inl hroot) hinput

lemma led_underPath {operation : Action Rows (List Result)}
    (h : LeadingOn schema sides.target parts brings operation) :
    Yields (pathContract schema) (data.Led schema entity) (Fatally fun _ => True)
      (underPath segments operation) :=
  .underPath (Returns.mono h (fun _ hresults result hmem => (hresults result hmem).under hinput)
    fun _ => id) (rescued_led hinput)

lemma led_deferUnderPath {resolve : Action Rows (Resolved Rows)}
    (h : ResolvesLeading schema sides.target parts brings resolve) :
    (deferUnderPath segments resolve).Yields (pathContract schema) (data.Led schema entity)
      (Fatally fun _ => True) := by
  refine FieldValue.yields_deferUnderPath (Returns.mono h (fun resolved hresolved => ?_)
    fun _ => id) (rescued_led hinput)
  refine ⟨fun result hmem => (hresolved.1 result hmem).under hinput, fun operation hmem => ?_⟩
  exact (hresolved.2 operation hmem).mono
    (fun _ hresults result hmem => (hresults result hmem).under hinput) fun _ => id

end Inputs

namespace Rows

variable (hentity : entity.WellFormed)

include hentity in
lemma led_insert (data : Data) : Yields (pathContract schema) (data.Led schema entity)
    (fun _ => True) (insert entity data) := ⟨hentity, fun _ _ => id⟩

include hentity in
lemma led_update (which : UniqueWhere) (data : Data) : Yields (pathContract schema)
    (data.Led schema entity) (fun _ => True) (update entity which data) := ⟨hentity, fun _ _ => id⟩

lemma root_delete (which : UniqueWhere) : Yields (pathContract schema)
    (fun result => result.path = []) (fun _ => True) (delete entity which) :=
  ⟨trivial, fun _ _ => id⟩

lemma root_connect (relation : Relation) (ownerKey inversedKey : Value) :
    Yields (pathContract schema) (fun result => result.path = []) (fun _ => True)
      (connect entity relation ownerKey inversedKey) := ⟨trivial, fun _ _ => id⟩

lemma root_disconnect (relation : Relation) (ownerKey inversedKey : Value) :
    Yields (pathContract schema) (fun result => result.path = []) (fun _ => True)
      (disconnect entity relation ownerKey inversedKey) := ⟨trivial, fun _ _ => id⟩

lemma returns_selectField (which : UniqueWhere) (field : String) :
    Returns (pathContract schema) (fun _ => True) (fun _ => True)
      (selectField entity which field) := ⟨trivial, fun _ reply _ => satisfies_true reply⟩

lemma returns_primaryValue (which : UniqueWhere) :
    Returns (pathContract schema) (fun _ => True) (fun _ => True) (primaryValue entity which) :=
  ⟨trivial, fun _ reply _ => satisfies_true reply⟩

end Rows

/-! ### Owning has-one relations -/

section Operations

variable {which : UniqueWhere} {target : Entity} {operation : Action Rows (List Result)}

lemma leadingOn_of_root
    (h : Yields (pathContract schema) (fun result => result.path = []) (fun _ => True) operation) :
    LeadingOn schema target parts brings operation :=
  Returns.mono h (fun _ hresults result hmem => .inl (hresults result hmem)) fun _ => id

lemma leadingOn_of_part {part : Bool × Data} (hpart : part ∈ parts)
    (h : Yields (pathContract schema) (part.2.Led schema target) (fun _ => True) operation) :
    LeadingOn schema target parts brings operation :=
  Returns.mono h (fun _ hresults result hmem => .inr (.inl ⟨part, hpart, hresults result hmem⟩))
    fun _ => id

lemma leadingOn_of_brought {owner : Entity} {brought : Data} (hbrings : brings owner brought)
    (h : Yields (pathContract schema) (brought.Led schema owner) (fun _ => True) operation) :
    LeadingOn schema target parts brings operation :=
  Returns.mono h (fun _ hresults result hmem =>
    .inr (.inr ⟨owner, brought, hbrings, hresults result hmem⟩)) fun _ => id

lemma leadingOn_pure_root {results : List Result} (h : ∀ result ∈ results, result.path = []) :
    LeadingOn schema target parts brings (pure results) := leadingOn_of_root (.pure h)

lemma leadingOn_missing : LeadingOn schema target parts brings (pure (missing which)) :=
  leadingOn_pure_root (List.forall_mem_singleton.mpr rfl)

lemma LeadingOn.bind {next : List Result → Action Rows (List Result)}
    (h : LeadingOn schema target parts brings operation)
    (hnext : ∀ results, (∀ result ∈ results, LeadsOn schema target parts brings result) →
      LeadingOn schema target parts brings (next results)) :
    LeadingOn schema target parts brings (operation >>= next) := Returns.bind h hnext

end Operations

section Owning

variable {which : UniqueWhere}

/-- What a row without anything for after its statement is resolved to. -/
lemma resolvesLeading_pure {target : Entity} {value : Option Value} {results : List Result}
    (h : ∀ result ∈ results, LeadsOn schema target parts brings result) :
    ResolvesLeading schema target parts brings (pure ⟨value, results, none⟩) :=
  .pure ⟨h, by rintro _ ⟨⟩⟩

lemma leading_connectOwning (hentity : sides.entity.WellFormed) (row : Option Value)
    (hinput : data.Input schema entity sides.path sides (ToOneInput.connect which).parts
      ((ToOneInput.connect which).Brings sides)) :
    (connectOwning sides which row).Yields (pathContract schema) (data.Led schema entity)
      (Fatally fun _ => True) := by
  refine led_deferUnderPath hinput ((Rows.returns_primaryValue which).bind fun found _ => ?_)
  cases found with
  | none => exact resolvesLeading_pure (List.forall_mem_singleton.mpr (.inl rfl))
  | some target =>
    have hvalue : ResolvesLeading schema sides.target (ToOneInput.connect which).parts
        ((ToOneInput.connect which).Brings sides) (pure (.ofValue target)) :=
      resolvesLeading_pure (by simp)
    dsimp only
    refine .ite (fun _ => hvalue) fun hkind => ?_
    rw [not_not] at hkind
    refine (Rows.returns_primaryValue _).bind fun claiming _ => ?_
    cases claiming with
    | none => exact hvalue
    | some owner =>
      dsimp only
      refine .ite (fun _ => resolvesLeading_pure (by simp)) fun _ => ?_
      have hclaim : LeadingOn schema sides.target (ToOneInput.connect which).parts
          ((ToOneInput.connect which).Brings sides) _ :=
        leadingOn_of_brought (.claim hkind)
          (Rows.led_update hentity (byPrimary sides.entity owner) _)
      exact Returns.bind hclaim fun results hresults => resolvesLeading_pure hresults

lemma leading_insertTarget {created : Data} (htarget : sides.target.WellFormed)
    (hpart : (true, created) ∈ parts) :
    ResolvesLeading schema sides.target parts brings (insertTarget sides created) :=
  Returns.bind (leadingOn_of_part hpart (Rows.led_insert htarget created)) fun _ hresults =>
    resolvesLeading_pure hresults

lemma leading_createColumn (hsides : sides.Within Entity.WellFormed) {input : ToOneInput}
    (hinput : data.Input schema entity sides.path sides input.parts (input.Brings sides)) :
    Satisfies (fun column => column.Yields (pathContract schema) (data.Led schema entity)
      (Fatally fun _ => True)) (fun _ => True) (createColumn sides input) := by
  unfold createColumn
  split
  · exact leading_connectOwning hsides.entity none hinput
  · exact led_deferUnderPath hinput (leading_insertTarget hsides.target List.mem_cons_self)
  · trivial

end Owning

namespace RelatedRow

variable {row : RelatedRow} {paired : Relation}

lemma returns_currentTarget : Returns (pathContract schema) (fun _ => True) (fun _ => True)
    row.currentTarget := Rows.returns_selectField row.key _

lemma leading_updateTarget (htarget : row.sides.target.WellFormed) {changes : Data}
    (hpart : (false, changes) ∈ parts) :
    LeadingOn schema row.sides.target parts brings (row.updateTarget changes) := by
  refine returns_currentTarget.bind fun found _ => ?_
  cases found with
  | some target => exact leadingOn_of_part hpart (Rows.led_update htarget _ changes)
  | none => exact leadingOn_pure_root (List.forall_mem_singleton.mpr rfl)

lemma leading_upsertTarget (htarget : row.sides.target.WellFormed) {create update : Data}
    (hcreate : (true, create) ∈ parts) (hupdate : (false, update) ∈ parts) :
    ResolvesLeading schema row.sides.target parts brings (row.upsertTarget create update) := by
  refine returns_currentTarget.bind fun found _ => ?_
  cases found with
  | some target =>
    exact Returns.bind (leadingOn_of_part hupdate (Rows.led_update htarget _ update))
      fun _ hresults => resolvesLeading_pure hresults
  | none => exact leading_insertTarget htarget hcreate

lemma leading_deleteTarget :
    ResolvesLeading schema row.sides.target parts brings row.deleteTarget := by
  refine returns_currentTarget.bind fun found _ => ?_
  cases found with
  | some target =>
    refine .pure ⟨fun _ hmem => absurd hmem List.not_mem_nil, ?_⟩
    rintro _ ⟨⟩
    exact leadingOn_of_root (Rows.root_delete _)
  | none => exact resolvesLeading_pure (List.forall_mem_singleton.mpr (.inl rfl))

section OneRow

variable {input : ToOneInput} (hsides : row.sides.Within Entity.WellFormed)
  (hinput : data.Input schema entity row.sides.path row.sides input.parts
    (input.Brings row.sides))
include hsides hinput

lemma leading_owningStep :
    (row.owningStep input).Satisfies (fun column => column.Yields (pathContract schema)
        (data.Led schema entity) (Fatally fun _ => True))
      (Yields (pathContract schema) (data.Led schema entity) (Fatally fun _ => True)) := by
  have hrefused : Yields (pathContract schema) (data.Led schema entity) (Fatally fun _ => True)
      (underPath row.sides.path (pure [.atRoot (.violation .notNull)])) :=
    led_underPath hinput (leadingOn_pure_root (List.forall_mem_singleton.mpr rfl))
  cases input with
  | connect which => exact leading_connectOwning hsides.entity _ hinput
  | create data =>
    exact led_deferUnderPath hinput (leading_insertTarget hsides.target List.mem_cons_self)
  | update data =>
    exact led_underPath hinput (leading_updateTarget hsides.target List.mem_cons_self)
  | upsert create update =>
    exact led_deferUnderPath hinput (leading_upsertTarget hsides.target List.mem_cons_self
      (List.mem_cons_of_mem _ List.mem_cons_self))
  | delete =>
    rw [owningStep]
    split
    · exact led_deferUnderPath hinput leading_deleteTarget
    · exact hrefused
  | disconnect =>
    rw [owningStep]
    split
    · trivial
    · exact hrefused

omit hinput in
/-- A target that points at the row is inserted for the data of the input. -/
lemma led_insert_linked (created : Data) :
    Yields (pathContract schema) (created.Led schema row.sides.target) (fun _ => True)
      (Rows.insert row.sides.target (row.linked paired created)) :=
  Returns.mono (Rows.led_insert hsides.target _)
    (fun _ hresults result hmem => led_of_withValue (hresults result hmem)) fun _ => id

omit hinput in
/-- A target that is only made to point at the row is reported at the root. -/
lemma root_update_linked (which : UniqueWhere) :
    Yields (pathContract schema) (fun result => result.path = []) (fun _ => True)
      (Rows.update row.sides.target which (row.linked paired .empty)) := by
  have hled : Yields (pathContract schema)
      ((row.linked paired .empty).Led schema row.sides.target) (fun _ => True)
      (Rows.update row.sides.target which (row.linked paired .empty)) :=
    Rows.led_update hsides.target which _
  exact Returns.mono hled (fun _ hresults result hmem =>
    root_of_led_empty (led_of_withValue (hresults result hmem))) fun _ => id

omit hinput in
lemma leading_upsertInverse {which : UniqueWhere} {update create : Data}
    (hcreate : (true, create) ∈ parts) (hupdate : (false, update) ∈ parts) :
    LeadingOn schema row.sides.target parts brings
      (row.upsertInverse paired which update create) := by
  refine LeadingOn.bind (leadingOn_of_part hupdate (Rows.led_update hsides.target which update))
    fun results hresults => ?_
  split
  · rename_i found hfound
    exact .pure (eq_of_foundRow? hfound ▸ hresults)
  · exact leadingOn_of_part hcreate (led_insert_linked hsides create)

omit hinput in
lemma leading_inverseOperation (hkind : row.sides.kind = .oneHasOneInverse)
    (hpaired : row.sides.paired = some paired) :
    LeadingOn schema row.sides.target input.parts (input.Brings row.sides)
      (row.inverseOperation paired input) := by
  cases input with
  | connect which =>
    exact leadingOn_of_brought (.pair hkind hpaired) (Rows.led_update hsides.target which _)
  | create data =>
    refine LeadingOn.bind (leadingOn_of_brought (.replace hkind hpaired)
      (Rows.led_update hsides.target _ _)) fun previous hprevious => ?_
    refine LeadingOn.bind (leadingOn_of_part List.mem_cons_self (led_insert_linked hsides data))
      fun _ hinserted => .pure (List.forall_mem_append.mpr ⟨fun result hmem => ?_, hinserted⟩)
    exact hprevious result (List.mem_filter.mp hmem).1
  | update data =>
    exact leadingOn_of_part List.mem_cons_self (Rows.led_update hsides.target _ data)
  | upsert create update =>
    exact leading_upsertInverse hsides List.mem_cons_self
      (List.mem_cons_of_mem _ List.mem_cons_self)
  | delete => exact leadingOn_of_root (Rows.root_delete _)
  | disconnect =>
    exact leadingOn_of_brought (.part hkind hpaired) (Rows.led_update hsides.target _ _)

/-- The steps of an input on a has-one relation report what leads to an input of the data. -/
lemma leading_toOneStep :
    Satisfies (InputStep.Satisfies (fun column => column.Yields (pathContract schema)
        (data.Led schema entity) (Fatally fun _ => True))
      (Yields (pathContract schema) (data.Led schema entity) (Fatally fun _ => True)))
      (fun _ => True) (row.toOneStep input) := by
  rw [toOneStep]
  split
  · exact leading_owningStep hsides hinput
  · exact leading_owningStep hsides hinput
  · rename_i hkind
    cases hpaired : row.sides.paired with
    | none =>
      rw [RelationSides.pair, hpaired]
      trivial
    | some paired =>
      rw [RelationSides.pair, hpaired]
      exact led_underPath hinput (leading_inverseOperation hsides hkind hpaired)
  · trivial

omit hinput in
lemma leading_connectInverse (which : UniqueWhere) :
    LeadingOn schema row.sides.target parts brings (row.connectInverse which) := by
  refine Returns.bind (.liftExcept (satisfies_true _)) fun paired _ => ?_
  refine (Rows.returns_primaryValue which).bind fun found _ => ?_
  cases found with
  | none => exact leadingOn_missing
  | some target =>
    refine (Rows.returns_selectField _ _).bind fun previous _ => ?_
    refine .ite (fun _ => leadingOn_pure_root (List.forall_mem_singleton.mpr rfl)) fun _ => ?_
    refine LeadingOn.bind (leadingOn_of_root (root_update_linked hsides _))
      fun results hresults => ?_
    split
    · refine Returns.bind (.note _) fun _ _ => ?_
      exact LeadingOn.bind (leadingOn_of_root (Rows.root_delete _)) fun removed hremoved =>
        .pure (List.forall_mem_append.mpr ⟨hresults, hremoved⟩)
    · exact .pure hresults

lemma leading_createToOne :
    Satisfies (Yields (pathContract schema) (data.Led schema entity) (Fatally fun _ => True))
      (fun _ => True) (row.createToOne input) := by
  unfold createToOne
  split
  · exact led_underPath hinput (leading_connectInverse hsides _)
  · refine (satisfies_true _).bind fun paired _ => ?_
    exact led_underPath hinput
      (leadingOn_of_part List.mem_cons_self (led_insert_linked hsides _))
  · trivial

end OneRow

/-! ### To-many relations -/

section ManyRows

variable (hsides : row.sides.Within Entity.WellFormed)
include hsides

lemma leading_itemOperation {input : ToManyInput} (hkind : row.sides.kind = .oneHasMany)
    (hpaired : row.sides.paired = some paired) :
    LeadingOn schema row.sides.target input.parts (input.Brings row.sides)
      (row.itemOperation paired input) := by
  cases input with
  | connect which => exact leadingOn_of_root (root_update_linked hsides which)
  | create data => exact leadingOn_of_part List.mem_cons_self (led_insert_linked hsides data)
  | update which data =>
    exact leadingOn_of_part List.mem_cons_self (Rows.led_update hsides.target _ data)
  | upsert which update create =>
    exact leading_upsertInverse hsides (List.mem_cons_of_mem _ List.mem_cons_self)
      List.mem_cons_self
  | delete which => exact leadingOn_of_root (Rows.root_delete _)
  | disconnect which =>
    exact leadingOn_of_brought (.part hkind hpaired) (Rows.led_update hsides.target _ _)

omit hsides in
lemma leading_connectJunction (target : Value) :
    LeadingOn schema row.sides.target parts brings (row.connectJunction target) := by
  unfold connectJunction
  split
  · exact leadingOn_of_root (Rows.root_connect _ _ _)
  · exact Returns.bind (.liftExcept (satisfies_true _)) fun paired _ =>
      leadingOn_of_root (Rows.root_connect _ _ _)

omit hsides in
lemma leading_disconnectJunction (target : Value) :
    LeadingOn schema row.sides.target parts brings (row.disconnectJunction target) := by
  unfold disconnectJunction
  split
  · exact leadingOn_of_root (Rows.root_disconnect _ _ _)
  · exact Returns.bind (.liftExcept (satisfies_true _)) fun paired _ =>
      leadingOn_of_root (Rows.root_disconnect _ _ _)

lemma leading_insertLinked {created : Data} (hpart : (true, created) ∈ parts) :
    LeadingOn schema row.sides.target parts brings (row.insertLinked created) := by
  refine LeadingOn.bind (leadingOn_of_part hpart (Rows.led_insert hsides.target created))
    fun results hresults => ?_
  split
  · exact LeadingOn.bind (leading_connectJunction _) fun linked hlinked =>
      .pure (List.forall_mem_append.mpr ⟨hresults, hlinked⟩)
  · exact .pure hresults

lemma leading_updateLinked (target : Value) {changes : Data} (hpart : (false, changes) ∈ parts) :
    LeadingOn schema row.sides.target parts brings (row.updateLinked target changes) :=
  LeadingOn.bind (leadingOn_of_part hpart (Rows.led_update hsides.target _ changes))
    fun _ hresults => LeadingOn.bind (leading_connectJunction target) fun _ hlinked =>
      .pure (List.forall_mem_append.mpr ⟨hresults, hlinked⟩)

lemma leading_junctionOperation (input : ToManyInput) :
    LeadingOn schema row.sides.target input.parts (input.Brings row.sides)
      (row.junctionOperation input) := by
  cases input with
  | connect which =>
    refine (Rows.returns_primaryValue which).bind fun found _ => ?_
    cases found with
    | some target => exact leading_connectJunction target
    | none => exact leadingOn_missing
  | create data => exact leading_insertLinked hsides List.mem_cons_self
  | update which data =>
    refine (Rows.returns_primaryValue which).bind fun found _ => ?_
    cases found with
    | some target => exact leading_updateLinked hsides target List.mem_cons_self
    | none => exact leadingOn_missing
  | upsert which update create =>
    refine (Rows.returns_primaryValue which).bind fun found _ => ?_
    cases found with
    | some target => exact leading_updateLinked hsides target List.mem_cons_self
    | none => exact leading_insertLinked hsides (List.mem_cons_of_mem _ List.mem_cons_self)
  | delete which => exact leadingOn_of_root (Rows.root_delete _)
  | disconnect which =>
    refine (Rows.returns_primaryValue which).bind fun found _ => ?_
    cases found with
    | some target => exact leading_disconnectJunction target
    | none => exact leadingOn_missing

variable {items : List ToManyItem}
  (hinput : ∀ index item, items[index]? = some item →
    data.Input schema entity (row.sides.itemPath index item.label) row.sides item.input.parts
      (item.input.Brings row.sides))

lemma leading_toManyOperation {index : Nat} {item : ToManyItem}
    (hinput : data.Input schema entity (row.sides.itemPath index item.label) row.sides
      item.input.parts (item.input.Brings row.sides)) :
    Satisfies (Yields (pathContract schema) (data.Led schema entity) (Fatally fun _ => True))
      (fun _ => True) (row.toManyOperation index item) := by
  rw [toManyOperation]
  split
  · rename_i hkind
    cases hpaired : row.sides.paired with
    | none =>
      rw [RelationSides.pair, hpaired]
      trivial
    | some paired =>
      rw [RelationSides.pair, hpaired]
      exact led_underPath hinput (leading_itemOperation hsides hkind hpaired)
  · exact led_underPath hinput (leading_junctionOperation hsides item.input)
  · exact led_underPath hinput (leading_junctionOperation hsides item.input)
  · trivial

omit hsides in
/-- Every item has its place in the path. -/
lemma satisfies_toManyFrom_index {O : Action Rows (List Result) → Prop} {E : Failure → Prop}
    {index : Nat} (h : ∀ place item, items[place]? = some item →
      Satisfies O E (row.toManyOperation (index + place) item)) :
    Satisfies (fun operations => ∀ operation ∈ operations, O operation) E
      (row.toManyFrom index items) := by
  induction items generalizing index with
  | nil => exact fun _ hmem => absurd hmem List.not_mem_nil
  | cons item rest ih =>
    refine (h 0 item rfl).bind fun operation hoperation => ?_
    refine Satisfies.bind (ih fun place other hother => ?_) fun operations hoperations =>
      List.forall_mem_cons.mpr ⟨hoperation, hoperations⟩
    rw [Nat.add_assoc, Nat.add_comm 1]
    exact h (place + 1) other hother

include hinput

lemma leading_toManyOperations :
    Satisfies (fun operations => ∀ operation ∈ operations,
      Yields (pathContract schema) (data.Led schema entity) (Fatally fun _ => True) operation)
      (fun _ => True) (row.toManyOperations items) := by
  refine satisfies_toManyFrom_index fun place item hitem => ?_
  rw [Nat.zero_add]
  exact leading_toManyOperation hsides (hinput place item hitem)

lemma leading_createToMany :
    Satisfies (fun operations => ∀ operation ∈ operations,
      Yields (pathContract schema) (data.Led schema entity) (Fatally fun _ => True) operation)
      (fun _ => True) (row.createToMany items) := by
  unfold createToMany
  split
  · trivial
  · exact leading_toManyOperations hsides hinput

end ManyRows

end RelatedRow

end Mutation

end EntityGraph
