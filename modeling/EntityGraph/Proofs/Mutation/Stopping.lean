import EntityGraph.Proofs.Mutation.Plans
/-!
# Fatal answers

Whatever the inputs of a row ask for, it goes on with the answers to its operations on rows only as
long as none of them is a fatal failure. The first one ends it, and is what it comes to. In the same
way a fatal error ends a look-up, a deletion and the writing of a junction.
-/
namespace EntityGraph

open Mutation (Action Failure RowRequest Rows Session)

/-- A failure as the answer to an operation on rows. -/
def Mutation.RowRequest.failing : (request : RowRequest) → Failure → request.Reply
  | insert .., failure => .error failure
  | update .., failure => .error failure
  | delete .., failure => .error failure
  | selectField .., failure => .error failure
  | primaryValue .., failure => .error failure
  | connect .., failure => .error failure
  | disconnect .., failure => .error failure

namespace Program

variable {I : Interface} {α β : Type} {P : α → Prop} {Q : β → Prop}
  {ends : Exchange I → Failure → Prop}

/-- An answer that ends the program is what it comes to; what it comes to otherwise has a
property. -/
def Stops (ends : Exchange I → Failure → Prop) (P : α → Prop) :
    Program I (Except Failure α) → Prop
  | .done outcome => ∀ a, outcome = .ok a → P a
  | .note _ rest => rest.Stops ends P
  | .ask request next => ∀ reply,
    (∀ failure, ends ⟨request, reply⟩ failure → next reply = .done (.error failure)) ∧
      (next reply).Stops ends P

lemma Stops.mono {program : Program I (Except Failure α)} (h : program.Stops ends P)
    {P' : α → Prop} (hP : ∀ a, P a → P' a) : program.Stops ends P' := by
  induction program with
  | done outcome => exact fun a ha => hP a (h a ha)
  | note event rest ih => exact ih h
  | ask request next ih => exact fun reply => ⟨(h reply).1, ih reply (h reply).2⟩

lemma Stops.ok_of_reaches {program : Program I (Except Failure α)} (h : program.Stops ends P)
    {trace : List (Exchange I)} {a : α} (hrun : program.Reaches trace (.done (.ok a))) : P a := by
  induction program generalizing trace with
  | done outcome => exact h a (done.inj (done_reaches_iff.mp hrun).2).symm
  | note event rest ih => exact ih h (note_reaches_done_iff.mp hrun)
  | ask request next ih =>
    obtain ⟨reply, tail, htail, -⟩ := ask_reaches_done_iff.mp hrun
    exact ih reply (h reply).2 htail

/-- An answer that ends the program is the last one, and what the program comes to. -/
theorem Stops.of_reaches {program : Program I (Except Failure α)} (h : program.Stops ends P)
    {before after : List (Exchange I)} {exchange : Exchange I} {failure : Failure}
    (hends : ends exchange failure) {outcome : Except Failure α}
    (hrun : program.Reaches (before ++ exchange :: after) (.done outcome)) :
    outcome = .error failure := by
  induction program generalizing before with
  | done own => cases before <;> cases (done_reaches_iff.mp hrun).1
  | note event rest ih => exact ih h (note_reaches_done_iff.mp hrun)
  | ask asked next ih =>
    obtain ⟨reply, tail, htail, heq⟩ := ask_reaches_done_iff.mp hrun
    cases before with
    | nil =>
      obtain ⟨rfl, rfl⟩ := List.cons.inj heq
      rw [(h reply).1 failure hends] at htail
      exact done.inj (done_reaches_iff.mp htail).2
    | cons call rest =>
      obtain ⟨-, rfl⟩ := List.cons.inj heq
      exact ih reply (h reply).2 htail

lemma Stops.of_mem {program : Program I (Except Failure α)} (h : program.Stops ends P)
    {trace : List (Exchange I)} {exchange : Exchange I} (hmem : exchange ∈ trace)
    {failure : Failure} (hends : ends exchange failure) {outcome : Except Failure α}
    (hrun : program.Reaches trace (.done outcome)) : outcome = .error failure := by
  obtain ⟨before, after, rfl⟩ := List.append_of_mem hmem
  exact h.of_reaches hends hrun

/-- What goes on with the outcome must hand on what ends the program. -/
lemma Stops.bind {program : Program I (Except Failure α)} (h : program.Stops ends P)
    {next : Except Failure α → Program I (Except Failure β)}
    (hok : ∀ a, P a → (next (.ok a)).Stops ends Q)
    (hfailed : ∀ failure, (next (.error failure)).Stops ends Q)
    (hends : ∀ exchange failure, ends exchange failure →
      next (.error failure) = .done (.error failure)) : (program >>= next).Stops ends Q := by
  induction program with
  | done outcome =>
    cases outcome with
    | ok a => exact hok a (h a rfl)
    | error failure => exact hfailed failure
  | note event rest ih => exact ih h
  | ask request answered ih =>
    refine fun reply => ⟨fun failure hfailure => ?_, ih reply (h reply).2⟩
    exact (congrArg (Program.bind · next) ((h reply).1 failure hfailure)).trans
      (hends _ failure hfailure)

end Program

namespace Mutation

section Actions

variable {I : Interface} {ends : Program.Exchange I → Failure → Prop} {α β : Type} {P : α → Prop}
  {Q : β → Prop}

/-- What the action comes to without an answer that ends it has a property. -/
abbrev Stops (ends : Program.Exchange I → Failure → Prop) (P : α → Prop) (action : Action I α) :
    Prop := action.run.Stops ends P

namespace Stops

lemma pure {a : α} (h : P a) : Stops ends P (Pure.pure a : Action I α) := by
  rintro _ ⟨⟩
  exact h

lemma bind {action : Action I α} {next : α → Action I β} (haction : Stops ends P action)
    (hnext : ∀ a, P a → Stops ends Q (next a)) : Stops ends Q (action >>= next) := by
  unfold Stops
  rw [ExceptT.run_bind]
  refine Program.Stops.bind haction hnext (fun failure => ?_) fun _ _ _ => rfl
  rintro _ ⟨⟩

/-- What goes on with what was attempted must hand on what ends it. -/
lemma attempt_bind {action : Action I α} {next : Except Failure α → Action I β}
    (haction : Stops ends P action) (hok : ∀ a, P a → Stops ends Q (next (.ok a)))
    (hfailed : ∀ failure, Stops ends Q (next (.error failure)))
    (hends : ∀ exchange failure, ends exchange failure →
      next (.error failure) = liftExcept (.error failure)) :
    Stops ends Q (attempt action >>= next) := by
  have hrun : (attempt action >>= next).run = action.run >>= fun outcome => (next outcome).run := by
    rw [ExceptT.run_bind]
    exact Program.bind_assoc ..
  unfold Stops
  rw [hrun]
  exact Program.Stops.bind haction hok hfailed fun exchange failure hfailure =>
    congrArg ExceptT.run (hends exchange failure hfailure)

lemma ite {condition : Prop} [Decidable condition] {action other : Action I α}
    (haction : Stops ends P action) (hother : Stops ends P other) :
    Stops ends P (if condition then action else other) := by
  split
  · exact haction
  · exact hother

end Stops

/-- An answer that ends the action is what it comes to. -/
abbrev Halting (ends : Program.Exchange I → Failure → Prop) (action : Action I α) : Prop :=
  Stops ends (fun _ => True) action

lemma halting_liftExcept (outcome : Except Failure α) :
    Halting ends (liftExcept outcome : Action I α) := fun _ _ => trivial

lemma halting_note (event : Event) : Halting ends (note event : Action I Unit) := fun _ _ => trivial

end Actions

/-! ### Errors that are fatal -/

/-- A statement was answered with an error that is fatal. -/
def FatalError (exchange : Program.Exchange Effect) (failure : Failure) : Prop :=
  failure.outcome? = none ∧ ∃ e, exchange.error? = some e ∧ failure = .database e

namespace Session

variable {session : Session} {entity : Entity}

lemma halting_logged (text : String) : Halting FatalError (session.logged text) :=
  .ite (halting_note _) (.pure trivial)

lemma halting_query (query : Sql.Query) : Halting FatalError (session.query query) := by
  refine (halting_logged _).bind fun _ _ reply => ⟨?_, fun _ _ => trivial⟩
  rintro _ ⟨-, e, herror, rfl⟩
  cases reply with
  | ok set => cases herror
  | error own =>
    cases herror
    rfl

lemma halting_execute (query : Sql.Query) : Halting FatalError (session.execute query) := by
  refine (halting_logged _).bind fun _ _ reply => ⟨?_, fun _ _ => trivial⟩
  rintro _ ⟨-, e, herror, rfl⟩
  cases reply with
  | ok count => cases herror
  | error own =>
    cases herror
    rfl

lemma halting_command (text : String) : Halting FatalError (session.command text) := by
  refine (halting_logged _).bind fun _ _ reply => ⟨?_, fun _ _ => trivial⟩
  rintro _ ⟨-, e, herror, rfl⟩
  cases reply with
  | ok done => cases herror
  | error own =>
    cases herror
    rfl

lemma halting_permitted (filter : Filter) (operation : AccessOperation) (fields : List String) :
    Halting FatalError (session.permitted entity filter operation fields) := by
  refine Stops.bind (P := fun _ => True) (fun predicate => ⟨?_, fun _ _ => trivial⟩) fun _ _ =>
    halting_liftExcept _
  rintro _ ⟨-, e, ⟨⟩, -⟩

lemma halting_selectColumn (filter : Filter) (field : String) :
    Halting FatalError (session.selectColumn entity filter field) := by
  refine (halting_permitted _ _ _).bind fun tree _ => (halting_liftExcept _).bind fun column _ => ?_
  refine (halting_query _).bind fun set _ => ?_
  split
  · exact .pure trivial
  · exact (halting_liftExcept _).bind fun value _ => .pure trivial

lemma halting_selectField (which : UniqueWhere) (field : String) :
    Halting FatalError (session.selectField entity which field) :=
  (halting_liftExcept _).bind fun _ _ => halting_selectColumn _ _

lemma halting_connect (relation : Relation) (ownerKey inversedKey : Value) :
    Halting FatalError (session.connect entity relation ownerKey inversedKey) :=
  (halting_liftExcept _).bind fun _ _ => (halting_execute _).bind fun _ _ => .pure trivial

lemma halting_disconnect (relation : Relation) (ownerKey inversedKey : Value) :
    Halting FatalError (session.disconnect entity relation ownerKey inversedKey) :=
  (halting_liftExcept _).bind fun _ _ => (halting_execute _).bind fun _ _ => .pure trivial

lemma halting_deleteBatch (filter : Filter) :
    Halting FatalError (session.deleteBatch entity filter) :=
  (halting_permitted _ _ _).bind fun _ _ => (halting_query _).bind fun _ _ => halting_liftExcept _

lemma halting_visitRelation {cascade : Entity → List Value → Action Effect Unit}
    (hcascade : ∀ owner keys, Halting FatalError (cascade owner keys)) (primaries : List Value)
    (owner : Entity) (relation : Relation) :
    Halting FatalError (session.visitRelation cascade entity primaries owner relation) := by
  unfold visitRelation
  split
  · split
    · exact .pure trivial
    · exact (halting_deleteBatch _).bind fun deleted _ => .ite (.pure trivial) (hcascade _ _)
    · refine (halting_permitted _ _ _).bind fun _ _ => (halting_liftExcept _).bind fun _ _ => ?_
      exact (halting_execute _).bind fun _ _ => halting_note _
  · exact halting_liftExcept _

lemma halting_forM {γ : Type} {visit : γ → Action Effect Unit} (items : List γ)
    (h : ∀ item ∈ items, Halting FatalError (visit item)) :
    Halting FatalError (items.forM visit) := by
  induction items with
  | nil => exact .pure trivial
  | cons item rest ih =>
    obtain ⟨hitem, hrest⟩ := List.forall_mem_cons.mp h
    exact Stops.bind hitem fun _ _ => ih hrest

lemma halting_cascade (depth : Nat) (primaries : List Value) :
    Halting FatalError (session.cascade depth entity primaries) := by
  induction depth generalizing entity primaries with
  | zero => exact fun reply => nomatch reply
  | succ depth ih =>
    exact halting_forM _ fun (owner, relation) _ => halting_visitRelation (fun _ _ => ih _) _ _ _

/-- Every statement of a deletion has to succeed for the next one to be sent. -/
lemma halting_deleteWhere (depth : Nat) (filter : Filter) :
    Halting FatalError (session.deleteWhere depth entity filter) := by
  have hclosing (deleted : List Value) : Halting FatalError (do
      session.cascade depth entity deleted
      if session.settings.deferConstraints then
        session.command checkConstraints
      return deleted) :=
    (halting_cascade _ _).bind fun _ _ =>
      .ite ((halting_command _).bind fun _ _ => .pure trivial) (.pure trivial)
  have hbatch : Halting FatalError (do
      let deleted ← session.deleteBatch entity filter
      if deleted.isEmpty then
        throw .denied
      session.cascade depth entity deleted
      if session.settings.deferConstraints then
        session.command checkConstraints
      return deleted) :=
    (halting_deleteBatch _).bind fun deleted _ => .ite (halting_liftExcept _) (hclosing deleted)
  rw [deleteWhere]
  exact .ite ((halting_command _).bind fun _ _ => hbatch) hbatch

/-- A fatal error is what a deletion of a row comes to. -/
lemma halting_deleteRow (depth : Nat) (which : UniqueWhere) :
    Halting FatalError (session.deleteRow depth entity which) := by
  unfold deleteRow
  split
  · exact halting_liftExcept _
  · refine Stops.attempt_bind (halting_deleteWhere _ _) (fun _ _ => .pure trivial)
      (fun failure => halting_liftExcept _) fun _ failure hfailure => ?_
    dsimp only
    rw [Failure.classified, result?_eq_none_iff.mpr hfailure.1]

end Session

/-! ### Answers that are fatal -/

/-- An operation on rows was answered with a failure that is fatal. -/
def FatalAnswer (call : Program.Exchange Rows) (failure : Failure) : Prop :=
  failure.outcome? = none ∧ call.reply = call.request.failing failure

variable {α β : Type} {P : α → Prop} {Q : β → Prop}

/-- A fatal answer ends the action. -/
abbrev Stopping (action : Action Rows α) : Prop := Halting FatalAnswer action

/-! ### Operations on rows -/

namespace Rows

variable (entity : Entity) (which : UniqueWhere) (data : Data)

lemma stopping_insert : Stopping (Rows.insert entity data) :=
  fun _ => ⟨fun _ hfatal => congrArg Program.done hfatal.2, fun _ _ => trivial⟩

lemma stopping_update : Stopping (Rows.update entity which data) :=
  fun _ => ⟨fun _ hfatal => congrArg Program.done hfatal.2, fun _ _ => trivial⟩

lemma stopping_delete : Stopping (Rows.delete entity which) :=
  fun _ => ⟨fun _ hfatal => congrArg Program.done hfatal.2, fun _ _ => trivial⟩

lemma stopping_selectField (field : String) : Stopping (Rows.selectField entity which field) :=
  fun _ => ⟨fun _ hfatal => congrArg Program.done hfatal.2, fun _ _ => trivial⟩

lemma stopping_primaryValue : Stopping (Rows.primaryValue entity which) :=
  fun _ => ⟨fun _ hfatal => congrArg Program.done hfatal.2, fun _ _ => trivial⟩

lemma stopping_connect (relation : Relation) (ownerKey inversedKey : Value) :
    Stopping (Rows.connect entity relation ownerKey inversedKey) :=
  fun _ => ⟨fun _ hfatal => congrArg Program.done hfatal.2, fun _ _ => trivial⟩

lemma stopping_disconnect (relation : Relation) (ownerKey inversedKey : Value) :
    Stopping (Rows.disconnect entity relation ownerKey inversedKey) :=
  fun _ => ⟨fun _ hfatal => congrArg Program.done hfatal.2, fun _ _ => trivial⟩

end Rows

/-! ### Paths -/

/-- What a deferred value leaves to run stops at fatal answers. -/
def Resolved.Stopping (resolved : Resolved Rows) : Prop :=
  ∀ operation ∈ resolved.after, Mutation.Stopping operation

/-- A value that is deferred stops at fatal answers, and so does what it leaves to run. -/
def FieldValue.Stopping : FieldValue Rows → Prop
  | .value _ => True
  | .deferred resolve => Stops FatalAnswer Resolved.Stopping resolve

section Paths

variable {path : Path}

lemma outcomeUnder_fatal {failure : Failure} (h : failure.outcome? = none) :
    outcomeUnder path (.error failure) = .error failure := by
  rw [outcomeUnder, Failure.rescued, result?_eq_none_iff.mpr h]

lemma stopping_underPath {operation : Action Rows (List Result)} (h : Stopping operation) :
    Stopping (underPath path operation) := by
  unfold Stopping Halting Stops
  rw [run_underPath]
  exact Program.Stops.bind h (fun _ _ _ _ => trivial) (fun _ _ _ => trivial)
    fun _ _ hfatal => congrArg Program.done (outcomeUnder_fatal hfatal.1)

lemma Resolved.Stopping.under {resolved : Resolved Rows} (h : resolved.Stopping) (path : Path) :
    (resolved.under path).Stopping := by
  intro operation hmem
  obtain ⟨own, hown, rfl⟩ := Option.map_eq_some_iff.mp hmem
  exact stopping_underPath (h own hown)

lemma stopping_deferUnderPath {resolve : Action Rows (Resolved Rows)}
    (h : Stops FatalAnswer Resolved.Stopping resolve) (path : Path) :
    (deferUnderPath path resolve).Stopping := by
  rw [deferUnderPath_eq]
  refine Program.Stops.bind h (fun resolved hresolved => ?_) (fun failure => ?_)
    fun _ failure hfatal => ?_
  · rintro _ ⟨⟩
    exact hresolved.under path
  · intro resolved hdone
    rw [resolvedUnder, Failure.rescued] at hdone
    split at hdone
    · cases hdone
      exact fun _ hmem => by cases hmem
    · cases hdone
  · rw [resolvedUnder, Failure.rescued, result?_eq_none_iff.mpr hfatal.1]

end Paths

/-! ### Inputs of relations -/

variable {sides : RelationSides}

lemma stops_claimTarget (which : UniqueWhere) (row : Option Value) :
    Stops FatalAnswer Resolved.Stopping (claimTarget sides which row) := by
  have hvalue (resolved : Resolved Rows) (h : resolved.after = none) :
      Stops FatalAnswer Resolved.Stopping (pure resolved) :=
    .pure fun operation hmem => by rw [h] at hmem; cases hmem
  refine (Rows.stopping_primaryValue _ _).bind fun found _ => ?_
  cases found with
  | none => exact hvalue _ rfl
  | some target =>
    refine .ite (hvalue _ rfl) ((Rows.stopping_primaryValue _ _).bind fun claiming _ => ?_)
    cases claiming with
    | none => exact hvalue _ rfl
    | some owner =>
      exact .ite (hvalue _ rfl) ((Rows.stopping_update _ _ _).bind fun _ _ => hvalue _ rfl)

lemma stops_insertTarget (data : Data) :
    Stops FatalAnswer Resolved.Stopping (insertTarget sides data) :=
  (Rows.stopping_insert _ _).bind fun _ _ => .pure fun _ hmem => by cases hmem

namespace RelatedRow

variable {row : RelatedRow}

lemma stops_upsertTarget (create update : Data) :
    Stops FatalAnswer Resolved.Stopping (row.upsertTarget create update) := by
  refine (Rows.stopping_selectField _ _ _).bind fun found _ => ?_
  cases found with
  | some target =>
    exact (Rows.stopping_update _ _ _).bind fun _ _ => .pure fun _ hmem => by cases hmem
  | none => exact stops_insertTarget create

lemma stops_deleteTarget : Stops FatalAnswer Resolved.Stopping row.deleteTarget := by
  refine (Rows.stopping_selectField _ _ _).bind fun found _ => ?_
  cases found with
  | some target =>
    refine .pure fun operation hmem => ?_
    cases hmem
    exact Rows.stopping_delete _ _
  | none => exact .pure fun _ hmem => by cases hmem

lemma stopping_updateTarget (data : Data) : Stopping (row.updateTarget data) := by
  refine (Rows.stopping_selectField _ _ _).bind fun found _ => ?_
  cases found with
  | some target => exact Rows.stopping_update _ _ _
  | none => exact .pure trivial

lemma stopping_owningStep (input : ToOneInput) :
    (row.owningStep input).Satisfies FieldValue.Stopping Stopping := by
  have hrefuse : (refuseNull row.sides.path).Satisfies FieldValue.Stopping Stopping :=
    stopping_underPath (.pure trivial)
  cases input with
  | connect which => exact stopping_deferUnderPath (stops_claimTarget _ _) _
  | create data => exact stopping_deferUnderPath (stops_insertTarget _) _
  | update data => exact stopping_underPath (stopping_updateTarget data)
  | upsert create update => exact stopping_deferUnderPath (stops_upsertTarget create update) _
  | delete =>
    rw [owningStep]
    split
    · exact stopping_deferUnderPath stops_deleteTarget _
    · exact hrefuse
  | disconnect =>
    rw [owningStep]
    split
    · trivial
    · exact hrefuse

variable (paired : Relation)

lemma stopping_replaceInverse (data : Data) : Stopping (row.replaceInverse paired data) :=
  (Rows.stopping_update _ _ _).bind fun _ _ =>
    (Rows.stopping_insert _ _).bind fun _ _ => .pure trivial

lemma stopping_upsertInverse (which : UniqueWhere) (update create : Data) :
    Stopping (row.upsertInverse paired which update create) := by
  refine (Rows.stopping_update _ _ _).bind fun results _ => ?_
  cases foundRow? results with
  | none => exact Rows.stopping_insert _ _
  | some found => exact .pure trivial

lemma stopping_inverseOperation (input : ToOneInput) :
    Stopping (row.inverseOperation paired input) := by
  cases input with
  | connect which => exact Rows.stopping_update _ _ _
  | create data => exact stopping_replaceInverse paired data
  | update data => exact Rows.stopping_update _ _ _
  | upsert create update => exact stopping_upsertInverse paired _ update create
  | delete => exact Rows.stopping_delete _ _
  | disconnect => exact Rows.stopping_update _ _ _

lemma stopping_toOneStep (input : ToOneInput) :
    Satisfies (InputStep.Satisfies FieldValue.Stopping Stopping) (fun _ => True)
      (row.toOneStep input) := by
  rw [toOneStep]
  split
  · exact stopping_owningStep input
  · exact stopping_owningStep input
  · cases row.sides.pair with
    | ok paired => exact stopping_underPath (stopping_inverseOperation paired input)
    | error failure => trivial
  · trivial

lemma stopping_itemOperation (input : ToManyInput) : Stopping (row.itemOperation paired input) := by
  cases input with
  | connect which => exact Rows.stopping_update _ _ _
  | create data => exact Rows.stopping_insert _ _
  | update which data => exact Rows.stopping_update _ _ _
  | upsert which update create => exact stopping_upsertInverse paired _ update create
  | delete which => exact Rows.stopping_delete _ _
  | disconnect which => exact Rows.stopping_update _ _ _

lemma stopping_connectJunction (target : Value) : Stopping (row.connectJunction target) := by
  rw [connectJunction]
  split
  · exact Rows.stopping_connect _ _ _ _
  · exact (halting_liftExcept _).bind fun _ _ => Rows.stopping_connect _ _ _ _

lemma stopping_disconnectJunction (target : Value) : Stopping (row.disconnectJunction target) := by
  rw [disconnectJunction]
  split
  · exact Rows.stopping_disconnect _ _ _ _
  · exact (halting_liftExcept _).bind fun _ _ => Rows.stopping_disconnect _ _ _ _

lemma stopping_insertLinked (data : Data) : Stopping (row.insertLinked data) := by
  refine (Rows.stopping_insert _ _).bind fun results _ => ?_
  cases createdKey? results with
  | some target => exact (stopping_connectJunction target).bind fun _ _ => .pure trivial
  | none => exact .pure trivial

lemma stopping_updateLinked (target : Value) (data : Data) :
    Stopping (row.updateLinked target data) :=
  (Rows.stopping_update _ _ _).bind fun _ _ =>
    (stopping_connectJunction target).bind fun _ _ => .pure trivial

lemma stopping_junctionOperation (input : ToManyInput) :
    Stopping (row.junctionOperation input) := by
  have hfind (which : UniqueWhere) {next : Option Value → Action Rows (List Result)}
      (hmissed : Stopping (next none)) (hfound : ∀ target, Stopping (next (some target))) :
      Stopping (Rows.primaryValue row.sides.target which >>= next) := by
    refine (Rows.stopping_primaryValue _ which).bind fun found _ => ?_
    cases found with
    | none => exact hmissed
    | some target => exact hfound target
  cases input with
  | connect which => exact hfind which (.pure trivial) stopping_connectJunction
  | create data => exact stopping_insertLinked data
  | update which data =>
    exact hfind which (.pure trivial) fun target => stopping_updateLinked target data
  | upsert which update create =>
    exact hfind which (stopping_insertLinked create) fun target =>
      stopping_updateLinked target update
  | delete which => exact Rows.stopping_delete _ _
  | disconnect which => exact hfind which (.pure trivial) stopping_disconnectJunction

lemma stopping_toManyOperation (index : Nat) (item : ToManyItem) :
    Satisfies Stopping (fun _ => True) (row.toManyOperation index item) := by
  rw [toManyOperation]
  split
  · cases row.sides.pair with
    | ok paired => exact stopping_underPath (stopping_itemOperation paired item.input)
    | error failure => trivial
  · exact stopping_underPath (stopping_junctionOperation item.input)
  · exact stopping_underPath (stopping_junctionOperation item.input)
  · trivial

lemma stopping_toManyOperations (items : List ToManyItem) :
    Satisfies (fun operations => ∀ operation ∈ operations, Stopping operation) (fun _ => True)
      (row.toManyOperations items) :=
  satisfies_toManyFrom (fun item _ index => stopping_toManyOperation index item) 0

lemma stopping_connectInverse (which : UniqueWhere) : Stopping (row.connectInverse which) := by
  refine (halting_liftExcept _).bind fun paired _ => ?_
  refine (Rows.stopping_primaryValue _ _).bind fun found _ => ?_
  cases found with
  | none => exact .pure trivial
  | some target =>
    refine (Rows.stopping_selectField _ _ _).bind fun previous _ => .ite (.pure trivial) ?_
    refine (Rows.stopping_update _ _ _).bind fun results _ => ?_
    have hnote (event : Event) : Stopping (note event : Action Rows Unit) := fun _ _ => trivial
    split
    · exact (hnote _).bind fun _ _ => (Rows.stopping_delete _ _).bind fun _ _ => .pure trivial
    · exact .pure trivial

lemma stopping_createToOne (input : ToOneInput) :
    Satisfies Stopping (fun _ => True) (row.createToOne input) := by
  unfold createToOne
  split
  · exact stopping_underPath (stopping_connectInverse _)
  · cases row.sides.pair with
    | ok paired => exact stopping_underPath (Rows.stopping_insert _ _)
    | error failure => trivial
  · trivial

lemma stopping_createToMany (items : List ToManyItem) :
    Satisfies (fun operations => ∀ operation ∈ operations, Stopping operation) (fun _ => True)
      (row.createToMany items) := by
  rw [createToMany]
  split
  · trivial
  · exact stopping_toManyOperations items

end RelatedRow

/-! ### Plans -/

lemma stopping_createColumn (input : ToOneInput) :
    Satisfies FieldValue.Stopping (fun _ => True) (createColumn sides input) := by
  unfold createColumn
  split
  · exact stopping_deferUnderPath (stops_claimTarget _ _) _
  · exact stopping_deferUnderPath (stops_insertTarget _) _
  · trivial

lemma stopping_planInsert (schema : Schema) (entity : Entity)
    (fields : List (String × FieldInput)) :
    Satisfies (fun plan => (∀ entry ∈ plan.1, entry.2.Stopping) ∧ ∀ waiting ∈ plan.2, True)
      (fun _ => True) (planInsert schema entity fields) := by
  refine satisfies_planInsert (fun _ _ _ => trivial) (fun field input _ => ?_) fun _ _ _ =>
    satisfies_true _
  refine (satisfies_true _).mono (fun sides _ => ?_) fun _ => id
  split
  · exact stopping_createColumn input
  · trivial

lemma stopping_afterInsert (primary : Value) (pending : List Pending) :
    Satisfies (fun operations => ∀ operation ∈ operations, Stopping operation) (fun _ => True)
      (afterInsert primary pending) :=
  satisfies_afterInsert (fun _ input _ => RelatedRow.stopping_createToOne input)
    fun _ items _ => RelatedRow.stopping_createToMany items

lemma stopping_planUpdate (schema : Schema) (entity : Entity) (primary : Value)
    (fields : List (String × FieldInput)) :
    Satisfies (fun plan => (∀ entry ∈ plan.1, entry.2.Stopping) ∧
      ∀ operation ∈ plan.2, Stopping operation) (fun _ => True)
      (planUpdate schema entity primary fields) :=
  satisfies_planUpdate (fun _ _ _ => trivial)
    (fun _ input _ => (satisfies_true _).mono
      (fun _ _ => RelatedRow.stopping_toOneStep input) fun _ => id)
    fun _ items _ => (satisfies_true _).mono
      (fun _ _ => RelatedRow.stopping_toManyOperations items) fun _ => id

end Mutation

end EntityGraph
