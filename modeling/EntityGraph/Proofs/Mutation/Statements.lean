import EntityGraph.Database.Transaction
import EntityGraph.Mutation.RowWriter
import EntityGraph.Proofs.Program.Runs
/-!
# Statements of operations on rows

Whatever the database answers, an operation on rows sends queries and switches of the checking of
constraints. None of these ends a transaction.
-/
namespace EntityGraph

open Database (Ending)

/-- The text that a request sends to the database. -/
def EffectRequest.text? : EffectRequest → Option String
  | .query sent => some sent.statement.text
  | .execute sent => some sent.statement.text
  | .command text => some text
  | _ => none

/-- The request sends no `COMMIT` and no `ROLLBACK`. -/
def EffectRequest.Quiet (request : EffectRequest) : Prop :=
  ∀ ending : Ending, request.text? ≠ some ending.text

namespace Sql

/-- The first letter of the text of a query, unless the query is given as text. -/
def Query.initial? : Query → Option Char
  | select _ => some 'S'
  | insert _ => some 'I'
  | update _ => some 'U'
  | delete _ => some 'D'
  | raw _ => none

lemma Query.head?_text {query : Query} {initial : Char} (h : query.initial? = some initial) :
    query.statement.text.toList.head? = some initial := by
  rw [Query.statement, Statement.ofPieces, String.toList_ofList]
  cases query with
  | select select =>
    cases h
    cases select
    rfl
  | insert => cases h; rfl
  | update => cases h; rfl
  | delete => cases h; rfl
  | raw => cases h

lemma Query.text_ne_ending {query : Query} (h : query.initial?.isSome) (ending : Ending) :
    query.statement.text ≠ ending.text := by
  obtain ⟨initial, hinitial⟩ := Option.isSome_iff_exists.mp h
  intro heq
  have hhead := Query.head?_text hinitial
  rw [heq] at hhead
  cases query <;> cases hinitial <;> cases ending <;> exact absurd hhead (by decide)

end Sql

namespace EffectRequest.Quiet

lemma of_text {request : EffectRequest} {text : String} (htext : request.text? = some text)
    (h : ∀ ending : Ending, text ≠ ending.text) : request.Quiet := by
  intro ending heq
  rw [htext] at heq
  exact h ending (Option.some.inj heq)

lemma of_no_text {request : EffectRequest} (h : request.text? = none) : request.Quiet := by
  intro ending heq
  rw [h] at heq
  cases heq

end EffectRequest.Quiet

namespace Mutation

variable {I : Interface} {α β : Type}

/-- No request of the action ends a transaction, whatever the answers are. -/
def Quiet (action : Action Effect α) : Prop := action.run.Asks EffectRequest.Quiet

namespace Quiet

lemma pure (a : α) : Quiet (Pure.pure a : Action Effect α) := trivial

lemma bind {action : Action Effect α} {next : α → Action Effect β} (haction : Quiet action)
    (hnext : ∀ a, Quiet (next a)) : Quiet (action >>= next) :=
  Program.asks_run_bind haction hnext

lemma ite {condition : Prop} [Decidable condition] {action other : Action Effect α}
    (haction : Quiet action) (hother : Quiet other) :
    Quiet (if condition then action else other) := by
  split
  · exact haction
  · exact hother

lemma liftExcept (outcome : Except Failure α) : Quiet (Mutation.liftExcept outcome) := trivial

lemma throw (failure : Failure) : Quiet (throw failure : Action Effect α) := trivial

lemma note (event : Event) : Quiet (Mutation.note event) := trivial

lemma attempt {action : Action Effect α} (h : Quiet action) : Quiet (Mutation.attempt action) :=
  Program.asks_bind h fun _ => trivial

lemma answered {rows : RowAnswers} (hrows : ∀ request, (rows request).Asks EffectRequest.Quiet)
    (action : Action Rows α) : Quiet (Mutation.answered rows action) :=
  Program.asks_interpret hrows action.run

end Quiet

namespace Session

variable (session : Session)

lemma quiet_logged (text : String) : Quiet (session.logged text) := by
  rw [logged]
  split <;> trivial

lemma quiet_query {query : Sql.Query} (h : query.initial?.isSome) :
    Quiet (session.query query) :=
  (session.quiet_logged _).bind fun _ =>
    ⟨.of_text rfl (Sql.Query.text_ne_ending h), fun _ => trivial⟩

lemma quiet_execute {query : Sql.Query} (h : query.initial?.isSome) :
    Quiet (session.execute query) :=
  (session.quiet_logged _).bind fun _ =>
    ⟨.of_text rfl (Sql.Query.text_ne_ending h), fun _ => trivial⟩

lemma quiet_command {text : String} (h : ∀ ending : Ending, text ≠ ending.text) :
    Quiet (session.command text) :=
  (session.quiet_logged _).bind fun _ =>
    ⟨.of_text rfl h, fun _ => trivial⟩

lemma quiet_permitted (entity : Entity) (filter : Filter) (operation : AccessOperation)
    (fields : List String) : Quiet (session.permitted entity filter operation fields) := by
  rw [permitted]
  refine Quiet.bind ?_ fun predicate => .liftExcept _
  exact ⟨.of_no_text rfl, fun _ => trivial⟩

lemma quiet_selectColumn (entity : Entity) (filter : Filter) (field : String) :
    Quiet (session.selectColumn entity filter field) := by
  rw [selectColumn]
  refine (session.quiet_permitted entity filter .read [field]).bind fun tree => ?_
  refine (Quiet.liftExcept _).bind fun column => ?_
  refine (session.quiet_query rfl).bind fun set => ?_
  cases set.rows with
  | nil => exact .pure none
  | cons row _ => exact (Quiet.liftExcept _).bind fun value => .pure _

/-! ### Deletions -/

lemma quiet_deleteBatch (entity : Entity) (filter : Filter) :
    Quiet (session.deleteBatch entity filter) := by
  rw [deleteBatch]
  refine (session.quiet_permitted entity filter .delete []).bind fun tree => ?_
  exact (session.quiet_query rfl).bind fun set => .liftExcept _

lemma quiet_clearReferences (entity : Entity) (relation : Relation) (filter : Filter) :
    Quiet (session.clearReferences entity relation filter) := by
  rw [clearReferences]
  refine (session.quiet_permitted entity filter .update [relation.name]).bind fun tree => ?_
  refine (Quiet.liftExcept _).bind fun column => ?_
  exact (session.quiet_execute rfl).bind fun count => .note _

lemma quiet_visitRelation {cascade : Entity → List Value → Action Effect Unit}
    (hcascade : ∀ entity primaries, Quiet (cascade entity primaries)) (entity : Entity)
    (primaries : List Value) (owner : Entity) (relation : Relation) :
    Quiet (session.visitRelation cascade entity primaries owner relation) := by
  rw [visitRelation]
  cases relation.joiningColumn? with
  | none => exact .throw _
  | some joining =>
    dsimp only
    cases joining.onDelete with
    | restrict => exact .pure ()
    | cascade =>
      refine (session.quiet_deleteBatch owner _).bind fun deleted => ?_
      exact .ite (.pure ()) (hcascade owner deleted)
    | setNull => exact session.quiet_clearReferences owner relation _

lemma quiet_cascade (depth : Nat) (entity : Entity) (primaries : List Value) :
    Quiet (session.cascade depth entity primaries) := by
  induction depth generalizing entity primaries with
  | zero => exact ⟨.of_no_text rfl, fun reply => nomatch reply⟩
  | succ depth ih =>
    rw [cascade]
    induction session.schema.owningRelationsTo entity.name with
    | nil => exact .pure ()
    | cons pair rest hrest =>
      obtain ⟨owner, relation⟩ := pair
      exact (session.quiet_visitRelation ih entity primaries owner relation).bind fun _ => hrest

lemma quiet_deleteWhere (depth : Nat) (entity : Entity) (filter : Filter) :
    Quiet (session.deleteWhere depth entity filter) := by
  have hdefer : Quiet (session.command deferConstraints) :=
    session.quiet_command fun ending => by cases ending <;> decide
  have hcheck : Quiet (session.command checkConstraints) :=
    session.quiet_command fun ending => by cases ending <;> decide
  have hcascade (deleted : List Value) : Quiet (do
      session.cascade depth entity deleted
      if session.settings.deferConstraints then
        session.command checkConstraints
      return deleted) := by
    refine (session.quiet_cascade depth entity deleted).bind fun _ => ?_
    exact .ite (hcheck.bind fun _ => .pure deleted) (.pure deleted)
  have hbatch : Quiet (do
      let deleted ← session.deleteBatch entity filter
      if deleted.isEmpty then
        throw .denied
      session.cascade depth entity deleted
      if session.settings.deferConstraints then
        session.command checkConstraints
      return deleted) := by
    refine (session.quiet_deleteBatch entity filter).bind fun deleted => ?_
    exact .ite ((Quiet.throw _).bind fun _ => hcascade deleted) (hcascade deleted)
  rw [deleteWhere]
  exact .ite (hdefer.bind fun _ => hbatch) hbatch

/-! ### Rows -/

section Rows

variable {rows : RowAnswers} (hrows : ∀ request, (rows request).Asks EffectRequest.Quiet)

lemma quiet_withKey (entity : Entity) (values : FieldValues Rows) :
    Quiet (withKey entity values) := by
  rw [withKey]
  have hfresh : Quiet (ExceptT.lift Effect.freshUuid) := ⟨.of_no_text rfl, fun _ => trivial⟩
  refine .ite (.pure values) ?_
  refine (Quiet.liftExcept _).bind fun column => ?_
  exact .ite (hfresh.bind fun id => .pure _) (.pure values)

include hrows

lemma quiet_insertValues (entity : Entity) (values : FieldValues Rows) :
    Quiet (session.insertValues rows entity values) := by
  rw [insertValues]
  refine (Quiet.answered hrows _).bind fun row => ?_
  refine (Quiet.liftExcept _).bind fun columns => ?_
  refine (session.quiet_query rfl).bind fun set => ?_
  exact (Quiet.answered hrows _).bind fun results => .pure _

lemma quiet_updateValues (entity : Entity) (values : FieldValues Rows)
    (tree : Sql.ConditionTree) : Quiet (session.updateValues rows entity values tree) := by
  rw [updateValues]
  refine (Quiet.answered hrows _).bind fun row => ?_
  refine (Quiet.liftExcept _).bind fun columns => ?_
  have hfinish (count : Option Nat) : Quiet (do
      let results ← Mutation.answered rows row.finish
      return (⟨count, row.values, results⟩ : Updated)) :=
    (Quiet.answered hrows _).bind fun results => .pure _
  refine .ite (hfinish none) ?_
  exact ((session.quiet_execute rfl).bind fun count => .pure (some count)).bind hfinish

lemma quiet_insertRow (entity : Entity) (data : Data) :
    Quiet (session.insertRow rows entity data) := by
  rw [insertRow]
  refine (Quiet.liftExcept _).bind fun (values, pending) => ?_
  refine (quiet_withKey entity values).bind fun values => ?_
  refine (session.quiet_insertValues hrows entity values).attempt.bind fun inserted => ?_
  match inserted with
  | .error failure => exact .liftExcept _
  | .ok ⟨none, _, results⟩ => exact .pure _
  | .ok ⟨some primary, values, results⟩ =>
    refine (Quiet.liftExcept _).bind fun operations => ?_
    exact (Quiet.answered hrows _).bind fun related => .pure _

lemma quiet_updateFound (entity : Entity) (primary : Value) (data : Data) :
    Quiet (session.updateFound rows entity primary data) := by
  rw [updateFound]
  refine (Quiet.liftExcept _).bind fun (values, operations) => ?_
  refine (session.quiet_permitted entity _ .update values.names).bind fun tree => ?_
  refine (session.quiet_updateValues hrows entity values tree).attempt.bind fun own => ?_
  refine (Quiet.answered hrows _).attempt.bind fun related => ?_
  have hresults (results : List Result) : Quiet (do
      return results ++ (← Mutation.liftExcept related)) :=
    (Quiet.liftExcept related).bind fun _ => .pure _
  cases own with
  | ok updated => exact hresults (updateResults entity primary updated)
  | error failure => exact (Quiet.liftExcept failure.classified).bind hresults

lemma quiet_updateRow (entity : Entity) (which : UniqueWhere) (data : Data) :
    Quiet (session.updateRow rows entity which data) := by
  rw [updateRow]
  cases which.expand entity with
  | error e => exact .liftExcept _
  | ok filter =>
    refine (session.quiet_selectColumn entity filter entity.primary).bind fun found => ?_
    cases found with
    | none => exact .pure _
    | some primary => exact .ite (.pure _) (session.quiet_updateFound hrows entity primary data)

end Rows

lemma quiet_deleteRow (depth : Nat) (entity : Entity) (which : UniqueWhere) :
    Quiet (session.deleteRow depth entity which) := by
  rw [deleteRow]
  cases which.expand entity with
  | error e => exact .liftExcept _
  | ok filter =>
    refine (session.quiet_deleteWhere depth entity filter).attempt.bind fun deleted => ?_
    cases deleted with
    | error failure => exact .liftExcept _
    | ok deleted => exact .pure _

lemma quiet_selectField (entity : Entity) (which : UniqueWhere) (field : String) :
    Quiet (session.selectField entity which field) :=
  (Quiet.liftExcept _).bind fun filter => session.quiet_selectColumn entity filter field

lemma quiet_connect (owner : Entity) (relation : Relation) (ownerKey inversedKey : Value) :
    Quiet (session.connect owner relation ownerKey inversedKey) := by
  rw [connect]
  refine (Quiet.liftExcept _).bind fun table => ?_
  exact (session.quiet_execute rfl).bind fun count => .pure _

lemma quiet_disconnect (owner : Entity) (relation : Relation) (ownerKey inversedKey : Value) :
    Quiet (session.disconnect owner relation ownerKey inversedKey) := by
  rw [disconnect]
  refine (Quiet.liftExcept _).bind fun table => ?_
  exact (session.quiet_execute rfl).bind fun count => .pure _

/-- An operation on rows leaves the ending of its transaction to others. The operations that it
brings with it are carried out one level deeper, by the same functions. -/
theorem quiet_rows (depth : Nat) (request : RowRequest) :
    (session.rows depth request).Asks EffectRequest.Quiet := by
  induction depth generalizing request with
  | zero => cases request <;> exact ⟨.of_no_text rfl, fun reply => nomatch reply⟩
  | succ depth ih =>
    cases request with
    | insert entity data => exact session.quiet_insertRow ih entity data
    | update entity which data => exact session.quiet_updateRow ih entity which data
    | delete entity which => exact session.quiet_deleteRow depth entity which
    | selectField entity which field => exact session.quiet_selectField entity which field
    | primaryValue entity which => exact session.quiet_selectField entity which entity.primary
    | connect owner relation ownerKey inversedKey =>
      exact session.quiet_connect owner relation ownerKey inversedKey
    | disconnect owner relation ownerKey inversedKey =>
      exact session.quiet_disconnect owner relation ownerKey inversedKey

end Session

end Mutation

end EntityGraph
