import EntityGraph.Proofs.Mutation.Commit
import EntityGraph.Proofs.Mutation.OwnStatement
import EntityGraph.Proofs.Mutation.Reporting
import EntityGraph.Proofs.Program.Events
/-!
# The checking of constraints

A deletion puts the checking of constraints off until it has visited every relation, and switches it
on again as the last thing it does. A deletion that fails leaves it off, also if no statement failed
and there was only nothing to delete. No other operation on rows touches it.
-/
namespace EntityGraph

/-- Every complete run of the program has a trace with the property. -/
def Program.Along {I : Interface} {α : Type} (Q : List (Exchange I) → Prop)
    (program : Program I α) : Prop := ∀ trace a, program.Reaches trace (.done a) → Q trace

namespace Mutation

/-- When constraints are checked: by every statement, or at the end. -/
inductive Checking where
  | immediate
  | deferred
deriving DecidableEq

/-- A command that the database has carried out. -/
def carriedOut (text : String) : Program.Exchange Effect := ⟨.command text, .ok ()⟩

lemma checkConstraints_ne_deferConstraints : checkConstraints ≠ deferConstraints := by decide

namespace Checking

/-- How constraints are checked after an exchange. A switch that is refused changes nothing. -/
def next (checking : Checking) (exchange : Program.Exchange Effect) : Checking :=
  match exchange.request, exchange.error? with
  | .command text, none =>
    if text = deferConstraints then deferred
    else if text = checkConstraints then immediate
    else checking
  | _, _ => checking

def along (checking : Checking) (trace : List (Program.Exchange Effect)) : Checking :=
  trace.foldl next checking

variable {checking : Checking} {trace : List (Program.Exchange Effect)}

@[simp] lemma next_deferConstraints : checking.next (carriedOut deferConstraints) = deferred := rfl

@[simp] lemma next_checkConstraints : checking.next (carriedOut checkConstraints) = immediate := by
  show (if checkConstraints = deferConstraints then deferred
    else if checkConstraints = checkConstraints then immediate else checking) = immediate
  rw [if_neg checkConstraints_ne_deferConstraints, if_pos rfl]

end Checking

/-- No command is sent. -/
def Commandless (trace : List (Program.Exchange Effect)) : Prop :=
  ∀ exchange ∈ trace, ∀ text, exchange.request ≠ .command text

lemma Checking.along_of_commandless {checking : Checking} {trace : List (Program.Exchange Effect)}
    (h : Commandless trace) : checking.along trace = checking := by
  induction trace with
  | nil => rfl
  | cons exchange rest ih =>
    obtain ⟨hexchange, hrest⟩ := List.forall_mem_cons.mp h
    have hnext : checking.next exchange = checking := by
      rw [next]
      split
      · rename_i text htext _
        exact absurd htext (hexchange text)
      · rfl
    rw [along, List.foldl_cons, hnext]
    exact ih hrest

/-! ### Properties of stretches -/

/-- A property of traces that passes from the stretches of a trace to the trace, and does not
depend on what is no command. -/
structure Piecewise (Q : List (Program.Exchange Effect) → Prop) : Prop where
  nil : Q []
  append : ∀ {first second}, Q first → Q second → Q (first ++ second)
  single : ∀ {exchange : Program.Exchange Effect},
    (∀ text, exchange.request ≠ .command text) → Q [exchange]

lemma piecewise_commandless : Piecewise Commandless where
  nil := fun _ hmem => absurd hmem List.not_mem_nil
  append hfirst hsecond := List.forall_mem_append.mpr ⟨hfirst, hsecond⟩
  single h := fun _ hmem => List.mem_singleton.mp hmem ▸ h

/-- Every complete run of the action has a trace with the property. -/
abbrev Along {α : Type} (Q : List (Program.Exchange Effect) → Prop) (action : Action Effect α) :
    Prop := action.run.Along Q

variable {Q : List (Program.Exchange Effect) → Prop} {α β : Type}

namespace Along

lemma ite {condition : Prop} [Decidable condition] {action other : Action Effect α}
    (haction : Along Q action) (hother : Along Q other) :
    Along Q (if condition then action else other) := by
  split
  · exact haction
  · exact hother

section Piecewise

variable (hQ : Piecewise Q)
include hQ

lemma done (outcome : Except Failure α) : (Program.done outcome : Program Effect _).Along Q := by
  intro trace a hrun
  obtain ⟨rfl, -⟩ := Program.done_reaches_iff.mp hrun
  exact hQ.nil

lemma note (event : Event) : Along Q (Mutation.note event) := fun trace a hrun =>
  done hQ (.ok ()) trace a (Program.note_reaches_done_iff.mp hrun)

lemma ask {request : EffectRequest} {next : request.Reply → Program Effect α}
    (hrequest : ∀ text, request ≠ .command text) (hnext : ∀ reply, (next reply).Along Q) :
    (Program.ask (I := Effect) request next).Along Q := by
  intro trace a hrun
  obtain ⟨reply, tail, htail, rfl⟩ := Program.ask_reaches_done_iff.mp hrun
  exact hQ.append (hQ.single hrequest) (hnext reply tail a htail)

lemma bind {action : Action Effect α} {next : α → Action Effect β} (haction : Along Q action)
    (hnext : ∀ a, Along Q (next a)) : Along Q (action >>= next) := by
  intro trace outcome hrun
  obtain ⟨failure, hfailed, -⟩ | ⟨first, a, second, hfirst, hsecond, rfl⟩ :=
    Program.run_bind_reaches_done_iff.mp hrun
  · exact haction trace _ hfailed
  · exact hQ.append (haction first _ hfirst) (hnext a second _ hsecond)

/-- The stretches of the calls make up the trace. -/
lemma answered {rows : RowAnswers} (hrows : ∀ request, (rows request).Along Q)
    (action : Action Rows α) : Along Q (Mutation.answered rows action) := by
  intro trace outcome hrun
  obtain ⟨calls, -, hcarries⟩ := Program.interpret_reaches_done_iff.mp hrun
  clear hrun
  induction hcarries with
  | nil => exact hQ.nil
  | cons head _ ih => exact hQ.append (hrows _ _ _ head) ih

end Piecewise

lemma attempt {action : Action Effect α} (h : Along Q action) :
    Along Q (Mutation.attempt action) := by
  intro trace outcome hrun
  obtain ⟨own, hown, -⟩ := attempt_reaches_iff.mp hrun
  exact h trace own hown

end Along

namespace Session

variable {session : Session} {depth : Nat} {entity : Entity} {filter : Filter}
  {trace : List (Program.Exchange Effect)}

section Piecewise

variable (hQ : Piecewise Q)
include hQ

lemma along_query (query : Sql.Query) : Along Q (session.query query) := by
  intro trace outcome hrun
  obtain ⟨reply, rfl, -⟩ := session.query_reaches_iff.mp hrun
  exact hQ.single fun _ htext => by cases htext

lemma along_execute (query : Sql.Query) : Along Q (session.execute query) := by
  intro trace outcome hrun
  obtain ⟨reply, rfl, -⟩ := execute_reaches_iff.mp hrun
  exact hQ.single fun _ htext => by cases htext

lemma along_permitted (entity : Entity) (filter : Filter) (operation : AccessOperation)
    (fields : List String) : Along Q (session.permitted entity filter operation fields) :=
  .ask hQ (fun _ htext => by cases htext) fun _ => Along.done hQ _

lemma along_selectColumn (entity : Entity) (filter : Filter) (field : String) :
    Along Q (session.selectColumn entity filter field) := by
  rw [selectColumn]
  refine (along_permitted hQ entity filter .read [field]).bind hQ fun tree => ?_
  refine Along.bind hQ (.done hQ _) fun column => ?_
  refine (along_query hQ _).bind hQ fun set => ?_
  cases set.rows with
  | nil => exact .done hQ _
  | cons row _ => exact Along.bind hQ (.done hQ _) fun value => .done hQ _

lemma along_deleteBatch (entity : Entity) (filter : Filter) :
    Along Q (session.deleteBatch entity filter) :=
  (along_permitted hQ entity filter .delete []).bind hQ fun _ =>
    (along_query hQ _).bind hQ fun _ => .done hQ _

lemma along_clearReferences (entity : Entity) (relation : Relation) (filter : Filter) :
    Along Q (session.clearReferences entity relation filter) :=
  (along_permitted hQ entity filter .update [relation.name]).bind hQ fun _ =>
    Along.bind hQ (.done hQ _) fun _ => (along_execute hQ _).bind hQ fun _ => .note hQ _

lemma along_visitRelation {cascade : Entity → List Value → Action Effect Unit}
    (hcascade : ∀ entity primaries, Along Q (cascade entity primaries)) (entity : Entity)
    (primaries : List Value) (owner : Entity) (relation : Relation) :
    Along Q (session.visitRelation cascade entity primaries owner relation) := by
  rw [visitRelation]
  cases relation.joiningColumn? with
  | none => exact .done hQ _
  | some joining =>
    dsimp only
    cases joining.onDelete with
    | restrict => exact .done hQ _
    | cascade =>
      refine (along_deleteBatch hQ owner _).bind hQ fun deleted => ?_
      exact .ite (.done hQ _) (hcascade owner deleted)
    | setNull => exact along_clearReferences hQ owner relation _

lemma along_cascade (depth : Nat) (entity : Entity) (primaries : List Value) :
    Along Q (session.cascade depth entity primaries) := by
  induction depth generalizing entity primaries with
  | zero => exact .ask hQ (fun _ htext => by cases htext) fun reply => nomatch reply
  | succ depth ih =>
    rw [cascade]
    induction session.schema.owningRelationsTo entity.name with
    | nil => exact .done hQ _
    | cons pair rest hrest =>
      obtain ⟨owner, relation⟩ := pair
      exact (along_visitRelation hQ ih entity primaries owner relation).bind hQ fun _ => hrest

end Piecewise

lemma command_reaches_iff {text : String} {outcome : Except Failure Unit} :
    (session.command text).run.Reaches trace (.done outcome) ↔
      ∃ reply, trace = [⟨.command text, reply⟩] ∧ outcome = reply.mapError .database := by
  have hsent : ((Effect.command text).adapt Failure.database : Action Effect Unit).run.Reaches
      trace (.done outcome) ↔
        ∃ reply, trace = [⟨.command text, reply⟩] ∧ outcome = reply.mapError .database := by
    refine Program.ask_reaches_done_iff.trans ⟨?_, ?_⟩
    · rintro ⟨reply, tail, htail, rfl⟩
      obtain ⟨rfl, hdone⟩ := Program.done_reaches_iff.mp htail
      exact ⟨reply, rfl, Program.done.inj hdone⟩
    · rintro ⟨reply, rfl, rfl⟩
      exact ⟨reply, [], .here _, rfl⟩
  rw [Session.command, logged]
  split
  · exact Program.note_reaches_done_iff.trans hsent
  · exact hsent

/-- What a deletion does between its switches. -/
def removing (session : Session) (depth : Nat) (entity : Entity) (filter : Filter) :
    Action Effect (List Value) := do
  let deleted ← session.deleteBatch entity filter
  if deleted.isEmpty then throw .denied
  else
    session.cascade depth entity deleted
    return deleted

lemma along_removing (hQ : Piecewise Q) : Along Q (session.removing depth entity filter) :=
  (along_deleteBatch hQ entity filter).bind hQ fun deleted =>
    .ite (.done hQ _) ((along_cascade hQ depth entity deleted).bind hQ fun _ => .done hQ _)

lemma deleteWhere_eq (hdefers : session.settings.deferConstraints = true) :
    session.deleteWhere depth entity filter = (do
      session.command deferConstraints
      let deleted ← session.removing depth entity filter
      session.command checkConstraints
      return deleted) := by
  simp only [deleteWhere, hdefers, if_true, removing, bind_assoc]
  refine bind_congr fun _ => bind_congr fun deleted => ?_
  cases deleted.isEmpty with
  | true => rfl
  | false => simp only [Bool.false_eq_true, if_false, bind_assoc, pure_bind]

/-- How a deletion that defers constraints ends: it fails, or it has switched the checking on again
as the last thing. -/
lemma deleteWhere_reaches (hdefers : session.settings.deferConstraints = true)
    {outcome : Except Failure (List Value)}
    (h : (session.deleteWhere depth entity filter).run.Reaches trace (.done outcome)) :
    ∃ body, Commandless body ∧ Satisfies
      (fun _ => trace = carriedOut deferConstraints :: (body ++ [carriedOut checkConstraints]))
      (fun failure => (∃ e, failure = .database e) ∨
        trace = carriedOut deferConstraints :: body) outcome := by
  rw [deleteWhere_eq hdefers] at h
  obtain ⟨failure, hfailed, rfl⟩ | ⟨deferring, _, rest, hdeferring, hrest, rfl⟩ :=
    Program.run_bind_reaches_done_iff.mp h
  · obtain ⟨e | _, -, hreply⟩ := command_reaches_iff.mp hfailed
    · cases hreply
      exact ⟨[], piecewise_commandless.nil, .inl ⟨e, rfl⟩⟩
    · cases hreply
  obtain ⟨e | _, rfl, hreply⟩ := command_reaches_iff.mp hdeferring
  · cases hreply
  obtain ⟨failure, hfailed, rfl⟩ | ⟨body, deleted, last, hbody, hlast, rfl⟩ :=
    Program.run_bind_reaches_done_iff.mp hrest
  · exact ⟨rest, along_removing piecewise_commandless _ _ hfailed, .inr rfl⟩
  refine ⟨body, along_removing piecewise_commandless _ _ hbody, ?_⟩
  obtain ⟨failure, hfailed, rfl⟩ | ⟨checking, _, end_, hchecking, hend, rfl⟩ :=
    Program.run_bind_reaches_done_iff.mp hlast
  · obtain ⟨e | _, -, hreply⟩ := command_reaches_iff.mp hfailed
    · cases hreply
      exact .inl ⟨e, rfl⟩
    · cases hreply
  · obtain ⟨e | _, rfl, hreply⟩ := command_reaches_iff.mp hchecking
    · cases hreply
    obtain ⟨rfl, hdone⟩ := Program.done_reaches_iff.mp hend
    cases hdone
    exact rfl

/-! ### Operations on rows -/

section Rows

variable {rows : RowAnswers} (hQ : Piecewise Q)

lemma along_withKey (hQ : Piecewise Q) (entity : Entity) (values : FieldValues Rows) :
    Along Q (withKey entity values) := by
  rw [withKey]
  refine .ite (.done hQ _) (Along.bind hQ (.done hQ _) fun column => .ite ?_ (.done hQ _))
  exact Along.bind hQ (.ask hQ (fun _ htext => by cases htext) fun _ => Along.done hQ _)
    fun id => .done hQ _

variable (hrows : ∀ request, (rows request).Along Q)
include hQ hrows

lemma along_insertValues (entity : Entity) (values : FieldValues Rows) :
    Along Q (session.insertValues rows entity values) :=
  (Along.answered hQ hrows _).bind hQ fun _ => Along.bind hQ (.done hQ _) fun _ =>
    (along_query hQ _).bind hQ fun _ => (Along.answered hQ hrows _).bind hQ fun _ => .done hQ _

lemma along_updateValues (entity : Entity) (values : FieldValues Rows)
    (tree : Sql.ConditionTree) : Along Q (session.updateValues rows entity values tree) := by
  have hfinish (row : RowValues Rows) (count : Option Nat) : Along Q (do
      let results ← answered rows row.finish
      return (⟨count, row.values, results⟩ : Updated)) :=
    (Along.answered hQ hrows _).bind hQ fun _ => .done hQ _
  refine (Along.answered hQ hrows _).bind hQ fun row => Along.bind hQ (.done hQ _) fun columns => ?_
  exact .ite (hfinish row none)
    (((along_execute hQ _).bind hQ fun count => .done hQ (.ok (some count))).bind hQ (hfinish row))

lemma along_insertRow (entity : Entity) (data : Data) :
    Along Q (session.insertRow rows entity data) := by
  refine Along.bind hQ (.done hQ _) fun (values, pending) => ?_
  refine (along_withKey hQ entity values).bind hQ fun values => ?_
  refine (along_insertValues hQ hrows entity values).attempt.bind hQ fun inserted => ?_
  match inserted with
  | .error failure => exact .done hQ _
  | .ok ⟨none, _, results⟩ => exact .done hQ _
  | .ok ⟨some primary, values, results⟩ =>
    exact Along.bind hQ (.done hQ _) fun _ =>
      (Along.answered hQ hrows _).bind hQ fun _ => .done hQ _

lemma along_updateFound (entity : Entity) (primary : Value) (data : Data) :
    Along Q (session.updateFound rows entity primary data) := by
  rw [updateFound_eq]
  refine Along.bind hQ ?_ fun plan => ?_
  · exact Along.bind hQ (.done hQ _) fun _ =>
      (along_permitted hQ _ _ _ _).bind hQ fun _ => .done hQ _
  · refine (along_updateValues hQ hrows entity plan.1 plan.2.2).attempt.bind hQ fun own => ?_
    exact (Along.answered hQ hrows _).attempt.bind hQ fun related => .done hQ _

lemma along_updateRow (entity : Entity) (which : UniqueWhere) (data : Data) :
    Along Q (session.updateRow rows entity which data) := by
  rw [updateRow]
  cases which.expand entity with
  | error e => exact .done hQ _
  | ok filter =>
    refine (along_selectColumn hQ entity filter entity.primary).bind hQ fun found => ?_
    cases found with
    | none => exact .done hQ _
    | some primary => exact .ite (.done hQ _) (along_updateFound hQ hrows entity primary data)

end Rows

/-- What does not depend on anything but commands, and passes from stretches to traces, holds along
every operation on rows, if it holds along every deletion. -/
theorem along_rows (hQ : Piecewise Q)
    (hdelete : ∀ depth entity filter, Along Q (session.deleteWhere depth entity filter))
    (depth : Nat) (request : RowRequest) : (session.rows depth request).Along Q := by
  have hselect (entity : Entity) (which : UniqueWhere) (field : String) :
      Along Q (session.selectField entity which field) :=
    Along.bind hQ (.done hQ _) fun filter => along_selectColumn hQ entity filter field
  induction depth generalizing request with
  | zero =>
    cases request <;> exact Along.ask hQ (fun _ htext => by cases htext) fun reply => nomatch reply
  | succ depth ih =>
    cases request with
    | insert entity data => exact along_insertRow hQ ih entity data
    | update entity which data => exact along_updateRow hQ ih entity which data
    | delete entity which =>
      show Along Q (session.deleteRow depth entity which)
      rw [deleteRow]
      cases which.expand entity with
      | error e => exact .done hQ _
      | ok filter =>
        refine (hdelete depth entity filter).attempt.bind hQ fun deleted => ?_
        cases deleted <;> exact .done hQ _
    | selectField entity which field => exact hselect entity which field
    | primaryValue entity which => exact hselect entity which entity.primary
    | connect owner relation ownerKey inversedKey =>
      exact Along.bind hQ (.done hQ _) fun _ => (along_execute hQ _).bind hQ fun _ => .done hQ _
    | disconnect owner relation ownerKey inversedKey =>
      exact Along.bind hQ (.done hQ _) fun _ => (along_execute hQ _).bind hQ fun _ => .done hQ _

/-- The checking of constraints is as before, or a deletion on the trace has failed. -/
def Restores (session : Session) (trace : List (Program.Exchange Effect)) : Prop :=
  Checking.immediate.along trace = .immediate ∨
    ∃ front own back depth entity filter failure,
      (session.deleteWhere depth entity filter).run.Reaches own (.done (.error failure)) ∧
      trace = front ++ own ++ back

lemma piecewise_restores (session : Session) : Piecewise session.Restores where
  nil := .inl rfl
  single h := .inl (Checking.along_of_commandless fun _ hmem => List.mem_singleton.mp hmem ▸ h)
  append := by
    rintro first second (hfirst | ⟨front, own, back, depth, entity, filter, failure, hown, rfl⟩)
      (hsecond | ⟨front', own', back', depth', entity', filter', failure', hown', rfl⟩)
    · left
      rw [Checking.along, List.foldl_append]
      exact (congrArg (fun checking : Checking => checking.along second) hfirst).trans hsecond
    · exact .inr ⟨first ++ front', own', back', depth', entity', filter', failure', hown',
        by simp⟩
    · exact .inr ⟨front, own, back ++ second, depth, entity, filter, failure, hown, by simp⟩
    · exact .inr ⟨front, own, _, depth, entity, filter, failure, hown, by rw [List.append_assoc]⟩

lemma along_deleteWhere (hdefers : session.settings.deferConstraints = true) (depth : Nat)
    (entity : Entity) (filter : Filter) :
    Along session.Restores (session.deleteWhere depth entity filter) := by
  intro trace outcome hrun
  obtain ⟨body, hbody, hends⟩ := deleteWhere_reaches hdefers hrun
  cases outcome with
  | error failure => exact .inr ⟨[], trace, [], depth, entity, filter, failure, hrun, by simp⟩
  | ok deleted =>
    left
    rw [show trace = _ from hends, Checking.along, List.foldl_cons, List.foldl_append,
      List.foldl_cons]
    exact Checking.next_checkConstraints

/-- The author with the key 7. -/
def seventhAuthor : Filter := (byPrimary author (.int 7)).toFilter

/-- A database that deletes the row 7 and a row that points at it. -/
def deletingWorld : Script.World :=
  { Script.World.empty with
    responses := [⟨"DELETE FROM \"author\"", false, .rows ⟨["id"], [[.int 7]], none⟩⟩,
      ⟨"DELETE FROM \"post\"", false, .rows ⟨["id"], [[.int 1]], none⟩⟩] }

/-- Whether a run deleted something with so many exchanges. -/
def deletesIn (count : Nat) (trace : List (Program.Exchange Effect)) :
    Except Failure (List Value) → Bool
  | .ok _ => trace.length = count
  | .error _ => false

/-- Whether a run was denied, though no statement failed. -/
def isDenied (trace : List (Program.Exchange Effect)) : Except Failure (List Value) → Bool
  | .error .denied => trace.all fun exchange => exchange.error?.isNone
  | _ => false

end Session

end Mutation

end EntityGraph
