import EntityGraph.Proofs.Data.Weight
import EntityGraph.Proofs.Mutation.OwnStatement
import EntityGraph.Proofs.Mutation.Typing
import EntityGraph.Proofs.Program.Expense
/-!
# What the inputs of relations send

A budget bounds how many statements an action sends, whatever it is answered. What the inputs of a
row ask for includes writes of related rows, with data that is not always given inside the input:
targets are linked, rows that claim a target let it go, and targets of inverse relations connect
from their own side. Where operations on rows stay within the weight of their data, an input stays
within its own weight, as long as nothing is removed.
-/
namespace EntityGraph

open Mutation

/-- Statements are counted. The access rules and identifiers are free, and nothing pays for nesting
deeper than the bound. -/
def EffectRequest.price : EffectRequest → Option Nat
  | .query _ | .execute _ | .command _ => some 1
  | .predicate .. | .freshUuid => some 0
  | .overrun => none

namespace Mutation

variable {α β : Type}

/-- A trace costs as much as it has statements. -/
lemma cost_eq_length_statements (trace : List (Program.Exchange Effect)) :
    Program.cost EffectRequest.price trace = (statements trace).length := by
  induction trace with
  | nil => rfl
  | cons exchange rest ih =>
    obtain ⟨request, reply⟩ := exchange
    have hcons : Program.cost EffectRequest.price (⟨request, reply⟩ :: rest) =
        request.price.getD 0 + (statements rest).length := congrArg (request.price.getD 0 + ·) ih
    rw [hcons]
    cases request with
    | query | execute | command => exact Nat.add_comm _ _
    | predicate | freshUuid => exact Nat.zero_add _
    | overrun => exact Empty.elim reply

/-- No run of the action sends more statements, or nests deeper than its bound. -/
abbrev Spends (action : Action Effect α) (budget : Nat) : Prop :=
  action.run.CostsAtMost EffectRequest.price budget

namespace Spends

variable {action : Action Effect α} {next : α → Action Effect β} {budget more : Nat}

lemma bind (h : Spends action budget)
    (hnext : ∀ trace a, action.run.Reaches trace (.done (.ok a)) → Spends (next a) more) :
    Spends (action >>= next) (budget + more) := Program.costsAtMost_run_bind h hnext

lemma pure (a : α) : Spends (Pure.pure a) budget := trivial

lemma liftExcept (outcome : Except Failure α) : Spends (Mutation.liftExcept outcome) budget :=
  trivial

lemma bind_le {total : Nat} (budget more : Nat) (h : Spends action budget)
    (hnext : ∀ trace a, action.run.Reaches trace (.done (.ok a)) → Spends (next a) more)
    (hle : budget + more ≤ total) : Spends (action >>= next) total := (h.bind hnext).mono hle

/-- What costs nothing leaves the budget to the rest. -/
lemma free_bind (h : Spends action 0)
    (hnext : ∀ trace a, action.run.Reaches trace (.done (.ok a)) → Spends (next a) budget) :
    Spends (action >>= next) budget := by
  have hboth := h.bind hnext
  rwa [Nat.zero_add] at hboth

lemma bind_free (h : Spends action budget)
    (hnext : ∀ trace a, action.run.Reaches trace (.done (.ok a)) → Spends (next a) 0) :
    Spends (action >>= next) budget := h.bind hnext

lemma liftExcept_bind {outcome : Except Failure α}
    (hnext : ∀ a, outcome = .ok a → Spends (next a) budget) :
    Spends (Mutation.liftExcept outcome >>= next) budget := by
  cases outcome with
  | error failure => trivial
  | ok a => exact hnext a rfl

lemma attempt (h : Spends action budget) : Spends (Mutation.attempt action) budget :=
  Program.costsAtMost_map h fun outcome => Except.ok outcome

end Spends

/-! ### Single statements -/

namespace Session

variable (session : Session) {entity : Entity}

lemma spends_query (query : Sql.Query) : Spends (session.query query) 1 := by
  rw [Session.query, logged]
  split <;> exact ⟨1, 0, rfl, le_rfl, fun _ => trivial⟩

lemma spends_execute (query : Sql.Query) : Spends (session.execute query) 1 := by
  rw [Session.execute, logged]
  split <;> exact ⟨1, 0, rfl, le_rfl, fun _ => trivial⟩

lemma spends_permitted (filter : Filter) (operation : AccessOperation) (fields : List String) :
    Spends (session.permitted entity filter operation fields) 0 :=
  ⟨0, 0, rfl, le_rfl, fun _ => Spends.liftExcept _⟩

lemma spends_selectColumn (filter : Filter) (field : String) :
    Spends (session.selectColumn entity filter field) 1 := by
  refine (session.spends_permitted filter .read [field]).free_bind fun _ tree _ => ?_
  refine .liftExcept_bind fun column _ => (session.spends_query _).bind_free fun _ set _ => ?_
  cases set.rows with
  | nil => exact .pure none
  | cons row rest => exact .liftExcept_bind fun value _ => .pure _

lemma spends_selectField (which : UniqueWhere) (field : String) :
    Spends (session.selectField entity which field) 1 :=
  .liftExcept_bind fun filter _ => session.spends_selectColumn filter field

lemma spends_connect (relation : Relation) (ownerKey inversedKey : Value) :
    Spends (session.connect entity relation ownerKey inversedKey) 1 :=
  .liftExcept_bind fun _ _ => (session.spends_execute _).bind_free fun _ _ _ =>
    .pure _

lemma spends_disconnect (relation : Relation) (ownerKey inversedKey : Value) :
    Spends (session.disconnect entity relation ownerKey inversedKey) 1 :=
  .liftExcept_bind fun _ _ => (session.spends_execute _).bind_free fun _ _ _ =>
    .pure _

lemma spends_withKey (values : FieldValues Rows) : Spends (withKey entity values) 0 := by
  rw [withKey]
  split
  · exact .pure _
  · refine .liftExcept_bind fun column _ => ?_
    split
    · exact ⟨0, 0, rfl, le_rfl, fun _ => trivial⟩
    · exact .pure _

end Session

/-! ### Operations on rows -/

/-- The same of an action whose operations on rows are answered. -/
abbrev SpendsOn (rows : RowAnswers) (action : Action Rows α) (budget : Nat) : Prop :=
  Spends (answered rows action) budget

namespace SpendsOn

variable {rows : RowAnswers} {action : Action Rows α} {next : α → Action Rows β}
  {budget more : Nat} {path : Path}

lemma mono (h : SpendsOn rows action budget) (hle : budget ≤ more) :
    SpendsOn rows action more := Program.CostsAtMost.mono h hle

lemma pure (a : α) : SpendsOn rows (Pure.pure a) budget := trivial

lemma bind (h : SpendsOn rows action budget) (hnext : ∀ a, SpendsOn rows (next a) more) :
    SpendsOn rows (action >>= next) (budget + more) := by
  rw [SpendsOn, answered_bind]
  exact Spends.bind h fun _ a _ => hnext a

lemma bind_free (h : SpendsOn rows action budget) (hnext : ∀ a, SpendsOn rows (next a) 0) :
    SpendsOn rows (action >>= next) budget := h.bind hnext

lemma bind_le {total : Nat} (budget more : Nat) (h : SpendsOn rows action budget)
    (hnext : ∀ a, SpendsOn rows (next a) more) (hle : budget + more ≤ total) :
    SpendsOn rows (action >>= next) total := (h.bind hnext).mono hle

lemma liftExcept_bind {outcome : Except Failure α}
    (hnext : ∀ a, outcome = .ok a → SpendsOn rows (next a) budget) :
    SpendsOn rows (Mutation.liftExcept outcome >>= next) budget := by
  rw [SpendsOn, answered_bind]
  exact Spends.liftExcept_bind hnext

lemma underPath {operation : Action Rows (List Result)} (h : SpendsOn rows operation budget) :
    SpendsOn rows (Mutation.underPath path operation) budget := by
  rw [SpendsOn, Spends, run_answered_underPath]
  exact Program.costsAtMost_map h _

lemma resolvingUnder {resolve : Action Rows (Resolved Rows)} (h : SpendsOn rows resolve budget) :
    SpendsOn rows (Mutation.resolvingUnder path resolve) budget := by
  rw [SpendsOn, Spends, run_answered_resolvingUnder]
  exact Program.costsAtMost_map h _

end SpendsOn

/-- A call costs what its answer does. -/
lemma costsAtMost_call_iff {rows : RowAnswers} {request : RowRequest} {budget : Nat} :
    (Program.interpret rows (Program.ask (I := Rows) request Program.done)).CostsAtMost
        EffectRequest.price budget ↔ (rows request).CostsAtMost EffectRequest.price budget := by
  rw [answered_ask]
  exact Iff.rfl

/-- Actions that run in turn send no more statements than this. -/
abbrev SpendsInTurn (rows : RowAnswers) (actions : List (Action Rows α)) (budget : Nat) : Prop :=
  (runAll rows actions).CostsAtMost EffectRequest.price budget

namespace SpendsInTurn

variable {rows : RowAnswers} {actions others : List (Action Rows α)} {budget more : Nat}

lemma nil : SpendsInTurn rows ([] : List (Action Rows α)) budget := trivial

lemma singleton {action : Action Rows α} (h : SpendsOn rows action budget) :
    SpendsInTurn rows [action] budget := Program.costsAtMost_sequence_singleton h

lemma append (h : SpendsInTurn rows actions budget) (hothers : SpendsInTurn rows others more) :
    SpendsInTurn rows (actions ++ others) (budget + more) := by
  rw [SpendsInTurn, runAll, List.map_append]
  exact Program.costsAtMost_sequence_append h hothers

/-- Taking siblings together is free. -/
lemma of_siblings {γ δ : Type}
    {classified : List (Except Failure α) → Except Failure γ × List Event} {f : γ → δ}
    {action : Action Rows δ} (h : SpendsInTurn rows actions budget)
    (haction : action.run = Program.sequence (actions.map ExceptT.run) >>= fun outcomes =>
      (together (classified outcomes) f).run) : SpendsOn rows action budget := by
  rw [SpendsOn, Spends, answered_eq_of_siblings haction]
  have htogether : ∀ trace outcomes, (runAll rows actions).Reaches trace (.done outcomes) →
      Spends (answered rows (together (classified outcomes) f)) 0 :=
    fun _ _ _ => silent_together.costsAtMost
  exact Program.costsAtMost_bind h htogether

lemma collectAll {operations : List (Action Rows (List Result))}
    (h : SpendsInTurn rows operations budget) : SpendsOn rows (collectAll operations) budget :=
  h.of_siblings (run_collectAll operations)

lemma resolve {values : FieldValues Rows} (h : SpendsInTurn rows values.deferred budget) :
    SpendsOn rows values.resolve budget := h.of_siblings values.run_resolve

end SpendsInTurn

/-- Nothing is left to pay for where nothing was left for after the statement. -/
lemma spendsOn_finish {rows : RowAnswers} {row : RowValues Rows} (h : row.after = []) :
    SpendsOn rows row.finish 0 := by
  have hcollect : SpendsOn rows (collectAll row.after) 0 := by
    rw [h]
    exact SpendsInTurn.nil.collectAll
  exact hcollect.bind_free fun _ => .pure _

/-! ### Sides of relations -/

namespace RelationSides

variable {schema : Schema} {entity : Entity} {field : String} {sides : RelationSides}

/-- The sides that were looked up are those of the field. -/
lemma typed_of_ofField (hs : schema.WellFormed) (hentity : schema.Declares entity)
    (h : ofField schema entity field = .ok sides) :
    sides.Typed schema ∧ ofField schema sides.entity sides.relation.name = .ok sides := by
  obtain ⟨own, relation, target, paired⟩ := sides
  obtain ⟨rfl, hrelation⟩ := relation_of_ofField h
  obtain ⟨target, htarget⟩ := hs.targetEntity_eq_ok hentity hrelation
  obtain ⟨paired, hsides, htyped⟩ := typed_ofField hs hentity hrelation htarget
  cases h.symm.trans hsides
  refine ⟨htyped, ?_⟩
  rw [(hs.wellFormed hentity).relation_name hrelation]
  exact h

/-- The pair of an inverse relation stores the links, and leads back. -/
lemma Typed.exists_back (hs : schema.WellFormed) (h : sides.Typed schema)
    (hkind : sides.kind.isOwning = false) {paired : Relation} (hpair : sides.pair = .ok paired) :
    ∃ back, ofField schema sides.target paired.name = .ok back ∧
      back.kind = sides.kind.opposite := by
  obtain ⟨own, hown, hpairs⟩ := h.paired hkind
  rw [pair, hown] at hpair
  cases hpair
  obtain ⟨back, hback, -⟩ := typed_ofField hs h.target hpairs.relation hpairs.targetEntity
  exact ⟨_, hback, hpairs.kind⟩

end RelationSides

/-! ### Inputs of relations -/

/-- Operations on rows that are answered within the weight of their data, as long as that is no more
than the limit; what is added to the data of a write is settled within two levels. -/
structure Affords (schema : Schema) (rows : RowAnswers) (limit : Nat) : Prop where
  selectField : 1 ≤ limit → ∀ entity which field,
    SpendsOn rows (Rows.selectField entity which field) 1
  primaryValue : 1 ≤ limit → ∀ entity which, SpendsOn rows (Rows.primaryValue entity which) 1
  connect : 1 ≤ limit → ∀ owner relation ownerKey inversedKey,
    SpendsOn rows (Rows.connect owner relation ownerKey inversedKey) 1
  disconnect : 1 ≤ limit → ∀ owner relation ownerKey inversedKey,
    SpendsOn rows (Rows.disconnect owner relation ownerKey inversedKey) 1
  insert : ∀ {entity data}, schema.Declares entity → data.RemovesNothing schema entity →
    data.weight ≤ limit → SpendsOn rows (Rows.insert entity data) data.weight
  update : ∀ {entity data} which, schema.Declares entity → data.RemovesNothing schema entity →
    data.weight ≤ limit → SpendsOn rows (Rows.update entity which data) data.weight
  /-- A row lets go of its target. -/
  clear : 1 ≤ limit → ∀ {entity field sides} which,
    RelationSides.ofField schema entity field = .ok sides → sides.kind.hasJoiningColumn = true →
    SpendsOn rows (Rows.update entity which (disconnecting field)) 2
  /-- A row connects to a target that another row may have to let go. -/
  claim : 2 ≤ limit → ∀ {entity field sides} which target, schema.Declares entity →
    RelationSides.ofField schema entity field = .ok sides → sides.kind = .oneHasOneOwning →
    SpendsOn rows (Rows.update entity which (Data.empty.withOne field (.connect target))) 6

namespace Affords

variable {schema : Schema} {rows : RowAnswers} {limit : Nat} {sides : RelationSides}
  {own : Option Value}

variable (h : Affords schema rows limit)
include h

/-! What is resolved for a joining column -/

lemma spends_claimTarget (hlimit : 1 ≤ limit) (which : UniqueWhere)
    (hsides : RelationSides.ofField schema sides.entity sides.relation.name = .ok sides)
    (hjoining : sides.kind.hasJoiningColumn = true) :
    SpendsOn rows (claimTarget sides which own) 4 := by
  refine .bind_le 1 3 (h.primaryValue hlimit _ _) (fun found => ?_) le_rfl
  cases found with
  | none => exact .pure _
  | some target =>
    dsimp only
    split
    · exact .pure _
    · refine .bind_le 1 2 (h.primaryValue hlimit _ _) (fun claimed => ?_) le_rfl
      cases claimed with
      | none => exact .pure _
      | some owner =>
        dsimp only
        split
        · exact .pure _
        · exact (h.clear hlimit _ hsides hjoining).bind_free fun results => .pure _

lemma spends_insertTarget {data : Data} (htarget : schema.Declares sides.target)
    (hdata : data.RemovesNothing schema sides.target) (hlimit : data.weight ≤ limit) :
    SpendsOn rows (insertTarget sides data) data.weight :=
  (h.insert htarget hdata hlimit).bind_free fun _ => .pure _

/-- What an input resolves for the joining column stays within its weight. -/
lemma spends_joins {input : ToOneInput} {resolve : Action Rows (Resolved Rows)}
    (hjoins : Joins sides own input resolve) (htyped : sides.Typed schema)
    (hsides : RelationSides.ofField schema sides.entity sides.relation.name = .ok sides)
    (hjoining : sides.kind.hasJoiningColumn = true)
    (hretains : sides.Retains schema input.operation input.parts) (hlimit : input.weight ≤ limit) :
    SpendsOn rows resolve input.weight := by
  cases hjoins with
  | connect own which =>
    have hone : 1 ≤ limit := by
      rw [ToOneInput.weight] at hlimit
      omega
    exact (h.spends_claimTarget hone which hsides hjoining).mono (by simp [ToOneInput.weight])
  | create own data =>
    rw [ToOneInput.weight] at hlimit ⊢
    have hdata : data.RemovesNothing schema sides.target :=
      hretains.parts (true, data) List.mem_cons_self
    exact (h.spends_insertTarget htyped.target hdata (by omega)).mono (by omega)
  | upsert primary create update =>
    rw [ToOneInput.weight] at hlimit ⊢
    have hcreate : create.RemovesNothing schema sides.target :=
      hretains.parts (true, create) List.mem_cons_self
    have hupdate : update.RemovesNothing schema sides.target :=
      hretains.parts (false, update) (List.mem_cons_of_mem _ List.mem_cons_self)
    refine .bind_le 1 (create.weight + update.weight) (h.selectField (by omega) _ _ _)
      (fun found => ?_) (by omega)
    cases found with
    | none => exact (h.spends_insertTarget htyped.target hcreate (by omega)).mono (by omega)
    | some target =>
      have hwrite := h.update (byPrimary sides.target target) htyped.target hupdate (by omega)
      exact .bind_le update.weight 0 hwrite (fun results => .pure _) (by omega)
  | delete primary => exact absurd rfl hretains.operation

/-! Operations of has-one inputs beside the row -/

variable {row : RelatedRow} {paired : Relation}

lemma spends_updateTarget {data : Data} (htarget : schema.Declares row.sides.target)
    (hdata : data.RemovesNothing schema row.sides.target) (hlimit : data.weight < limit) :
    SpendsOn rows (row.updateTarget data) (1 + data.weight) := by
  refine (h.selectField (by omega) _ _ _).bind fun found => ?_
  cases found with
  | none => exact .pure _
  | some target => exact h.update _ htarget hdata hlimit.le

/-- The data of a new target, pointed at the row. -/
lemma spends_insertLinked {data : Data} (htarget : schema.Declares row.sides.target)
    (hdata : data.RemovesNothing schema row.sides.target) (hlimit : data.weight ≤ limit) :
    SpendsOn rows (Rows.insert row.sides.target (row.linked paired data)) data.weight := by
  have hle : (row.linked paired data).weight ≤ data.weight := data.weight_withValue_le _ _
  exact (h.insert htarget (hdata.withValue _ _) (hle.trans hlimit)).mono hle

/-- A target that exists is pointed at the row. -/
lemma spends_updateLinked (htarget : schema.Declares row.sides.target) (hlimit : 2 ≤ limit)
    (which : UniqueWhere) :
    SpendsOn rows (Rows.update row.sides.target which (row.linked paired .empty)) 2 :=
  h.update which htarget (Data.removesNothing_empty.withValue _ _) hlimit

lemma spends_upsertInverse {which : UniqueWhere} {update create : Data}
    (htarget : schema.Declares row.sides.target)
    (hupdate : update.RemovesNothing schema row.sides.target)
    (hcreate : create.RemovesNothing schema row.sides.target)
    (hlimit : update.weight + create.weight ≤ limit) :
    SpendsOn rows (row.upsertInverse paired which update create)
      (update.weight + create.weight) := by
  refine (h.update which htarget hupdate (by omega)).bind fun results => ?_
  cases foundRow? results with
  | none => exact h.spends_insertLinked htarget hcreate (by omega)
  | some found => exact .pure _

/-- What an input on an inverse relation asks for stays within its weight. -/
lemma spends_inverseOperation {input : ToOneInput} {back : RelationSides}
    (htarget : schema.Declares row.sides.target)
    (hback : RelationSides.ofField schema row.sides.target paired.name = .ok back)
    (hkind : back.kind = .oneHasOneOwning)
    (hretains : row.sides.Retains schema input.operation input.parts)
    (hlimit : input.weight ≤ limit) :
    SpendsOn rows (row.inverseOperation paired input) input.weight := by
  have hjoining : back.kind.hasJoiningColumn = true := by
    rw [hkind]
    rfl
  cases input with
  | connect which =>
    rw [ToOneInput.weight] at hlimit
    exact h.claim (by omega) _ _ htarget hback hkind
  | create data =>
    rw [ToOneInput.weight] at hlimit ⊢
    have hdata : data.RemovesNothing schema row.sides.target :=
      hretains.parts (true, data) List.mem_cons_self
    refine (h.clear (by omega) _ hback hjoining).bind fun previous => ?_
    exact (h.spends_insertLinked htarget hdata (by omega)).bind_free fun inserted => .pure _
  | update data =>
    rw [ToOneInput.weight] at hlimit ⊢
    have hdata : data.RemovesNothing schema row.sides.target :=
      hretains.parts (false, data) List.mem_cons_self
    exact (h.update _ htarget hdata (by omega)).mono (by omega)
  | upsert create update =>
    rw [ToOneInput.weight] at hlimit ⊢
    have hcreate : create.RemovesNothing schema row.sides.target :=
      hretains.parts (true, create) List.mem_cons_self
    have hupdate : update.RemovesNothing schema row.sides.target :=
      hretains.parts (false, update) (List.mem_cons_of_mem _ List.mem_cons_self)
    exact (h.spends_upsertInverse htarget hupdate hcreate (by omega)).mono (by omega)
  | disconnect =>
    rw [ToOneInput.weight] at hlimit
    exact h.clear (by omega) _ hback hjoining
  | delete => exact absurd rfl hretains.operation

/-- The target of a new row is looked up with the row that it points at, and pointed at the new one;
as no orphans are removed, nothing follows. -/
lemma spends_connectInverse (which : UniqueWhere) (htarget : schema.Declares row.sides.target)
    (horphans : ¬ row.sides.RemovesOrphans) (hlimit : 2 ≤ limit) :
    SpendsOn rows (row.connectInverse which) 4 := by
  refine .liftExcept_bind fun paired hpair => ?_
  have hkeeps : paired.removesOrphans = false := by
    rw [RelationSides.pair] at hpair
    split at hpair
    · rename_i hpaired
      cases hpair
      exact Bool.eq_false_iff.mpr fun hremoves => horphans (.inr ⟨_, hpaired, hremoves⟩)
    · cases hpair
  refine .bind_le 1 3 (h.primaryValue (by omega) _ _) (fun found => ?_) le_rfl
  cases found with
  | none => exact .pure _
  | some target =>
    refine .bind_le 1 2 (h.selectField (by omega) _ _ _) (fun previous => ?_) le_rfl
    split
    · exact .pure _
    · refine (h.spends_updateLinked htarget hlimit _).bind_free fun results => ?_
      rw [hkeeps]
      cases previous <;> exact .pure _

/-! Operations of to-many inputs -/

/-- What an item of a one-to-many relation asks for stays within its weight. -/
lemma spends_itemOperation {input : ToManyInput} {back : RelationSides}
    (htarget : schema.Declares row.sides.target)
    (hback : RelationSides.ofField schema row.sides.target paired.name = .ok back)
    (hjoining : back.kind.hasJoiningColumn = true)
    (hretains : row.sides.Retains schema input.operation input.parts)
    (hlimit : input.weight ≤ limit) :
    SpendsOn rows (row.itemOperation paired input) input.weight := by
  cases input with
  | connect which =>
    rw [ToManyInput.weight] at hlimit
    exact h.spends_updateLinked htarget hlimit which
  | create data =>
    rw [ToManyInput.weight] at hlimit ⊢
    have hdata : data.RemovesNothing schema row.sides.target :=
      hretains.parts (true, data) List.mem_cons_self
    exact (h.spends_insertLinked htarget hdata (by omega)).mono (by omega)
  | update which data =>
    rw [ToManyInput.weight] at hlimit ⊢
    have hdata : data.RemovesNothing schema row.sides.target :=
      hretains.parts (false, data) List.mem_cons_self
    exact (h.update _ htarget hdata (by omega)).mono (by omega)
  | upsert which update create =>
    rw [ToManyInput.weight] at hlimit ⊢
    have hupdate : update.RemovesNothing schema row.sides.target :=
      hretains.parts (false, update) List.mem_cons_self
    have hcreate : create.RemovesNothing schema row.sides.target :=
      hretains.parts (true, create) (List.mem_cons_of_mem _ List.mem_cons_self)
    exact (h.spends_upsertInverse htarget hupdate hcreate (by omega)).mono (by omega)
  | disconnect which =>
    rw [ToManyInput.weight] at hlimit
    exact h.clear (by omega) _ hback hjoining
  | delete which => exact absurd rfl hretains.operation

lemma spends_connectJunction (hlimit : 1 ≤ limit) (target : Value) :
    SpendsOn rows (row.connectJunction target) 1 := by
  rw [RelatedRow.connectJunction]
  split
  · exact h.connect hlimit _ _ _ _
  · exact .liftExcept_bind fun _ _ => h.connect hlimit _ _ _ _

lemma spends_disconnectJunction (hlimit : 1 ≤ limit) (target : Value) :
    SpendsOn rows (row.disconnectJunction target) 1 := by
  rw [RelatedRow.disconnectJunction]
  split
  · exact h.disconnect hlimit _ _ _ _
  · exact .liftExcept_bind fun _ _ => h.disconnect hlimit _ _ _ _

lemma spends_insertThenConnect {data : Data} (htarget : schema.Declares row.sides.target)
    (hdata : data.RemovesNothing schema row.sides.target) (hlimit : data.weight < limit) :
    SpendsOn rows (row.insertLinked data) (data.weight + 1) := by
  refine (h.insert htarget hdata hlimit.le).bind fun results => ?_
  cases createdKey? results with
  | none => exact .pure _
  | some target =>
    exact (h.spends_connectJunction (by omega) target).bind_free fun _ => .pure _

lemma spends_updateThenConnect {data : Data} (htarget : schema.Declares row.sides.target)
    (hdata : data.RemovesNothing schema row.sides.target) (hlimit : data.weight < limit)
    (target : Value) : SpendsOn rows (row.updateLinked target data) (data.weight + 1) := by
  refine (h.update _ htarget hdata hlimit.le).bind fun results => ?_
  exact (h.spends_connectJunction (by omega) target).bind_free fun _ => .pure _

/-- What an item of a many-to-many relation asks for stays within its weight. -/
lemma spends_junctionOperation {input : ToManyInput} (htarget : schema.Declares row.sides.target)
    (hretains : row.sides.Retains schema input.operation input.parts)
    (hlimit : input.weight ≤ limit) :
    SpendsOn rows (row.junctionOperation input) input.weight := by
  cases input with
  | connect which =>
    rw [ToManyInput.weight] at hlimit
    refine .bind_le 1 1 (h.primaryValue (by omega) _ _) (fun found => ?_) le_rfl
    cases found with
    | none => exact .pure _
    | some target => exact h.spends_connectJunction (by omega) target
  | create data =>
    rw [ToManyInput.weight] at hlimit ⊢
    have hdata : data.RemovesNothing schema row.sides.target :=
      hretains.parts (true, data) List.mem_cons_self
    exact (h.spends_insertThenConnect htarget hdata (by omega)).mono (by omega)
  | update which data =>
    rw [ToManyInput.weight] at hlimit ⊢
    have hdata : data.RemovesNothing schema row.sides.target :=
      hretains.parts (false, data) List.mem_cons_self
    refine .bind_le 1 (data.weight + 1) (h.primaryValue (by omega) _ _) (fun found => ?_) (by omega)
    cases found with
    | none => exact .pure _
    | some target => exact h.spends_updateThenConnect htarget hdata (by omega) target
  | upsert which update create =>
    rw [ToManyInput.weight] at hlimit ⊢
    have hupdate : update.RemovesNothing schema row.sides.target :=
      hretains.parts (false, update) List.mem_cons_self
    have hcreate : create.RemovesNothing schema row.sides.target :=
      hretains.parts (true, create) (List.mem_cons_of_mem _ List.mem_cons_self)
    refine .bind_le 1 (update.weight + create.weight + 1) (h.primaryValue (by omega) _ _)
      (fun found => ?_) (by omega)
    cases found with
    | none => exact (h.spends_insertThenConnect htarget hcreate (by omega)).mono (by omega)
    | some target =>
      exact (h.spends_updateThenConnect htarget hupdate (by omega) target).mono (by omega)
  | disconnect which =>
    rw [ToManyInput.weight] at hlimit
    refine .bind_le 1 1 (h.primaryValue (by omega) _ _) (fun found => ?_) le_rfl
    cases found with
    | none => exact .pure _
    | some target => exact h.spends_disconnectJunction (by omega) target
  | delete which => exact absurd rfl hretains.operation

/-- The items of a to-many relation take their turns within their weights. -/
lemma spends_toManyFrom (row : RelatedRow) (hs : schema.WellFormed)
    (htyped : row.sides.Typed schema) {items : List ToManyItem} (hretains : ∀ item ∈ items,
      row.sides.Retains schema item.input.operation item.input.parts)
    (hlimit : weightOfItems items ≤ limit) {index : Nat}
    {operations : List (Action Rows (List Result))}
    (hoperations : row.toManyFrom index items = .ok operations) :
    SpendsInTurn rows operations (weightOfItems items) := by
  induction items generalizing index operations with
  | nil =>
    cases hoperations
    exact .nil
  | cons item rest ih =>
    obtain ⟨operation, hoperation, hrest⟩ := Except.bind_eq_ok.mp hoperations
    obtain ⟨others, hothers, hdone⟩ := Except.bind_eq_ok.mp hrest
    cases hdone
    obtain ⟨hitem, hitems⟩ := List.forall_mem_cons.mp hretains
    obtain ⟨label, input⟩ := item
    rw [weightOfItems] at hlimit ⊢
    have hinput : input.weight ≤ limit := by omega
    have hown : SpendsOn rows operation input.weight := by
      unfold RelatedRow.toManyOperation at hoperation
      dsimp only at hoperation
      split at hoperation
      · rename_i hkind
        obtain ⟨paired, hpair, hoperation⟩ := Except.bind_eq_ok.mp hoperation
        cases hoperation
        obtain ⟨back, hback, hopposite⟩ := htyped.exists_back hs (by rw [hkind]; rfl) hpair
        have hjoining : back.kind.hasJoiningColumn = true := by
          rw [hopposite, hkind]
          rfl
        exact (h.spends_itemOperation htyped.target hback hjoining hitem hinput).underPath
      · cases hoperation
        exact (h.spends_junctionOperation htyped.target hitem hinput).underPath
      · cases hoperation
        exact (h.spends_junctionOperation htyped.target hitem hinput).underPath
      · cases hoperation
    exact (SpendsInTurn.singleton hown).append (ih hitems (by omega) hothers)

/-- What an input on a has-one relation of an existing row runs beside the row stays within its
weight. -/
lemma spends_toOneStep_run (hs : schema.WellFormed) (htyped : row.sides.Typed schema)
    {input : ToOneInput} (hretains : row.sides.Retains schema input.operation input.parts)
    (hlimit : input.weight ≤ limit) {operation : Action Rows (List Result)}
    (hstep : row.toOneStep input = .ok (.run operation)) :
    SpendsOn rows operation input.weight := by
  have hrefuse (path : Path) (heq : refuseNull path = .run operation) :
      SpendsOn rows operation input.weight := by
    cases heq
    exact SpendsOn.underPath (.pure _)
  have howning (heq : row.owningStep input = .run operation) :
      SpendsOn rows operation input.weight := by
    cases input with
    | connect which => cases heq
    | create data => cases heq
    | update data =>
      cases heq
      rw [ToOneInput.weight] at hlimit ⊢
      have hdata : data.RemovesNothing schema row.sides.target :=
        hretains.parts (false, data) List.mem_cons_self
      exact (h.spends_updateTarget htyped.target hdata (by omega)).underPath
    | upsert create update => cases heq
    | disconnect =>
      rw [RelatedRow.owningStep] at heq
      split at heq
      · cases heq
      · exact hrefuse _ heq
    | delete => exact absurd rfl hretains.operation
  rw [RelatedRow.toOneStep] at hstep
  split at hstep
  · exact howning (Except.ok.inj hstep)
  · exact howning (Except.ok.inj hstep)
  · rename_i hkind
    obtain ⟨paired, hpair, hstep⟩ := Except.bind_eq_ok.mp hstep
    cases hstep
    obtain ⟨back, hback, hopposite⟩ := htyped.exists_back hs (by rw [hkind]; rfl) hpair
    have hback' : back.kind = .oneHasOneOwning := by
      rw [hopposite, hkind]
      rfl
    exact (h.spends_inverseOperation htyped.target hback hback' hretains hlimit).underPath
  · cases hstep

/-- What an input on an inverse relation of a new row runs once the row has its key stays within its
weight. -/
lemma spends_createToOne (htyped : row.sides.Typed schema) {input : ToOneInput}
    (hretains : row.sides.Retains schema input.operation input.parts)
    (hlimit : input.weight ≤ limit) {operation : Action Rows (List Result)}
    (hoperation : row.createToOne input = .ok operation) :
    SpendsOn rows operation input.weight := by
  unfold RelatedRow.createToOne at hoperation
  split at hoperation
  · rename_i which _
    cases hoperation
    rw [ToOneInput.weight] at hlimit ⊢
    have hconnect := h.spends_connectInverse which htyped.target hretains.orphans (by omega)
    exact (hconnect.mono (by omega)).underPath
  · rename_i data _
    obtain ⟨paired, hpair, hoperation⟩ := Except.bind_eq_ok.mp hoperation
    cases hoperation
    rw [ToOneInput.weight] at hlimit ⊢
    have hdata : data.RemovesNothing schema row.sides.target :=
      hretains.parts (true, data) List.mem_cons_self
    exact ((h.spends_insertLinked htyped.target hdata (by omega)).mono (by omega)).underPath
  · cases hoperation

end Affords

end Mutation

end EntityGraph
