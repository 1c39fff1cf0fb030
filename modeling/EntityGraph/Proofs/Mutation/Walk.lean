import EntityGraph.Proofs.Filter.Decoding
import EntityGraph.Proofs.Mutation.Batch
import EntityGraph.Proofs.Mutation.Checking
import EntityGraph.Proofs.Mutation.TypeSafety
/-!
# The walk of a deletion

A deletion goes through the relations that point at the rows it has deleted, in the order of the
schema. Rows that it deletes on the way are followed at once, before the relation that comes next.
What is still to be visited is therefore a stack of visits: each one sends at most one statement,
and the answer to it says what is visited before the rest.
-/
namespace EntityGraph

open Sql (ConditionTree)

namespace Filter

variable {schema : Schema} {entity : Entity} {filter predicate : Filter} {own rule : ConditionTree}

/-- A condition along with that of a predicate, unless the predicate restricts nothing. -/
def restricted (own : ConditionTree) (predicate : Filter) (rule : ConditionTree) : ConditionTree :=
  if predicate.isEmpty then own else .and [.condition own, .condition rule]

lemma toTree_andWith (hfilter : filter.isEmpty = false)
    (hown : filter.toTree schema entity = .ok own)
    (hrule : predicate.toTree schema entity = .ok rule) :
    (filter.andWith predicate).toTree schema entity = .ok (restricted own predicate rule) := by
  rw [andWith, hfilter, if_neg Bool.false_ne_true, restricted]
  split
  · exact hown
  · rw [toTree_all (List.cons_ne_nil _ _), operandTrees, operandTrees, operandTrees, hown, hrule]
    rfl

end Filter

namespace Mutation

/-- A question to the access rules, with their answer. -/
def ruling (entity : Entity) (operation : AccessOperation) (fields : List String)
    (predicate : Filter) : Program.Exchange Effect :=
  ⟨.predicate entity operation fields, predicate⟩

/-- The deletion of the rows that satisfy a condition. -/
def deleting (entity : Entity) (tree : ConditionTree)
    (reply : Except Database.Error Database.ResultSet) : Program.Exchange Effect :=
  ⟨.query (.delete ⟨Sql.table entity.tableName, some tree, [Sql.column entity.primaryColumn]⟩),
    reply⟩

/-- The clearing of a joining column in the rows that satisfy a condition. -/
def clearing (owner : Entity) (joining : JoiningColumn) (tree : ConditionTree)
    (reply : Except Database.Error Nat) : Program.Exchange Effect :=
  ⟨.execute (.update ⟨Sql.table owner.tableName,
    [(Sql.column joining.columnName, .param .null)], some tree, []⟩), reply⟩

/-- The keys in the answer to a deletion. -/
def keysIn (entity : Entity) (reply : Except Database.Error Database.ResultSet) :
    Except Failure (List Value) :=
  (reply >>= fun set => set.columnValues entity.primaryColumn).mapError .database

/-- A relation that points at rows of `target`, of which those with some keys are deleted. -/
structure Visit where
  target : Entity
  keys : List Value
  owner : Entity
  relation : Relation

/-- What there is to visit after rows of `target` were deleted, which is nothing if there were
none. -/
def visits (schema : Schema) (target : Entity) (keys : List Value) : List Visit :=
  if keys.isEmpty then []
  else (schema.owningRelationsTo target.name).map fun pair => ⟨target, keys, pair.1, pair.2⟩

namespace Visit

/-- The condition of the rows that point at the deleted ones. -/
def pointing (visit : Visit) (joining : JoiningColumn) : ConditionTree :=
  (Condition.oneOf visit.keys).toTree (Sql.column joining.columnName)

/-- What a visit asks and sends, and the keys of the rows that it has deleted. -/
inductive Step (schema : Schema) (visit : Visit) :
    List (Program.Exchange Effect) → Except Failure (List Value) → Prop
  | restrict {joining : JoiningColumn} (hjoining : visit.relation.joiningColumn? = some joining)
      (hpolicy : joining.onDelete = .restrict) : Step schema visit [] (.ok [])
  | setNull {joining : JoiningColumn} {predicate : Filter} {rule : ConditionTree}
      (hjoining : visit.relation.joiningColumn? = some joining)
      (hpolicy : joining.onDelete = .setNull)
      (hrule : predicate.toTree schema visit.owner = .ok rule)
      (reply : Except Database.Error Nat) :
      Step schema visit
        [ruling visit.owner .update [visit.relation.name] predicate,
          clearing visit.owner joining (Filter.restricted (visit.pointing joining) predicate rule)
            reply]
        ((reply.mapError .database).map fun _ => [])
  | cascade {joining : JoiningColumn} {predicate : Filter} {rule : ConditionTree}
      (hjoining : visit.relation.joiningColumn? = some joining)
      (hpolicy : joining.onDelete = .cascade)
      (hrule : predicate.toTree schema visit.owner = .ok rule)
      (reply : Except Database.Error Database.ResultSet) :
      Step schema visit
        [ruling visit.owner .delete [] predicate,
          deleting visit.owner (Filter.restricted (visit.pointing joining) predicate rule) reply]
        (keysIn visit.owner reply)

end Visit

/-- The visits are made one after another. Where one of them deletes rows, what points at these is
visited before the others; where one fails, the walk ends. -/
inductive Walk (schema : Schema) :
    List Visit → List (Program.Exchange Effect) → Except Failure Unit → Prop
  | done : Walk schema [] [] (.ok ())
  | fails {visit : Visit} {others : List Visit} {own : List (Program.Exchange Effect)}
      {failure : Failure} (hstep : visit.Step schema own (.error failure)) :
      Walk schema (visit :: others) own (.error failure)
  | goesOn {visit : Visit} {others : List Visit} {own rest : List (Program.Exchange Effect)}
      {keys : List Value} {outcome : Except Failure Unit}
      (hstep : visit.Step schema own (.ok keys))
      (hrest : Walk schema (visits schema visit.owner keys ++ others) rest outcome) :
      Walk schema (visit :: others) (own ++ rest) outcome

section Walk

variable {schema : Schema} {walked others : List Visit}
  {trace rest : List (Program.Exchange Effect)} {outcome : Except Failure Unit} {failure : Failure}

/-- A walk that has come to its end goes on with other visits. -/
lemma Walk.append (h : Walk schema walked trace (.ok ()))
    (hothers : Walk schema others rest outcome) :
    Walk schema (walked ++ others) (trace ++ rest) outcome := by
  generalize hdone : (.ok () : Except Failure Unit) = result at h
  induction h with
  | done => exact hothers
  | fails _ => cases hdone
  | goesOn hstep _ ih =>
    rw [List.append_assoc] at ih
    rw [List.append_assoc, List.cons_append]
    exact .goesOn hstep (ih hdone)

/-- A walk that fails comes to no other visits. -/
lemma Walk.append_error (h : Walk schema walked trace (.error failure)) (others : List Visit) :
    Walk schema (walked ++ others) trace (.error failure) := by
  generalize hfailed : (.error failure : Except Failure Unit) = result at h
  induction h with
  | done => cases hfailed
  | fails hstep =>
    cases hfailed
    exact .fails hstep
  | goesOn hstep _ ih =>
    rw [List.append_assoc] at ih
    exact .goesOn hstep (ih hfailed)

end Walk

/-! ### Visits in a schema -/

/-- The relation of the visit is one of the schema, and points at the target. -/
structure Visit.Points (schema : Schema) (visit : Visit) : Prop where
  owner : ∃ name, schema.entity name = .ok visit.owner
  relation : visit.owner.relation visit.relation.name = .ok visit.relation
  target : schema.targetEntity visit.relation = .ok visit.target
  joining : ∃ joining, visit.relation.joiningColumn? = some joining

lemma nodup_visits {schema : Schema} (hs : schema.WellFormed) (target : Entity)
    (keys : List Value) : (visits schema target keys).Nodup := by
  rw [visits]
  split
  · exact List.nodup_nil
  · refine (nodup_owningRelationsTo hs target.name).map ?_
    rintro ⟨owner, relation⟩ ⟨owner', relation'⟩ ⟨⟩
    rfl

lemma points_of_mem_visits {schema : Schema} (hs : schema.WellFormed) {name : String}
    {target : Entity} (he : schema.entity name = .ok target) {keys : List Value} {visit : Visit}
    (hmem : visit ∈ visits schema target keys) : visit.Points schema := by
  rw [visits] at hmem
  split at hmem
  · cases hmem
  · obtain ⟨⟨owner, relation⟩, hpair, rfl⟩ := List.mem_map.mp hmem
    obtain ⟨ownerName, joining, howner, hr, hj, ht⟩ := mem_owningRelationsTo hs he hpair
    exact ⟨⟨ownerName, howner⟩, hr, ht, ⟨joining, hj⟩⟩

lemma Visit.Points.toTree_pointingAt {schema : Schema} (hs : schema.WellFormed) {visit : Visit}
    (h : visit.Points schema) {joining : JoiningColumn}
    (hj : visit.relation.joiningColumn? = some joining) {predicate : Filter} {rule : ConditionTree}
    (hrule : predicate.toTree schema visit.owner = .ok rule) :
    ((pointingAt visit.target visit.relation visit.keys).andWith predicate).toTree schema
      visit.owner = .ok (Filter.restricted (visit.pointing joining) predicate rule) := by
  obtain ⟨name, howner⟩ := h.owner
  exact Filter.toTree_andWith rfl
    (Mutation.toTree_pointingAt hs howner h.relation hj h.target visit.keys) hrule

namespace Session

variable {session : Session} {entity : Entity} {filter : Filter} {tree : ConditionTree}
  {trace : List (Program.Exchange Effect)} {visit : Visit}
  {walk : Entity → List Value → Action Effect Unit} {outcome : Except Failure Unit}

/-! ### Single statements -/

/-- The rules are asked, and what follows goes on with the condition of their answer. -/
lemma permitted_bind_reaches_iff {α : Type} {operation : AccessOperation} {fields : List String}
    {next : ConditionTree → Action Effect α} {result : Except Failure α}
    (htrees : ∀ predicate, ruling entity operation fields predicate ∈ trace →
      ∃ tree, (filter.andWith predicate).toTree session.schema entity = .ok tree) :
    (session.permitted entity filter operation fields >>= next).run.Reaches trace (.done result) ↔
      ∃ predicate tree rest, trace = ruling entity operation fields predicate :: rest ∧
        (filter.andWith predicate).toTree session.schema entity = .ok tree ∧
        (next tree).run.Reaches rest (.done result) := by
  have hasked : (session.permitted entity filter operation fields >>= next).run =
      .ask (.predicate entity operation fields) fun predicate =>
        (liftExcept (((filter.andWith predicate).toTree session.schema entity).mapError .schema) >>=
          next).run := rfl
  rw [hasked]
  constructor
  · intro h
    obtain ⟨predicate, rest, hrest, rfl⟩ := Program.ask_reaches_done_iff.mp h
    obtain ⟨tree, htree⟩ := htrees predicate List.mem_cons_self
    rw [htree] at hrest
    exact ⟨predicate, tree, rest, rfl, htree, hrest⟩
  · rintro ⟨predicate, tree, rest, rfl, htree, hrest⟩
    refine Program.ask_reaches_done_iff.mpr ⟨predicate, rest, ?_, rfl⟩
    rw [htree]
    exact hrest

lemma deletion_reaches_iff {result : Except Failure (List Value)} :
    (session.query (.delete ⟨Sql.table entity.tableName, some tree,
        [Sql.column entity.primaryColumn]⟩) >>= fun set =>
      liftExcept ((set.columnValues entity.primaryColumn).mapError .database)).run.Reaches trace
        (.done result) ↔
      ∃ reply, trace = [deleting entity tree reply] ∧ result = keysIn entity reply := by
  rw [Program.run_bind_reaches_done_iff]
  constructor
  · rintro (⟨failure, hsent, rfl⟩ | ⟨first, set, rest, hsent, hrest, rfl⟩)
    · obtain ⟨e | set, rfl, hreply⟩ := session.query_reaches_iff.mp hsent
      · cases hreply
        exact ⟨.error e, rfl, rfl⟩
      · cases hreply
    · obtain ⟨e | set', rfl, hreply⟩ := session.query_reaches_iff.mp hsent
      · cases hreply
      cases hreply
      obtain ⟨rfl, hdone⟩ := Program.done_reaches_iff.mp hrest
      exact ⟨.ok set, rfl, Program.done.inj hdone⟩
  · rintro ⟨e | set, rfl, rfl⟩
    · exact .inl ⟨_, session.query_reaches_iff.mpr ⟨.error e, rfl, rfl⟩, rfl⟩
    · exact .inr ⟨_, set, [], session.query_reaches_iff.mpr ⟨.ok set, rfl, rfl⟩, .here _, rfl⟩

lemma clearing_reaches_iff {owner : Entity} {relation : Relation} {joining : JoiningColumn}
    (hr : owner.relation relation.name = .ok relation)
    (hj : relation.joiningColumn? = some joining) {result : Except Failure (List Value)} :
    ((do
      let column ← liftExcept ((owner.columnName relation.name).mapError .schema)
      let rows ← session.execute
        (.update ⟨Sql.table owner.tableName, [(Sql.column column, .param .null)], some tree, []⟩)
      note (.clearedReferences owner.name relation.name rows)) >>= fun _ =>
        (return [] : Action Effect (List Value))).run.Reaches trace (.done result) ↔
      ∃ reply, trace = [clearing owner joining tree reply] ∧
        result = (reply.mapError .database).map fun _ => [] := by
  rw [Entity.columnName_of_relation hr hj]
  show (session.execute (.update ⟨Sql.table owner.tableName,
    [(Sql.column joining.columnName, .param .null)], some tree, []⟩) >>= _ >>= _).run.Reaches
      trace _ ↔ _
  rw [bind_assoc, Program.run_bind_reaches_done_iff]
  constructor
  · rintro (⟨failure, hsent, rfl⟩ | ⟨first, rows, rest, hsent, hrest, rfl⟩)
    · obtain ⟨e | rows, rfl, hreply⟩ := execute_reaches_iff.mp hsent
      · cases hreply
        exact ⟨.error e, rfl, rfl⟩
      · cases hreply
    · obtain ⟨e | rows', rfl, hreply⟩ := execute_reaches_iff.mp hsent
      · cases hreply
      cases hreply
      obtain ⟨rfl, hdone⟩ := Program.done_reaches_iff.mp (Program.note_reaches_done_iff.mp hrest)
      exact ⟨.ok rows, rfl, Program.done.inj hdone⟩
  · rintro ⟨e | rows, rfl, rfl⟩
    · exact .inl ⟨_, execute_reaches_iff.mpr ⟨.error e, rfl, rfl⟩, rfl⟩
    · exact .inr ⟨_, rows, [], execute_reaches_iff.mpr ⟨.ok rows, rfl, rfl⟩, .note (.here _), rfl⟩

/-! ### Visits -/

/-- Whether the access rules answer with filters that fit. -/
def FittingRules (schema : Schema) : Rules := fun entity _ _ predicate =>
  Filter.Everywhere schema Filter.Fits entity predicate

/-- A visit up to where it goes on with what it has deleted. -/
def visitStep (session : Session) (visit : Visit) : Action Effect (List Value) :=
  match visit.relation.joiningColumn? with
  | none => throw (.schema
      (.invalidRelation visit.owner.name visit.relation.name .missingJoiningColumn))
  | some joining =>
    let pointing := pointingAt visit.target visit.relation visit.keys
    match joining.onDelete with
    | .restrict => return []
    | .cascade => session.deleteBatch visit.owner pointing
    | .setNull => do
      session.clearReferences visit.owner visit.relation pointing
      return []

/-- What a visit does about the keys of rows that it has deleted. -/
def pursue (walk : Entity → List Value → Action Effect Unit) (owner : Entity) (keys : List Value) :
    Action Effect Unit :=
  if keys.isEmpty then return () else walk owner keys

lemma visitRelation_eq (session : Session) (walk : Entity → List Value → Action Effect Unit)
    (visit : Visit) :
    session.visitRelation walk visit.target visit.keys visit.owner visit.relation = (do
      let keys ← session.visitStep visit
      pursue walk visit.owner keys) := by
  unfold visitRelation visitStep
  cases visit.relation.joiningColumn? with
  | none => rfl
  | some joining =>
    dsimp only
    cases joining.onDelete with
    | restrict | cascade => rfl
    | setNull =>
      rw [bind_assoc]
      exact (bind_pure _).symm

section Step

variable (hs : session.schema.WellFormed) (hvisit : visit.Points session.schema)
  (hrules : ∀ exchange ∈ trace, exchange.Obeys (FittingRules session.schema))
include hs hvisit hrules

lemma exists_rule {operation : AccessOperation} {fields : List String} {predicate : Filter}
    (hmem : ruling visit.owner operation fields predicate ∈ trace) :
    ∃ rule, predicate.toTree session.schema visit.owner = .ok rule := by
  obtain ⟨name, howner⟩ := hvisit.owner
  exact Filter.exists_tree hs howner predicate (hrules _ hmem)

/-- A visit runs through its step. -/
theorem visitStep_reaches_iff {result : Except Failure (List Value)} :
    (session.visitStep visit).run.Reaches trace (.done result) ↔
      visit.Step session.schema trace result := by
  obtain ⟨joining, hj⟩ := hvisit.joining
  have htree {predicate : Filter} {rule : ConditionTree}
      (hrule : predicate.toTree session.schema visit.owner = .ok rule) :=
    hvisit.toTree_pointingAt hs hj hrule
  have htrees {operation : AccessOperation} {fields : List String} (predicate : Filter)
      (hmem : ruling visit.owner operation fields predicate ∈ trace) :
      ∃ tree, ((pointingAt visit.target visit.relation visit.keys).andWith predicate).toTree
        session.schema visit.owner = .ok tree := by
    obtain ⟨rule, hrule⟩ := exists_rule hs hvisit hrules hmem
    exact ⟨_, htree hrule⟩
  constructor
  · intro h
    simp only [visitStep, hj] at h
    cases hpolicy : joining.onDelete with
    | restrict =>
      simp only [hpolicy] at h
      obtain ⟨rfl, hdone⟩ := Program.done_reaches_iff.mp h
      cases hdone
      exact .restrict hj hpolicy
    | cascade =>
      simp only [hpolicy] at h
      obtain ⟨predicate, tree, rest, rfl, hfound, hrest⟩ := (permitted_bind_reaches_iff htrees).mp h
      obtain ⟨rule, hrule⟩ := exists_rule hs hvisit hrules List.mem_cons_self
      cases (htree hrule).symm.trans hfound
      obtain ⟨reply, rfl, rfl⟩ := deletion_reaches_iff.mp hrest
      exact .cascade hj hpolicy hrule reply
    | setNull =>
      simp only [hpolicy] at h
      rw [clearReferences, bind_assoc] at h
      obtain ⟨predicate, tree, rest, rfl, hfound, hrest⟩ := (permitted_bind_reaches_iff htrees).mp h
      obtain ⟨rule, hrule⟩ := exists_rule hs hvisit hrules List.mem_cons_self
      cases (htree hrule).symm.trans hfound
      obtain ⟨reply, rfl, rfl⟩ := (clearing_reaches_iff hvisit.relation hj).mp hrest
      exact .setNull hj hpolicy hrule reply
  · intro hstep
    cases hstep with
    | restrict hjoining hpolicy =>
      cases hj.symm.trans hjoining
      simp only [visitStep, hj, hpolicy]
      exact .here _
    | cascade hjoining hpolicy hrule reply =>
      cases hj.symm.trans hjoining
      simp only [visitStep, hj, hpolicy]
      exact (permitted_bind_reaches_iff htrees).mpr
        ⟨_, _, _, rfl, htree hrule, deletion_reaches_iff.mpr ⟨reply, rfl, rfl⟩⟩
    | setNull hjoining hpolicy hrule reply =>
      cases hj.symm.trans hjoining
      simp only [visitStep, hj, hpolicy]
      rw [clearReferences, bind_assoc]
      exact (permitted_bind_reaches_iff htrees).mpr ⟨_, _, _, rfl, htree hrule,
        (clearing_reaches_iff hvisit.relation hj).mpr ⟨reply, rfl, rfl⟩⟩

end Step

/-! ### Walks of a bounded depth -/

/-- Visits one after another, each with a walk of a bounded depth below it. -/
def visitAll (session : Session) (depth : Nat) : List Visit → Action Effect Unit
  | [] => return ()
  | visit :: others => do
    let keys ← session.visitStep visit
    pursue (session.cascade depth) visit.owner keys
    session.visitAll depth others

lemma visitAll_append (depth : Nat) (walked others : List Visit) :
    session.visitAll depth (walked ++ others) = (do
      session.visitAll depth walked
      session.visitAll depth others) := by
  induction walked with
  | nil => rfl
  | cons visit rest ih => simp only [List.cons_append, visitAll, bind_assoc, ih]

lemma pursue_cascade (depth : Nat) (target : Entity) (keys : List Value) :
    pursue (session.cascade (depth + 1)) target keys =
      session.visitAll depth (visits session.schema target keys) := by
  rw [pursue, visits]
  split
  · rfl
  · rw [cascade]
    induction session.schema.owningRelationsTo target.name with
    | nil => rfl
    | cons pair rest ih =>
      have hvisit := session.visitRelation_eq (session.cascade depth)
        ⟨target, keys, pair.1, pair.2⟩
      rw [List.map_cons, visitAll, ← ih, ← bind_assoc, ← hvisit]
      rfl

/-- Every complete run of the first action is one of the second. -/
def Within {α : Type} (action other : Action Effect α) : Prop :=
  ∀ trace outcome, action.run.Reaches trace (.done outcome) →
    other.run.Reaches trace (.done outcome)

lemma Within.bind {α β : Type} {action other : Action Effect α} {next next' : α → Action Effect β}
    (h : Within action other) (hnext : ∀ a, Within (next a) (next' a)) :
    Within (action >>= next) (other >>= next') := by
  intro trace outcome hrun
  obtain ⟨failure, hfailed, rfl⟩ | ⟨first, a, second, hfirst, hsecond, rfl⟩ :=
    Program.run_bind_reaches_done_iff.mp hrun
  · exact (h _ _ hfailed).run_bind_error
  · exact (h _ _ hfirst).run_bind (hnext a _ _ hsecond)

lemma visitAll_within {depth other : Nat}
    (h : ∀ target keys, Within (pursue (session.cascade depth) target keys)
      (pursue (session.cascade other) target keys)) (walked : List Visit) :
    Within (session.visitAll depth walked) (session.visitAll other walked) := by
  induction walked with
  | nil => exact fun _ _ => id
  | cons visit rest ih =>
    exact Within.bind (fun _ _ => id) fun keys => (h visit.owner keys).bind fun _ => ih

lemma pursue_zero_reaches {target : Entity} {keys : List Value}
    (h : (pursue (session.cascade 0) target keys).run.Reaches trace (.done outcome)) :
    visits session.schema target keys = [] ∧ trace = [] ∧ outcome = .ok () := by
  rw [pursue] at h
  split at h
  · rename_i hempty
    obtain ⟨rfl, hdone⟩ := Program.done_reaches_iff.mp h
    exact ⟨if_pos hempty, rfl, (Program.done.inj hdone)⟩
  · obtain ⟨reply, -⟩ := Program.ask_reaches_done_iff.mp h
    exact nomatch reply

/-- What a walk comes to within a depth it comes to within more. -/
lemma pursue_within_succ (depth : Nat) (target : Entity) (keys : List Value) :
    Within (pursue (session.cascade depth) target keys)
      (pursue (session.cascade (depth + 1)) target keys) := by
  induction depth generalizing target keys with
  | zero =>
    intro trace outcome h
    obtain ⟨hnone, rfl, rfl⟩ := pursue_zero_reaches h
    rw [pursue_cascade, hnone]
    exact .here _
  | succ depth ih =>
    rw [pursue_cascade, pursue_cascade]
    exact visitAll_within ih _

section Walk

variable (hs : session.schema.WellFormed) {walked : List Visit}
include hs

lemma walk_of_visitAll {depth : Nat}
    (hpursue : ∀ {name target keys trace outcome}, session.schema.entity name = .ok target →
      (∀ exchange ∈ trace, exchange.Obeys (FittingRules session.schema)) →
      (pursue (session.cascade depth) target keys).run.Reaches trace (.done outcome) →
      Walk session.schema (visits session.schema target keys) trace outcome)
    (hpoints : ∀ visit ∈ walked, visit.Points session.schema)
    (hrules : ∀ exchange ∈ trace, exchange.Obeys (FittingRules session.schema))
    (h : (session.visitAll depth walked).run.Reaches trace (.done outcome)) :
    Walk session.schema walked trace outcome := by
  induction walked generalizing trace with
  | nil =>
    obtain ⟨rfl, hdone⟩ := Program.done_reaches_iff.mp h
    cases hdone
    exact .done
  | cons visit others ih =>
    obtain ⟨hvisit, hothers⟩ := List.forall_mem_cons.mp hpoints
    obtain ⟨name, howner⟩ := hvisit.owner
    rw [visitAll] at h
    obtain ⟨failure, hfailed, rfl⟩ | ⟨own, keys, rest, hown, hrest, rfl⟩ :=
      Program.run_bind_reaches_done_iff.mp h
    · exact .fails ((visitStep_reaches_iff hs hvisit hrules).mp hfailed)
    obtain ⟨hrulesOwn, hrulesRest⟩ := List.forall_mem_append.mp hrules
    refine .goesOn ((visitStep_reaches_iff hs hvisit hrulesOwn).mp hown) ?_
    obtain ⟨failure, hfailed, rfl⟩ | ⟨below, _, later, hbelow, hlater, rfl⟩ :=
      Program.run_bind_reaches_done_iff.mp hrest
    · exact (hpursue howner hrulesRest hfailed).append_error others
    · obtain ⟨hrulesBelow, hrulesLater⟩ := List.forall_mem_append.mp hrulesRest
      exact (hpursue howner hrulesBelow hbelow).append (ih hothers hrulesLater hlater)

/-- What is done about deleted rows is a walk through the visits that they give rise to. -/
theorem walk_of_pursue {depth : Nat} {name : String} {target : Entity} {keys : List Value}
    (he : session.schema.entity name = .ok target)
    (hrules : ∀ exchange ∈ trace, exchange.Obeys (FittingRules session.schema))
    (h : (pursue (session.cascade depth) target keys).run.Reaches trace (.done outcome)) :
    Walk session.schema (visits session.schema target keys) trace outcome := by
  induction depth generalizing name target keys trace outcome with
  | zero =>
    obtain ⟨hnone, rfl, rfl⟩ := pursue_zero_reaches h
    rw [hnone]
    exact .done
  | succ depth ih =>
    rw [pursue_cascade] at h
    exact walk_of_visitAll hs ih (fun visit hmem => points_of_mem_visits hs he hmem) hrules h

/-- Every walk is a run, to some depth. -/
theorem exists_visitAll_of_walk (h : Walk session.schema walked trace outcome)
    (hpoints : ∀ visit ∈ walked, visit.Points session.schema)
    (hrules : ∀ exchange ∈ trace, exchange.Obeys (FittingRules session.schema)) :
    ∃ depth, (session.visitAll depth walked).run.Reaches trace (.done outcome) := by
  induction h with
  | done => exact ⟨0, .here _⟩
  | fails hstep =>
    obtain ⟨hvisit, -⟩ := List.forall_mem_cons.mp hpoints
    have hfailed := (visitStep_reaches_iff hs hvisit hrules).mpr hstep
    exact ⟨0, hfailed.run_bind_error⟩
  | goesOn hstep _ ih =>
    obtain ⟨hvisit, hothers⟩ := List.forall_mem_cons.mp hpoints
    obtain ⟨hrulesOwn, hrulesRest⟩ := List.forall_mem_append.mp hrules
    obtain ⟨name, howner⟩ := hvisit.owner
    have hown := (visitStep_reaches_iff hs hvisit hrulesOwn).mpr hstep
    obtain ⟨depth, hrest⟩ := ih (List.forall_mem_append.mpr
      ⟨fun visit hmem => points_of_mem_visits hs howner hmem, hothers⟩) hrulesRest
    rw [visitAll_append] at hrest
    refine ⟨depth + 1, hown.run_bind ?_⟩
    rw [pursue_cascade]
    have hdeeper (walked : List Visit) :
        Within (session.visitAll depth walked) (session.visitAll (depth + 1) walked) :=
      visitAll_within (pursue_within_succ depth) walked
    exact Within.bind (fun _ _ => id) (fun _ => hdeeper _) _ _ hrest

/-- The complete runs below a deletion, to whatever depth, are the walks through what points at the
deleted rows. -/
theorem exists_cascade_reaches_iff {name : String} {target : Entity} {keys : List Value}
    (he : session.schema.entity name = .ok target) (hkeys : keys ≠ [])
    (hrules : ∀ exchange ∈ trace, exchange.Obeys (FittingRules session.schema)) :
    (∃ depth, (session.cascade depth target keys).run.Reaches trace (.done outcome)) ↔
      Walk session.schema (visits session.schema target keys) trace outcome := by
  have hpursue (depth : Nat) : pursue (session.cascade depth) target keys =
      session.cascade depth target keys := if_neg (mt List.isEmpty_iff.mp hkeys)
  constructor
  · rintro ⟨depth, h⟩
    rw [← hpursue] at h
    exact walk_of_pursue hs he hrules h
  · intro h
    obtain ⟨depth, hrun⟩ := exists_visitAll_of_walk hs h
      (fun visit hmem => points_of_mem_visits hs he hmem) hrules
    rw [← pursue_cascade, hpursue] at hrun
    exact ⟨depth + 1, hrun⟩

end Walk

/-! ### Whole deletions -/

/-- A command that switches the checking of constraints is sent only under settings that defer
them. -/
inductive Switches (session : Session) (text : String) :
    List (Program.Exchange Effect) → Except Failure Unit → Prop
  | off (h : session.settings.deferConstraints = false) : Switches session text [] (.ok ())
  | sent (h : session.settings.deferConstraints = true) (reply : Except Database.Error Unit) :
      Switches session text [⟨.command text, reply⟩] (reply.mapError .database)

/-- The rows that satisfy a filter and the access rules are deleted. -/
inductive Removes (schema : Schema) (entity : Entity) (filter : Filter) :
    List (Program.Exchange Effect) → Except Failure (List Value) → Prop
  | intro {predicate : Filter} {tree : ConditionTree}
      (htree : (filter.andWith predicate).toTree schema entity = .ok tree)
      (reply : Except Database.Error Database.ResultSet) :
      Removes schema entity filter
        [ruling entity .delete [] predicate, deleting entity tree reply] (keysIn entity reply)

/-- A deletion: between the switches, the rows that were asked for are deleted and then what
points at them is walked through. What fails first ends it. -/
inductive Deletes (session : Session) (entity : Entity) (filter : Filter) :
    List (Program.Exchange Effect) → Except Failure (List Value) → Prop
  | notDeferred {front : List (Program.Exchange Effect)} {failure : Failure}
      (hfront : session.Switches deferConstraints front (.error failure)) :
      Deletes session entity filter front (.error failure)
  | notRemoved {front root : List (Program.Exchange Effect)} {failure : Failure}
      (hfront : session.Switches deferConstraints front (.ok ()))
      (hroot : Removes session.schema entity filter root (.error failure)) :
      Deletes session entity filter (front ++ root) (.error failure)
  | nothing {front root : List (Program.Exchange Effect)}
      (hfront : session.Switches deferConstraints front (.ok ()))
      (hroot : Removes session.schema entity filter root (.ok [])) :
      Deletes session entity filter (front ++ root) (.error .denied)
  | cut {front root walked : List (Program.Exchange Effect)} {keys : List Value}
      {failure : Failure} (hfront : session.Switches deferConstraints front (.ok ()))
      (hroot : Removes session.schema entity filter root (.ok keys)) (hkeys : keys ≠ [])
      (hwalk : Walk session.schema (visits session.schema entity keys) walked (.error failure)) :
      Deletes session entity filter (front ++ (root ++ walked)) (.error failure)
  | ends {front root walked back : List (Program.Exchange Effect)} {keys : List Value}
      {checked : Except Failure Unit} (hfront : session.Switches deferConstraints front (.ok ()))
      (hroot : Removes session.schema entity filter root (.ok keys)) (hkeys : keys ≠ [])
      (hwalk : Walk session.schema (visits session.schema entity keys) walked (.ok ()))
      (hback : session.Switches checkConstraints back checked) :
      Deletes session entity filter (front ++ (root ++ (walked ++ back)))
        (checked.map fun _ => keys)

/-- Sends a switch, under settings that defer constraints. -/
def switch (session : Session) (text : String) : Action Effect Unit :=
  if session.settings.deferConstraints then session.command text else return ()

lemma switch_reaches_iff {text : String} :
    (session.switch text).run.Reaches trace (.done outcome) ↔
      session.Switches text trace outcome := by
  rw [switch]
  constructor
  · intro h
    split at h
    · rename_i hdefers
      obtain ⟨reply, rfl, rfl⟩ := command_reaches_iff.mp h
      exact .sent hdefers reply
    · rename_i hdefers
      obtain ⟨rfl, hdone⟩ := Program.done_reaches_iff.mp h
      cases hdone
      exact .off (Bool.eq_false_iff.mpr hdefers)
  · rintro (hdefers | ⟨hdefers, reply⟩)
    · rw [hdefers]
      exact .here _
    · rw [hdefers]
      exact command_reaches_iff.mpr ⟨reply, rfl, rfl⟩

/-- The last switch does not change what the deletion comes to, unless it fails. -/
lemma switch_keys_reaches_iff {keys : List Value} {result : Except Failure (List Value)} :
    (session.switch checkConstraints >>= fun _ => pure keys).run.Reaches trace (.done result) ↔
      ∃ checked, session.Switches checkConstraints trace checked ∧
        result = checked.map fun _ => keys := by
  constructor
  · intro h
    obtain ⟨failure, hfailed, rfl⟩ | ⟨back, _, nothing, hback, hend, rfl⟩ :=
      Program.run_bind_reaches_done_iff.mp h
    · exact ⟨_, switch_reaches_iff.mp hfailed, rfl⟩
    · obtain ⟨rfl, hdone⟩ := Program.done_reaches_iff.mp hend
      rw [List.append_nil]
      exact ⟨_, switch_reaches_iff.mp hback, Program.done.inj hdone⟩
  · rintro ⟨failure | _, hback, rfl⟩
    · exact (switch_reaches_iff.mpr hback).run_bind_error
    · exact (switch_reaches_iff.mpr hback).run_bind_done rfl

lemma deleteWhere_eq_switch (depth : Nat) : session.deleteWhere depth entity filter = (do
    session.switch deferConstraints
    let keys ← session.deleteBatch entity filter
    if keys.isEmpty then throw .denied
    else do
      session.cascade depth entity keys
      session.switch checkConstraints
      return keys) := by
  unfold deleteWhere switch
  cases session.settings.deferConstraints with
  | false =>
    simp only [Bool.false_eq_true, if_false, pure_bind]
    refine bind_congr fun keys => ?_
    cases keys.isEmpty <;> rfl
  | true =>
    simp only [if_true]
    refine bind_congr fun _ => bind_congr fun keys => ?_
    cases keys.isEmpty <;> rfl

section Root

variable (hs : session.schema.WellFormed) {name : String}
  (he : session.schema.entity name = .ok entity)
  (hf : Filter.Everywhere session.schema Filter.Fits entity filter)
include hs he hf

lemma deleteBatch_reaches_iff {result : Except Failure (List Value)}
    (hrules : ∀ exchange ∈ trace, exchange.Obeys (FittingRules session.schema)) :
    (session.deleteBatch entity filter).run.Reaches trace (.done result) ↔
      Removes session.schema entity filter trace result := by
  have htrees (predicate : Filter) (hmem : ruling entity .delete [] predicate ∈ trace) :
      ∃ tree, (filter.andWith predicate).toTree session.schema entity = .ok tree :=
    Filter.exists_tree hs he _ (hf.andWith (hrules _ hmem))
  refine (permitted_bind_reaches_iff htrees).trans ⟨?_, ?_⟩
  · rintro ⟨predicate, tree, rest, rfl, htree, hrest⟩
    obtain ⟨reply, rfl, rfl⟩ := deletion_reaches_iff.mp hrest
    exact .intro htree reply
  · rintro ⟨htree, reply⟩
    exact ⟨_, _, _, rfl, htree, deletion_reaches_iff.mpr ⟨reply, rfl, rfl⟩⟩

lemma deletes_of_reaches {depth : Nat} {result : Except Failure (List Value)}
    (hrules : ∀ exchange ∈ trace, exchange.Obeys (FittingRules session.schema))
    (h : (session.deleteWhere depth entity filter).run.Reaches trace (.done result)) :
    session.Deletes entity filter trace result := by
  rw [deleteWhere_eq_switch] at h
  obtain ⟨failure, hfailed, rfl⟩ | ⟨front, _, later, hsent, hlater, rfl⟩ :=
    Program.run_bind_reaches_done_iff.mp h
  · exact .notDeferred (switch_reaches_iff.mp hfailed)
  have hfront := switch_reaches_iff.mp hsent
  obtain ⟨-, hrulesLater⟩ := List.forall_mem_append.mp hrules
  obtain ⟨failure, hfailed, rfl⟩ | ⟨root, keys, rest, hdeleted, hrest, rfl⟩ :=
    Program.run_bind_reaches_done_iff.mp hlater
  · exact .notRemoved hfront ((deleteBatch_reaches_iff hs he hf hrulesLater).mp hfailed)
  obtain ⟨hrulesRoot, hrulesRest⟩ := List.forall_mem_append.mp hrulesLater
  have hroot := (deleteBatch_reaches_iff hs he hf hrulesRoot).mp hdeleted
  cases keys with
  | nil =>
    obtain ⟨rfl, hdone⟩ := Program.done_reaches_iff.mp hrest
    cases hdone
    rw [List.append_nil]
    exact .nothing hfront hroot
  | cons key keys =>
    have hkeys : key :: keys ≠ [] := List.cons_ne_nil key keys
    obtain ⟨failure, hfailed, rfl⟩ | ⟨walked, _, last, hwalked, hlast, rfl⟩ :=
      Program.run_bind_reaches_done_iff.mp hrest
    · exact .cut hfront hroot hkeys
        ((exists_cascade_reaches_iff hs he hkeys hrulesRest).mp ⟨depth, hfailed⟩)
    obtain ⟨hrulesWalk, -⟩ := List.forall_mem_append.mp hrulesRest
    obtain ⟨checked, hback, rfl⟩ := switch_keys_reaches_iff.mp hlast
    exact .ends hfront hroot hkeys
      ((exists_cascade_reaches_iff hs he hkeys hrulesWalk).mp ⟨depth, hwalked⟩) hback

lemma exists_reaches_of_deletes {result : Except Failure (List Value)}
    (hrules : ∀ exchange ∈ trace, exchange.Obeys (FittingRules session.schema))
    (h : session.Deletes entity filter trace result) :
    ∃ depth, (session.deleteWhere depth entity filter).run.Reaches trace (.done result) := by
  simp only [deleteWhere_eq_switch]
  -- where the deletion comes to a walk, the depth is that of the walk
  cases h with
  | notDeferred hfront => exact ⟨0, (switch_reaches_iff.mpr hfront).run_bind_error⟩
  | notRemoved hfront hroot =>
    obtain ⟨-, hrulesRoot⟩ := List.forall_mem_append.mp hrules
    have hdeleted := (deleteBatch_reaches_iff hs he hf hrulesRoot).mpr hroot
    exact ⟨0, (switch_reaches_iff.mpr hfront).run_bind hdeleted.run_bind_error⟩
  | nothing hfront hroot =>
    obtain ⟨-, hrulesRoot⟩ := List.forall_mem_append.mp hrules
    have hdeleted := (deleteBatch_reaches_iff hs he hf hrulesRoot).mpr hroot
    exact ⟨0, (switch_reaches_iff.mpr hfront).run_bind (hdeleted.run_bind_done rfl)⟩
  | cut hfront hroot hkeys hwalk =>
    obtain ⟨-, hrulesLater⟩ := List.forall_mem_append.mp hrules
    obtain ⟨hrulesRoot, hrulesWalk⟩ := List.forall_mem_append.mp hrulesLater
    obtain ⟨depth, hwalked⟩ := (exists_cascade_reaches_iff hs he hkeys hrulesWalk).mpr hwalk
    have hdeleted := (deleteBatch_reaches_iff hs he hf hrulesRoot).mpr hroot
    refine ⟨depth, (switch_reaches_iff.mpr hfront).run_bind (hdeleted.run_bind ?_)⟩
    rw [if_neg (mt List.isEmpty_iff.mp hkeys)]
    exact hwalked.run_bind_error
  | ends hfront hroot hkeys hwalk hback =>
    obtain ⟨-, hrulesLater⟩ := List.forall_mem_append.mp hrules
    obtain ⟨hrulesRoot, hrulesRest⟩ := List.forall_mem_append.mp hrulesLater
    obtain ⟨hrulesWalk, -⟩ := List.forall_mem_append.mp hrulesRest
    obtain ⟨depth, hwalked⟩ := (exists_cascade_reaches_iff hs he hkeys hrulesWalk).mpr hwalk
    have hdeleted := (deleteBatch_reaches_iff hs he hf hrulesRoot).mpr hroot
    refine ⟨depth, (switch_reaches_iff.mpr hfront).run_bind (hdeleted.run_bind ?_)⟩
    rw [if_neg (mt List.isEmpty_iff.mp hkeys)]
    exact hwalked.run_bind (switch_keys_reaches_iff.mpr ⟨_, hback, rfl⟩)

end Root

lemma fits_seventhAuthor : Filter.Everywhere Filter.blog Filter.Fits author seventhAuthor := by
  have hkey : ∃ column, author.columnName "id" = .ok column := ⟨"id", by decide +kernel⟩
  obtain ⟨column, hkey⟩ := hkey
  exact (Filter.FieldsFit.nil.condition hkey _).everywhere

lemma obeys_fittingRules_of_isUnrestricted {schema : Schema} {exchange : Program.Exchange Effect}
    (h : isUnrestricted exchange = true) : exchange.Obeys (FittingRules schema) := by
  have hempty := obeys_allowAll_of_isUnrestricted h
  obtain ⟨request, reply⟩ := exchange
  cases (request : EffectRequest) with
  | predicate entity operation fields =>
    cases (show (reply : Filter) = .empty from hempty)
    exact Filter.FieldsFit.nil.everywhere
  | _ => trivial

/-- Whether a run that the rules did not restrict deleted something with so many exchanges. -/
def deletesFreelyIn (count : Nat) (trace : List (Program.Exchange Effect))
    (outcome : Except Failure (List Value)) : Bool :=
  deletesIn count trace outcome && trace.all isUnrestricted

end Session

end Mutation

end EntityGraph
