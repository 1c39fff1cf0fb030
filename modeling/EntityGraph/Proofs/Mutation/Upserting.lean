import EntityGraph.Proofs.Mutation.Belonging
/-!
# Upserts take one branch

An upsert looks its target up, and what that comes to decides: a target that is found is updated,
and one is inserted where none is. What the update itself comes to, and what its data bring with
them, never lead to the insertion.
-/
namespace EntityGraph

namespace Program

variable {I J : Interface} {answer : (request : I.Request) → Program J (I.Reply request)}

lemma Carries.of_cons {call : Exchange I} {calls : List (Exchange I)} {sent : List (Exchange J)}
    (h : Carries answer (call :: calls) sent) :
    ∃ own later, (answer call.request).Reaches own (.done call.reply) ∧
      Carries answer calls later ∧ sent = own ++ later := by
  cases h with
  | cons head tail => exact ⟨_, _, head, tail, rfl⟩

lemma Carries.eq_nil {sent : List (Exchange J)} (h : Carries answer [] sent) : sent = [] := by
  cases h
  rfl

end Program

namespace Mutation

variable {α : Type} {session : Session} {rows : RowAnswers} {depth : Nat}
  {calls : List (Program.Exchange Rows)} {trace rest sent : List (Program.Exchange Effect)}

/-! ### Upserts -/

/-- A field of a row, looked up by a unique where. -/
structure LookUp where
  entity : Entity
  which : UniqueWhere
  field : String

def LookUp.run (session : Session) (look : LookUp) : Action Effect (Option Value) :=
  session.selectField look.entity look.which look.field

/-- An update of a target that is looked up, or the insertion of one. -/
structure Upsert where
  target : Entity
  look : LookUp
  created : Data
  updated : Data
  /-- Where the results are reported. -/
  path : Path
  /-- The row that the target is then linked to through a junction table. -/
  junction? : Option RelatedRow

namespace RelatedRow

/-- An upsert of the target in the joining column of the row. -/
def upsertJoined (row : RelatedRow) (create update : Data) : Upsert :=
  ⟨row.sides.target, ⟨row.sides.entity, row.key, row.sides.relation.name⟩, create, update,
    row.sides.path, none⟩

/-- An upsert of a target that points at the row. -/
def upsertPointing (row : RelatedRow) (paired : Relation) (which : UniqueWhere)
    (create update : Data) (path : Path) : Upsert :=
  ⟨row.sides.target,
    ⟨row.sides.target, row.pointingHere paired which, row.sides.target.primary⟩,
    row.linked paired create, update, path, none⟩

/-- An upsert of a target on the other side of a junction table. -/
def upsertLinked (row : RelatedRow) (which : UniqueWhere) (create update : Data) (path : Path) :
    Upsert :=
  ⟨row.sides.target, ⟨row.sides.target, which, row.sides.target.primary⟩, create, update, path,
    some row⟩

end RelatedRow

namespace Upsert

/-- The stretch links a target through the junction table, or nothing is linked. -/
def Links (upsert : Upsert) (rows : RowAnswers) (linking : List (Program.Exchange Effect)) : Prop :=
  linking = [] ∨ ∃ row ∈ upsert.junction?, ∃ target outcome,
    (answered rows (row.connectJunction target)).run.Reaches linking (.done outcome)

/-- What is sent behind the look-up, by what that came to. -/
inductive Branch (session : Session) (depth : Nat) (upsert : Upsert)
    (looking : List (Program.Exchange Effect)) :
    Except Failure (Option Value) → List (Program.Exchange Effect) → Prop
  | fails (failure : Failure) : Branch session depth upsert looking (.error failure) []
  | inserts {reply : Except Failure (List Result)}
      {inserting linking : List (Program.Exchange Effect)}
      (hinsert : (session.rows depth (.insert upsert.target upsert.created)).Reaches inserting
        (.done reply))
      (hlinks : upsert.Links (session.rows depth) linking) :
      Branch session depth upsert looking (.ok none) (inserting ++ linking)
  | updates {key : Value} {reply : Except Failure (List Result)}
      {updating linking : List (Program.Exchange Effect)}
      (hupdate : (session.rows depth (.update upsert.target (byPrimary upsert.target key)
        upsert.updated)).Reaches updating (.done reply))
      (hlinks : upsert.Links (session.rows depth) linking) :
      Branch session depth upsert looking (.ok (some key)) (updating ++ linking)
  /-- The look-up is the one that the update itself begins with. -/
  | goesOn {key : Value} {reply : Except Failure (List Result)} {which : UniqueWhere}
      {updating : List (Program.Exchange Effect)}
      (hlook : upsert.look = ⟨upsert.target, which, upsert.target.primary⟩)
      (hupdate : (session.rows depth (.update upsert.target which upsert.updated)).Reaches
        (looking ++ updating) (.done reply)) :
      Branch session depth upsert looking (.ok (some key)) updating

/-- One of the calls is for the insertion of a target with the data that create it. -/
def Inserts (upsert : Upsert) (calls : List (Program.Exchange Rows)) : Prop :=
  ∃ reply, ⟨.insert upsert.target upsert.created, reply⟩ ∈ calls

/-- The calls are those of the upsert, and what was sent for them is its look-up with the branch
that follows from it. -/
def TakesBranch (session : Session) (depth : Nat) (upsert : Upsert)
    (calls : List (Program.Exchange Rows)) (sent : List (Program.Exchange Effect))
    (outcome : Except Failure (List Result)) : Prop :=
  ∃ looking branch found, sent = looking ++ branch ∧
    (upsert.look.run session).run.Reaches looking (.done found) ∧
    upsert.Branch session depth looking found branch ∧
    (upsert.Inserts calls ↔ found = .ok none) ∧
    ∀ failure, found = .error failure → outcome = outcomeUnder upsert.path (.error failure)

end Upsert

namespace Session

/-- An upsert that the data of an update ask for, and the action that carries it out: behind the
front it has its turn among others of its kind. -/
inductive Upserting (session : Session) (rows : RowAnswers) (entity : Entity)
    (which : UniqueWhere) (data : Data) :
    Upsert → {α : Type} → (α → List Result) → List (Action Rows α) → Action Rows α →
      List (Program.Exchange Effect) → Prop
  | joining {field : String} {create update : Data} {sides : RelationSides} {primary : Value}
      {resolve : Action Rows (Resolved Rows)} {values : FieldValues Rows}
      {operations : List (Action Rows (List Result))} {tree : Sql.ConditionTree}
      {looking planned : List (Program.Exchange Effect)}
      (hfield : (field, .one (.upsert create update)) ∈ data.fields)
      (hsides : RelationSides.ofField session.schema entity field = .ok sides)
      (hstep : RelatedRow.toOneStep ⟨sides, primary⟩ (.upsert create update) =
        .ok (.column (.deferred resolve)))
      (hfound : (session.selectField entity which entity.primary).run.Reaches looking
        (.done (.ok (some primary))))
      (hplanned : (session.planning entity primary data).run.Reaches planned
        (.done (.ok (values, operations, tree)))) :
      Upserting session rows entity which data
        (RelatedRow.upsertJoined ⟨sides, primary⟩ create update) Resolved.results values.deferred
        resolve (looking ++ planned)
  | inverse {field : String} {create update : Data} {sides : RelationSides} {paired : Relation}
      {primary : Value} {operation : Action Rows (List Result)}
      {operations : List (Action Rows (List Result))} {front : List (Program.Exchange Effect)}
      (hfield : (field, .one (.upsert create update)) ∈ data.fields)
      (hsides : RelationSides.ofField session.schema entity field = .ok sides)
      (hpair : sides.pair = .ok paired)
      (hstep : RelatedRow.toOneStep ⟨sides, primary⟩ (.upsert create update) =
        .ok (.run operation))
      (hbeside : session.Beside rows (.update entity which data) primary operations front) :
      Upserting session rows entity which data
        (RelatedRow.upsertPointing ⟨sides, primary⟩ paired .empty create update sides.path) id
        operations operation front
  | item {field : String} {items : List ToManyItem} {index : Nat} {label : Option String}
      {selecting : UniqueWhere} {create update : Data} {sides : RelationSides} {paired : Relation}
      {primary : Value} {operation : Action Rows (List Result)}
      {operations : List (Action Rows (List Result))} {front : List (Program.Exchange Effect)}
      (hfield : (field, .many items) ∈ data.fields)
      (hitem : items[index]? = some ⟨label, .upsert selecting update create⟩)
      (hsides : RelationSides.ofField session.schema entity field = .ok sides)
      (hkind : sides.kind = .oneHasMany) (hpair : sides.pair = .ok paired)
      (hoperation : RelatedRow.toManyOperation ⟨sides, primary⟩ index
        ⟨label, .upsert selecting update create⟩ = .ok operation)
      (hbeside : session.Beside rows (.update entity which data) primary operations front) :
      Upserting session rows entity which data
        (RelatedRow.upsertPointing ⟨sides, primary⟩ paired selecting create update
          (sides.itemPath index label)) id
        operations operation front
  | junction {field : String} {items : List ToManyItem} {index : Nat} {label : Option String}
      {selecting : UniqueWhere} {create update : Data} {sides : RelationSides}
      {primary : Value} {operation : Action Rows (List Result)}
      {operations : List (Action Rows (List Result))} {front : List (Program.Exchange Effect)}
      (hfield : (field, .many items) ∈ data.fields)
      (hitem : items[index]? = some ⟨label, .upsert selecting update create⟩)
      (hsides : RelationSides.ofField session.schema entity field = .ok sides)
      (hkind : sides.kind = .manyHasManyOwning ∨ sides.kind = .manyHasManyInverse)
      (hoperation : RelatedRow.toManyOperation ⟨sides, primary⟩ index
        ⟨label, .upsert selecting update create⟩ = .ok operation)
      (hbeside : session.Beside rows (.update entity which data) primary operations front) :
      Upserting session rows entity which data
        (RelatedRow.upsertLinked ⟨sides, primary⟩ selecting create update
          (sides.itemPath index label)) id
        operations operation front

end Session

/-! ### Calls of an upsert -/

section Calls

variable {β : Type}

/-- A look-up is answered by its statement. -/
lemma selectField_of_rows {entity : Entity} {which : UniqueWhere} {field : String}
    {found : Except Failure (Option Value)}
    (h : (session.rows depth (.selectField entity which field)).Reaches trace (.done found)) :
    (session.selectField entity which field).run.Reaches trace (.done found) := by
  cases depth with
  | zero => exact (Program.ask_reaches_done_iff.mp h).choose.elim
  | succ depth => exact h

lemma selectField_of_primaryValue {entity : Entity} {which : UniqueWhere}
    {found : Except Failure (Option Value)}
    (h : (session.rows depth (.primaryValue entity which)).Reaches trace (.done found)) :
    (session.selectField entity which entity.primary).run.Reaches trace (.done found) := by
  cases depth with
  | zero => exact (Program.ask_reaches_done_iff.mp h).choose.elim
  | succ depth => exact h

/-- An update begins with its look-up. Only where that finds no row does it report that the row is
missing. -/
lemma lookUp_of_updateRow {entity : Entity} {which : UniqueWhere} {data : Data}
    {outcome : Except Failure (List Result)}
    (h : (session.updateRow rows entity which data).run.Reaches trace (.done outcome)) :
    ∃ looking found later, trace = looking ++ later ∧
      (session.selectField entity which entity.primary).run.Reaches looking (.done found) ∧
      ((found = .ok none ∧ later = [] ∧ outcome = .ok (missing which)) ∨
        (∃ failure, found = .error failure ∧ later = [] ∧
          (outcome = .error failure ∨ outcome = failure.classified)) ∨
        ∃ key, found = .ok (some key) ∧
          ∀ results, outcome = .ok results → Session.TellsOfRow results) := by
  cases hfilter : which.expand entity with
  | error e =>
    rw [Session.updateRow, hfilter] at h
    obtain ⟨rfl, hdone⟩ := Program.done_reaches_iff.mp h
    refine ⟨[], .error (.nonUniqueWhere e), [], rfl, ?_, .inr (.inl
      ⟨_, rfl, rfl, .inr (Program.done.inj hdone)⟩)⟩
    rw [Session.selectField, hfilter]
    exact .here _
  | ok filter =>
    rw [session.updateRow_eq rows entity hfilter] at h
    obtain ⟨failure, hfailed, rfl⟩ | ⟨looking, found, later, hfound, hlater, rfl⟩ :=
      Program.run_bind_reaches_done_iff.mp h
    · exact ⟨trace, _, [], (List.append_nil trace).symm, hfailed,
        .inr (.inl ⟨failure, rfl, rfl, .inl rfl⟩)⟩
    refine ⟨looking, _, later, rfl, hfound, ?_⟩
    cases found with
    | none =>
      obtain ⟨rfl, hdone⟩ := Program.done_reaches_iff.mp hlater
      exact .inl ⟨rfl, rfl, Program.done.inj hdone⟩
    | some key =>
      refine .inr (.inr ⟨key, rfl, ?_⟩)
      rintro results rfl
      exact (Session.tellsOfRow_found key data).of_reaches hlater

/-- What fails under a path is reported there, be it a result already or not. -/
lemma outcomeUnder_classified (path : Path) (failure : Failure) :
    outcomeUnder path failure.classified = outcomeUnder path (.error failure) := by
  cases hresult : failure.result? with
  | none => rw [Failure.classified, hresult]
  | some result =>
    rw [Failure.classified, outcomeUnder, Failure.rescued, hresult]
    rfl

lemma results_resolvedUnder_error (path : Path) (failure : Failure) :
    (resolvedUnder (I := Rows) path (.error failure)).map Resolved.results =
      outcomeUnder path (.error failure) := by
  show (failure.rescued fun result => Resolved.skip [result.under path]).map Resolved.results =
    failure.rescued fun result => [result.under path]
  rw [Failure.rescued, Failure.rescued]
  cases failure.result? <;> rfl

/-- A call that is no insertion. -/
def RowRequest.Keeping : RowRequest → Prop
  | .insert .. => False
  | _ => True

lemma exists_reaches_of_map {action : Action Rows α} {f : α → β} {outcome : Except Failure β}
    (h : (action >>= fun a => pure (f a)).run.Reaches calls (.done outcome)) :
    ∃ own, action.run.Reaches calls (.done own) := by
  obtain ⟨failure, hfailed, -⟩ | ⟨first, a, second, hfirst, hsecond, rfl⟩ :=
    Program.run_bind_reaches_done_iff.mp h
  · exact ⟨_, hfailed⟩
  · rw [(Program.done_reaches_iff.mp hsecond).1, List.append_nil]
    exact ⟨_, hfirst⟩

lemma MakesCall.of_map {action : Action Rows α} {call : Except Failure α → Program.Exchange Rows}
    (h : MakesCall action call) {f : α → β} {outcome : Except Failure β}
    (hrun : (action >>= fun a => pure (f a)).run.Reaches calls (.done outcome)) :
    ∃ reply, calls = [call reply] :=
  (exists_reaches_of_map hrun).imp fun _ => h _ _

section Branches

variable {row : RelatedRow} {create update : Data} {paired : Relation} {which : UniqueWhere}

lemma Upsert.not_inserts {upsert : Upsert} (h : ∀ call ∈ calls, call.request.Keeping) :
    ¬ upsert.Inserts calls := fun ⟨_, hmem⟩ => h _ hmem

lemma keeping_connectJunction (target : Value) :
    (row.connectJunction target).run.Asks RowRequest.Keeping := by
  rw [RelatedRow.connectJunction]
  split
  · exact ⟨trivial, fun _ => trivial⟩
  · exact Program.asks_run_bind (by cases row.sides.pair <;> trivial)
      fun _ => ⟨trivial, fun _ => trivial⟩

section Answered

variable {upsert : Upsert} {looking branch : List (Program.Exchange Effect)}
  {failure : Failure} {reply : Except Failure (List Result)}
  {outcome : Except Failure (List Result)} {key : Value}
  (hlinks : ∀ linking, Program.Carries (I := Rows) (session.rows depth) calls linking →
    upsert.Links (session.rows depth) linking)

/-- Calls that link a target through the junction table. -/
lemma links_of_connect {target : Value} {own : Except Failure (List Result)}
    (hjunction : upsert.junction? = some row)
    (hrun : (row.connectJunction target).run.Reaches calls (.done own)) :
    ∀ linking, Program.Carries (session.rows depth) calls linking →
      upsert.Links (session.rows depth) linking := fun _ hcarries =>
  .inr ⟨row, hjunction, target, own,
    Program.interpret_reaches_done_iff.mpr ⟨calls, hrun, hcarries⟩⟩

lemma links_nil (linking : List (Program.Exchange Effect))
    (h : Program.Carries (I := Rows) (session.rows depth) [] linking) :
    upsert.Links (session.rows depth) linking := .inl h.eq_nil

include hlinks in
lemma Upsert.Branch.of_update
    (h : Program.Carries (I := Rows) (session.rows depth)
      (⟨.update upsert.target (byPrimary upsert.target key) upsert.updated, reply⟩ :: calls)
      branch) : upsert.Branch session depth looking (.ok (some key)) branch := by
  obtain ⟨updating, linking, hupdate, hlinking, rfl⟩ := h.of_cons
  exact .updates hupdate (hlinks linking hlinking)

include hlinks in
lemma Upsert.Branch.of_insert
    (h : Program.Carries (I := Rows) (session.rows depth)
      (⟨.insert upsert.target upsert.created, reply⟩ :: calls) branch) :
    upsert.Branch session depth looking (.ok none) branch := by
  obtain ⟨inserting, linking, hinsert, hlinking, rfl⟩ := h.of_cons
  exact .inserts hinsert (hlinks linking hlinking)

lemma Upsert.Inserts.intro (call : Program.Exchange Rows) :
    upsert.Inserts (call :: ⟨.insert upsert.target upsert.created, reply⟩ :: calls) :=
  ⟨reply, List.mem_cons_of_mem _ List.mem_cons_self⟩

end Answered

lemma takesBranch_joined {own : Except Failure (Resolved Rows)}
    (hrun : (row.upsertTarget create update).run.Reaches calls (.done own))
    (hcarries : Program.Carries (session.rows depth) calls sent) :
    (row.upsertJoined create update).TakesBranch session depth calls sent
      ((resolvedUnder row.sides.path own).map Resolved.results) := by
  obtain ⟨failure, rfl, rfl⟩ | ⟨found, later, rfl, hlater⟩ :=
    (makesCall_selectField _ _ _).of_bind hrun
  · obtain ⟨looking, _, hlooking, hnil, rfl⟩ := hcarries.of_cons
    obtain rfl := hnil.eq_nil
    refine ⟨looking, [], _, rfl, selectField_of_rows hlooking, .fails failure, ?_, ?_⟩
    · exact iff_of_false (Upsert.not_inserts (List.forall_mem_singleton.mpr trivial)) nofun
    · rintro other heq
      cases heq
      exact results_resolvedUnder_error _ failure
  obtain ⟨looking, branch, hlooking, hbranch, rfl⟩ := hcarries.of_cons
  refine ⟨looking, branch, _, rfl, selectField_of_rows hlooking, ?_⟩
  cases found with
  | some key =>
    obtain ⟨reply, rfl⟩ := (makesCall_update _ _ _).of_map hlater
    refine ⟨.of_update links_nil hbranch, iff_of_false (Upsert.not_inserts ?_) nofun, nofun⟩
    simp [RowRequest.Keeping]
  | none =>
    obtain ⟨reply, rfl⟩ := (makesCall_insert _ _).of_map hlater
    exact ⟨.of_insert links_nil hbranch, iff_of_true (.intro _) rfl, nofun⟩

lemma takesBranch_linked {own : Except Failure (List Result)} (path : Path)
    (hrun : (row.junctionOperation (.upsert which update create)).run.Reaches calls (.done own))
    (hcarries : Program.Carries (session.rows depth) calls sent) :
    (row.upsertLinked which create update path).TakesBranch session depth calls sent
      (outcomeUnder path own) := by
  obtain ⟨failure, rfl, rfl⟩ | ⟨found, later, rfl, hlater⟩ :=
    (makesCall_primaryValue _ _).of_bind hrun
  · obtain ⟨looking, _, hlooking, hnil, rfl⟩ := hcarries.of_cons
    obtain rfl := hnil.eq_nil
    refine ⟨looking, [], _, rfl, selectField_of_primaryValue hlooking, .fails failure, ?_, ?_⟩
    · exact iff_of_false (Upsert.not_inserts (List.forall_mem_singleton.mpr trivial)) nofun
    · rintro other heq
      cases heq
      rfl
  obtain ⟨looking, branch, hlooking, hbranch, rfl⟩ := hcarries.of_cons
  refine ⟨looking, branch, _, rfl, selectField_of_primaryValue hlooking, ?_⟩
  cases found with
  | some key =>
    obtain ⟨failure, rfl, -⟩ | ⟨results, linking, rfl, hlinking⟩ :=
      (makesCall_update _ _ _).of_bind hlater
    · exact ⟨.of_update links_nil hbranch,
        iff_of_false (Upsert.not_inserts (by simp [RowRequest.Keeping])) nofun, nofun⟩
    · obtain ⟨outcome, hconnect⟩ := exists_reaches_of_map hlinking
      refine ⟨.of_update (links_of_connect rfl hconnect) hbranch,
        iff_of_false (Upsert.not_inserts ?_) nofun, nofun⟩
      simpa [RowRequest.Keeping] using (keeping_connectJunction key).of_reaches hconnect
  | none =>
    obtain ⟨failure, rfl, -⟩ | ⟨results, linking, rfl, hlinking⟩ :=
      (makesCall_insert _ _).of_bind hlater
    · exact ⟨.of_insert links_nil hbranch, iff_of_true (.intro _) rfl, nofun⟩
    · refine ⟨.of_insert ?_ hbranch, iff_of_true (.intro _) rfl, nofun⟩
      cases hcreated : createdKey? results with
      | none =>
        rw [hcreated] at hlinking
        rw [(Program.done_reaches_iff.mp hlinking).1]
        exact links_nil
      | some target =>
        rw [hcreated] at hlinking
        obtain ⟨outcome, hconnect⟩ := exists_reaches_of_map hlinking
        exact links_of_connect rfl hconnect

/-- An update on rows, carried out. -/
lemma updateRow_of_rows {entity : Entity} {data : Data} {reply : Except Failure (List Result)}
    (h : (session.rows depth (.update entity which data)).Reaches trace (.done reply)) :
    ∃ rows, (session.updateRow rows entity which data).run.Reaches trace (.done reply) := by
  cases depth with
  | zero => exact (Program.ask_reaches_done_iff.mp h).choose.elim
  | succ depth => exact ⟨_, h⟩

/-- The insertion follows the update only where that reports that the row is missing. -/
lemma calls_of_upsertInverse {own : Except Failure (List Result)}
    (hrun : (row.upsertInverse paired which update create).run.Reaches calls (.done own)) :
    ∃ reply later, calls = ⟨RowRequest.update row.sides.target which update, reply⟩ :: later ∧
      ((later = [] ∧ own = reply ∧ ∀ results, reply = .ok results → foundRow? results ≠ none) ∨
        ∃ results other, reply = .ok results ∧ foundRow? results = none ∧
          later = [⟨RowRequest.insert row.sides.target (row.linked paired create), other⟩]) := by
  obtain ⟨failure, rfl, rfl⟩ | ⟨results, later, rfl, hlater⟩ :=
    (makesCall_update _ _ _).of_bind hrun
  · exact ⟨_, _, rfl, .inl ⟨rfl, rfl, nofun⟩⟩
  refine ⟨_, _, rfl, ?_⟩
  cases hfound : foundRow? results with
  | none =>
    rw [hfound] at hlater
    exact .inr ⟨results, own, rfl, hfound, makesCall_insert _ _ _ _ hlater⟩
  | some found =>
    rw [hfound] at hlater
    obtain ⟨rfl, hdone⟩ := Program.done_reaches_iff.mp hlater
    obtain rfl := eq_of_foundRow? hfound
    refine .inl ⟨rfl, Program.done.inj hdone, ?_⟩
    rintro _ ⟨⟩ hnone
    cases hfound.symm.trans hnone

lemma takesBranch_pointing {own : Except Failure (List Result)} (path : Path)
    (hrun : (row.upsertInverse paired (row.pointingHere paired which) update create).run.Reaches
      calls (.done own)) (hcarries : Program.Carries (session.rows depth) calls sent) :
    (row.upsertPointing paired which create update path).TakesBranch session depth calls sent
      (outcomeUnder path own) := by
  obtain ⟨reply, later, rfl, hlater⟩ := calls_of_upsertInverse hrun
  obtain ⟨stretch, rest, hupdate, hrest, rfl⟩ := hcarries.of_cons
  obtain ⟨rows, hrow⟩ := updateRow_of_rows hupdate
  obtain ⟨looking, found, updating, rfl, hlooking, hfound⟩ := lookUp_of_updateRow hrow
  have hlook : (row.upsertPointing paired which create update path).look =
      ⟨row.sides.target, row.pointingHere paired which, row.sides.target.primary⟩ := rfl
  obtain ⟨rfl, rfl, hsome⟩ | ⟨results, other, rfl, hnone, rfl⟩ := hlater
  · obtain rfl := hrest.eq_nil
    rw [List.append_nil]
    have hkeeping : ¬ (row.upsertPointing paired which create update path).Inserts
        [⟨RowRequest.update row.sides.target (row.pointingHere paired which) update, own⟩] :=
      Upsert.not_inserts (List.forall_mem_singleton.mpr trivial)
    refine ⟨looking, updating, found, rfl, hlooking, ?_⟩
    obtain ⟨rfl, -, rfl⟩ | ⟨failure, rfl, rfl, houtcome⟩ | ⟨key, rfl, -⟩ := hfound
    · exact absurd rfl (hsome _ rfl)
    · refine ⟨.fails failure, iff_of_false hkeeping nofun, ?_⟩
      rintro _ ⟨⟩
      obtain rfl | rfl := houtcome
      · rfl
      · exact outcomeUnder_classified path failure
    · exact ⟨.goesOn hlook hupdate, iff_of_false hkeeping nofun, nofun⟩
  · have hmissed : ¬ Session.TellsOfRow results := fun h => h.foundRow?_ne_none hnone
    obtain ⟨rfl, rfl, -⟩ | ⟨failure, -, -, houtcome⟩ | ⟨key, -, htells⟩ := hfound
    · rw [List.append_nil]
      exact ⟨looking, rest, _, rfl, hlooking, .of_insert links_nil hrest,
        iff_of_true (.intro _) rfl, nofun⟩
    · obtain hcontra | hclassified := houtcome
      · cases hcontra
      · exact absurd (.of_classified hclassified.symm) hmissed
    · exact absurd (htells results rfl) hmissed

end Branches

end Calls

/-- Where the target is looked up by what covers no key, that is all the upsert comes to. -/
lemma Upsert.TakesBranch.refused {upsert : Upsert} {outcome : Except Failure (List Result)}
    {e : NonUniqueWhere}
    (h : upsert.TakesBranch session depth calls sent outcome)
    (he : upsert.look.which.expand upsert.look.entity = .error e) :
    sent = [] ∧ outcome = .ok [⟨upsert.path, .nonUniqueWhere (some e.message)⟩] := by
  obtain ⟨looking, branch, found, rfl, hlooking, hbranch, -, hfailed⟩ := h
  rw [LookUp.run, Session.selectField, he] at hlooking
  obtain ⟨rfl, hdone⟩ := Program.done_reaches_iff.mp hlooking
  cases hdone
  cases hbranch
  refine ⟨rfl, ?_⟩
  rw [hfailed _ rfl]
  simp [outcomeUnder, Failure.rescued, Failure.result?, Failure.outcome?, Result.under,
    Result.atRoot]

/-- Beside its row, an upsert on a has-one relation is one of a target that points at the row. -/
lemma RelatedRow.eq_of_upsert_step {row : RelatedRow} {paired : Relation} {create update : Data}
    {operation : Action Rows (List Result)} (hpair : row.sides.pair = .ok paired)
    (h : row.toOneStep (.upsert create update) = .ok (.run operation)) :
    operation = underPath row.sides.path
      (row.upsertInverse paired (row.pointingHere paired .empty) update create) := by
  rw [toOneStep] at h
  split at h
  · cases h
  · cases h
  · rw [hpair] at h
    cases h
    rfl
  · cases h

lemma RelatedRow.toManyOperation_eq_junction {row : RelatedRow} (index : Nat) (item : ToManyItem)
    (hkind : row.sides.kind = .manyHasManyOwning ∨ row.sides.kind = .manyHasManyInverse) :
    row.toManyOperation index item = .ok (underPath (row.sides.itemPath index item.label)
      (row.junctionOperation item.input)) := by
  rw [toManyOperation]
  obtain hkind | hkind := hkind <;> simp only [hkind]

namespace Session

section Upserting

variable {entity : Entity} {which : UniqueWhere} {data : Data} {upsert : Upsert}
  {reads : α → List Result} {actions : List (Action Rows α)} {action : Action Rows α}
  {front : List (Program.Exchange Effect)}

lemma Upserting.stage
    (h : session.Upserting rows entity which data upsert reads actions action front) :
    session.Stage rows (.update entity which data) actions front := by
  cases h with
  | joining hfield hsides hstep hfound hplanned =>
    exact .updateResolvers (List.ne_nil_of_mem hfield) hfound hplanned
  | inverse hfield hsides hpair hstep hbeside => exact hbeside.stage
  | item hfield hitem hsides hkind hpair hoperation hbeside => exact hbeside.stage
  | junction hfield hitem hsides hkind hoperation hbeside => exact hbeside.stage

/-- An upsert is carried out. -/
lemma Upserting.mem_actions
    (h : session.Upserting rows entity which data upsert reads actions action front) :
    action ∈ actions := by
  cases h with
  | joining hfield hsides hstep hfound hplanned =>
    rw [deferred_of_planning hplanned]
    refine List.mem_flatMap.mpr ⟨_, hfield, ?_⟩
    simp only [updateEntries, stepOf, hsides, hstep, bind, Except.bind]
    exact List.mem_singleton_self _
  | inverse hfield hsides hpair hstep hbeside =>
    cases hbeside with
    | update hdata hfound hplanned hwriting =>
      rw [(planning_reaches_ok hplanned).2]
      exact mem_updateOperations_of_input hfield hsides hstep
  | item hfield hitem hsides hkind hpair hoperation hbeside =>
    cases hbeside with
    | update hdata hfound hplanned hwriting =>
      rw [(planning_reaches_ok hplanned).2]
      exact mem_updateOperations_of_item hfield hsides
        (fun index item => ⟨_, RelatedRow.toManyOperation_eq hkind hpair index item⟩) hitem
        hoperation
  | junction hfield hitem hsides hkind hoperation hbeside =>
    cases hbeside with
    | update hdata hfound hplanned hwriting =>
      rw [(planning_reaches_ok hplanned).2]
      exact mem_updateOperations_of_item hfield hsides
        (fun index item => ⟨_, RelatedRow.toManyOperation_eq_junction index item hkind⟩) hitem
        hoperation

/-- The calls of an upsert take its branch. -/
lemma Upserting.takesBranch
    (h : session.Upserting rows entity which data upsert reads actions action front)
    {outcome : Except Failure α} (hrun : action.run.Reaches calls (.done outcome))
    (hcarries : Program.Carries (session.rows depth) calls sent) :
    upsert.TakesBranch session depth calls sent (outcome.map reads) := by
  cases h with
  | joining hfield hsides hstep hfound hplanned =>
    obtain ⟨inner, rfl, hjoins⟩ := owningStep_eq_deferred (toOneStep_eq_column hstep).2
    cases hjoins
    obtain ⟨own, hown, rfl⟩ := Program.map_reaches_done_iff.mp hrun
    exact takesBranch_joined hown hcarries
  | inverse hfield hsides hpair hstep hbeside =>
    obtain rfl := RelatedRow.eq_of_upsert_step hpair hstep
    rw [run_underPath] at hrun
    obtain ⟨own, hown, rfl⟩ := Program.map_reaches_done_iff.mp hrun
    rw [Except.map_id]
    exact takesBranch_pointing _ hown hcarries
  | item hfield hitem hsides hkind hpair hoperation hbeside =>
    rw [RelatedRow.toManyOperation_eq hkind hpair] at hoperation
    cases hoperation
    rw [run_underPath] at hrun
    obtain ⟨own, hown, rfl⟩ := Program.map_reaches_done_iff.mp hrun
    rw [Except.map_id]
    exact takesBranch_pointing _ hown hcarries
  | junction hfield hitem hsides hkind hoperation hbeside =>
    rw [RelatedRow.toManyOperation_eq_junction _ _ hkind] at hoperation
    cases hoperation
    rw [run_underPath] at hrun
    obtain ⟨own, hown, rfl⟩ := Program.map_reaches_done_iff.mp hrun
    rw [Except.map_id]
    exact takesBranch_linked _ hown hcarries

end Upserting

/-- An upsert takes exactly one branch. Whatever the database and the access rules answer, an upsert
on a relation of a row that is updated has its turn, on each kind of relation. What is sent for it
is the look-up of its target and then one branch: nothing where the look-up failed, the insertion
of a target where it found none, and else the update of the target that it found. A target is
inserted exactly where the look-up was made and found none. Where the target is looked up by what
covers no unique key, nothing is sent and the upsert reports that alone, under the path of its
input. -/
theorem upsert_takes_one_branch (session : Session) (depth : Nat) {entity : Entity}
    {which : UniqueWhere} {data : Data} {upsert : Upsert} {reads : α → List Result}
    {actions : List (Action Rows α)} {action : Action Rows α}
    {front rest : List (Program.Exchange Effect)} {reply : Except Failure (List Result)}
    (hupsert : session.Upserting (session.rows depth) entity which data upsert reads actions action
      front)
    (hrun : (session.rows (depth + 1) (.update entity which data)).Reaches (front ++ rest)
      (.done reply)) :
    (∃ calls outcome, Turn (session.rows depth) actions action rest calls outcome) ∧
      ∀ calls outcome, Turn (session.rows depth) actions action rest calls outcome →
        ∃ before sent after, rest = before ++ sent ++ after ∧
          Program.Carries (session.rows depth) calls sent ∧
          upsert.TakesBranch session depth calls sent (outcome.map reads) ∧
          ∀ e, upsert.look.which.expand upsert.look.entity = .error e → sent = [] ∧
            outcome.map reads = .ok [⟨upsert.path, .nonUniqueWhere (some e.message)⟩] := by
  refine ⟨hupsert.stage.exists_turn hrun hupsert.mem_actions, ?_⟩
  rintro calls outcome ⟨front, back, before, earlier, sent, after, -, -, hcalls, hcarries, htrace⟩
  have hbranch := hupsert.takesBranch hcalls hcarries
  exact ⟨before, sent, after, htrace, hcarries, hbranch, fun e => hbranch.refused⟩

def retitled : Data := ⟨[("title", .value (.string "Notes"))]⟩

/-- An upsert of the post 9 of an author. -/
def upsertPost : ToManyItem := ⟨none, .upsert (.single "id" (.int 9)) retitled retitled⟩

def authorWithUpsert : Data := ⟨[("posts", .many [upsertPost])]⟩

def taken : Database.ServerError :=
  ⟨"23505", "duplicate key value violates unique constraint", "ERROR", none, none, none, none⟩

/-- A database that finds the author 7 and the post 9, but refuses the update of the post. -/
def refusedPostWorld : Script.World :=
  { Script.World.empty with
    responses := [⟨"SELECT \"id\" FROM \"author\"", true, .rows ⟨["id"], [[.int 7]], none⟩⟩,
      ⟨"SELECT \"id\" FROM \"post\"", true, .rows ⟨["id"], [[.int 9]], none⟩⟩,
      ⟨"UPDATE", false, .fail taken⟩] }

def inserts : Effect.Request → Bool
  | .query (.insert _) => true
  | _ => false

/-- Whether a statement was refused and nothing was inserted. -/
def refuses (trace : List (Program.Exchange Effect)) : Bool :=
  trace.any (fun exchange => exchange.error? = some taken.classified) &&
    trace.all fun exchange => !inserts exchange.request

/-- Whether a run comes to results so. -/
def goesOnRefused (trace : List (Program.Exchange Effect)) :
    Except Failure (List Result) → Bool
  | .ok _ => refuses trace
  | .error _ => false

lemma exists_upserting : ∃ upsert operations operation front rest reply,
    blogSession.Upserting (blogSession.rows 2) author (.single "id" (.int 7)) authorWithUpsert
      upsert id operations operation front ∧
    (blogSession.rows 3 (.update author (.single "id" (.int 7)) authorWithUpsert)).Reaches
      (front ++ rest) (.done reply) ∧
    refuses rest = true := by
  have hlookup : ∃ looking, (blogSession.selectField author (.single "id" (.int 7))
      author.primary).run.trace? Script.answer refusedPostWorld =
        some (looking, .ok (some (.int 7))) := ⟨_, rfl⟩
  obtain ⟨looking, hlooking⟩ := hlookup
  have hplan : ∃ planned operations tree, (blogSession.planning author (.int 7)
      authorWithUpsert).run.trace? Script.answer refusedPostWorld =
        some (planned, .ok ([], operations, tree)) := ⟨_, _, _, rfl⟩
  obtain ⟨planned, operations, tree, hplanning⟩ := hplan
  have hplanned := Program.reaches_of_trace? hplanning
  obtain ⟨-, rfl⟩ := planning_reaches_ok hplanned
  have htest : (Script.traced (answered (blogSession.rows 2) (collectAll
      (authorWithUpsert.fields.flatMap (updateOperations Filter.blog author (.int 7))))).run
      refusedPostWorld).any (fun outcome => goesOnRefused outcome.1 outcome.2) = true := by
    decide +kernel
  obtain ⟨rest, failure | results, hrest, htest⟩ := Script.exists_of_traced htest
  · cases htest
  obtain ⟨hbeside, hrun⟩ := beside_of_no_values (List.cons_ne_nil _ _)
    (Program.reaches_of_trace? hlooking) hplanned (Script.reaches_of_traced hrest)
  have hsides : ∃ sides paired, RelationSides.ofField Filter.blog author "posts" = .ok sides ∧
      sides.kind = .oneHasMany ∧ sides.pair = .ok paired := ⟨_, _, rfl, rfl, rfl⟩
  obtain ⟨sides, paired, hsides, hkind, hpair⟩ := hsides
  exact ⟨_, _, _, _, rest, _, .item (List.mem_singleton_self _) rfl hsides hkind hpair
    (RelatedRow.toManyOperation_eq hkind hpair 0 upsertPost) hbeside, hrun, htest⟩

/-- The post 9 of the author 7 is found, and its new title is refused as taken. No post is
inserted. -/
theorem upsert_takes_one_branch_post :
    ∃ upsert operations operation front rest reply,
      blogSession.Upserting (blogSession.rows 2) author (.single "id" (.int 7)) authorWithUpsert
        upsert id operations operation front ∧
      (blogSession.rows 3 (.update author (.single "id" (.int 7)) authorWithUpsert)).Reaches
        (front ++ rest) (.done reply) ∧
      refuses rest = true ∧
      (∃ calls outcome, Turn (blogSession.rows 2) operations operation rest calls outcome) ∧
      ∀ calls outcome, Turn (blogSession.rows 2) operations operation rest calls outcome →
        ∃ before sent after, rest = before ++ sent ++ after ∧
          Program.Carries (blogSession.rows 2) calls sent ∧
          upsert.TakesBranch blogSession 2 calls sent (outcome.map id) ∧
          ∀ e, upsert.look.which.expand upsert.look.entity = .error e → sent = [] ∧
            outcome.map id = .ok [⟨upsert.path, .nonUniqueWhere (some e.message)⟩] := by
  obtain ⟨upsert, operations, operation, front, rest, reply, hupsert, hrun, hrefuses⟩ :=
    exists_upserting
  exact ⟨upsert, operations, operation, front, rest, reply, hupsert, hrun, hrefuses,
    upsert_takes_one_branch blogSession 2 hupsert hrun⟩

def slugPostSteps : List EntityStep :=
  [.column "slug" .string, .manyHasOne "author" "Author" { inversedBy := some "posts" },
    .unique ["author", "slug"]]

/-- Authors with their posts, whose slugs tell the posts of one author apart. -/
def slugs : Schema := .ofDefinitions
  [("Author", [.oneHasMany "posts" "Post" "author"]), ("Post", slugPostSteps)]

def notesSlug : UniqueWhere := .single "slug" (.string "notes")

/-- An upsert of the post of an author that has the slug. -/
def authorWithSlug : Data :=
  let post : Data := ⟨[("slug", .value (.string "notes"))]⟩
  ⟨[("posts", .many [⟨none, .upsert notesSlug post post⟩])]⟩

/-- A database that finds the author 7 and has no posts. -/
def postlessWorld : Script.World :=
  { Script.World.empty with
    responses := [⟨"SELECT \"id\" FROM \"author\"", true, .rows ⟨["id"], [[.int 7]], none⟩⟩,
      ⟨"INSERT", false, .rows ⟨["id"], [[.int 9]], none⟩⟩] }

def isNonUnique : Result → Bool
  | ⟨_, .nonUniqueWhere _⟩ => true
  | _ => false

/-- Whether a run inserts a post of the author and refuses nothing. -/
def insertsPost (trace : List (Program.Exchange Effect)) : Except Failure (List Result) → Bool
  | .ok results => trace.any (fun exchange => postsFor 7 exchange.request) &&
    results.all fun result => !isNonUnique result
  | .error _ => false

/-- A slug covers no unique key of a post, yet the upsert by it inserts a post of the author: among
the posts of one author the slug does cover a key. -/
theorem upsert_inserts_by_slug :
    slugs.WellFormed ∧ (∃ e, notesSlug.expand (.ofSteps "Post" slugPostSteps) = .error e) ∧
    ∃ trace results, ((⟨slugs, .standard⟩ : Session).rows 3 (.update
        (.ofSteps "Author" [.oneHasMany "posts" "Post" "author"]) (.single "id" (.int 7))
        authorWithSlug)).Reaches trace (.done (.ok results)) ∧
      (∃ exchange ∈ trace, postsFor 7 exchange.request = true) ∧
      ∀ result ∈ results, isNonUnique result = false := by
  have hbuild : Schema.build [("Author", [.oneHasMany "posts" "Post" "author"]),
      ("Post", slugPostSteps)] = .ok slugs := by decide
  refine ⟨Schema.wellFormed_of_build hbuild, ⟨_, rfl⟩, ?_⟩
  have htest : (Script.traced ((⟨slugs, .standard⟩ : Session).rows 3 (.update
      (.ofSteps "Author" [.oneHasMany "posts" "Post" "author"]) (.single "id" (.int 7))
      authorWithSlug)) postlessWorld).any (fun outcome => insertsPost outcome.1 outcome.2) =
        true := by decide +kernel
  obtain ⟨trace, failure | results, hrun, htest⟩ := Script.exists_of_traced htest
  · cases htest
  obtain ⟨hinserts, hnone⟩ := Bool.and_eq_true_iff.mp htest
  refine ⟨trace, results, Script.reaches_of_traced hrun, List.any_eq_true.mp hinserts, ?_⟩
  intro result hmem
  simpa using List.all_eq_true.mp hnone result hmem

end Session

end Mutation

end EntityGraph
