import EntityGraph.Proofs.Mutation.Fatality
import EntityGraph.Proofs.Mutation.OwnQuery
/-!
# Nested operations stay with their row

Where the links of a relation are stored with its target, an input on the relation writes rows of
the target. It reaches only for targets that point at the row which the input belongs to, and a
target that it inserts points at that row. Only a connect brings other targets to the row.
-/
namespace EntityGraph

/-- The data of a row that the input may insert. -/
def ToOneInput.created? : ToOneInput → Option Data
  | create data => some data
  | upsert created _ => some created
  | _ => none

/-- The data of a row that the input may insert. -/
def ToManyInput.created? : ToManyInput → Option Data
  | create data => some data
  | upsert _ _ created => some created
  | _ => none

namespace Mutation

variable {α : Type} {rows : RowAnswers} {trace rest : List (Program.Exchange Effect)}

/-! ### Calls of nested operations -/

namespace RelatedRow

/-- A call for a target that points at the row: it is restricted to such targets, or the data link a
new target to the row. -/
inductive Keeps (row : RelatedRow) (paired : Relation) : RowRequest → Prop
  | update (which : UniqueWhere) (data : Data) :
      Keeps row paired (.update row.sides.target (row.pointingHere paired which) data)
  | delete (which : UniqueWhere) :
      Keeps row paired (.delete row.sides.target (row.pointingHere paired which))
  | insert {data : Data} (hdata : (Table.keys data.fields).Nodup) :
      Keeps row paired (.insert row.sides.target (row.linked paired data))

variable {row : RelatedRow} {paired : Relation}

lemma keeps_update (which : UniqueWhere) (data : Data) :
    (Rows.update row.sides.target (row.pointingHere paired which) data).run.Asks
      (row.Keeps paired) := ⟨.update which data, fun _ => trivial⟩

lemma keeps_insert {data : Data} (hdata : (Table.keys data.fields).Nodup) :
    (Rows.insert row.sides.target (row.linked paired data)).run.Asks (row.Keeps paired) :=
  ⟨.insert hdata, fun _ => trivial⟩

lemma keeps_delete (which : UniqueWhere) :
    (Rows.delete row.sides.target (row.pointingHere paired which)).run.Asks (row.Keeps paired) :=
  ⟨.delete which, fun _ => trivial⟩

lemma keeps_underPath {path : Path} {operation : Action Rows (List Result)}
    (h : operation.run.Asks (row.Keeps paired)) :
    (underPath path operation).run.Asks (row.Keeps paired) := by
  rw [run_underPath]
  exact Program.asks_bind h fun _ => trivial

lemma keeps_replaceInverse {data : Data} (hdata : (Table.keys data.fields).Nodup) :
    (row.replaceInverse paired data).run.Asks (row.Keeps paired) :=
  Program.asks_run_bind (keeps_update _ _) fun _ =>
    Program.asks_run_bind (keeps_insert hdata) fun _ => trivial

lemma keeps_upsertInverse (which : UniqueWhere) (update : Data) {create : Data}
    (hcreate : (Table.keys create.fields).Nodup) :
    (row.upsertInverse paired (row.pointingHere paired which) update create).run.Asks
      (row.Keeps paired) := by
  refine Program.asks_run_bind (keeps_update _ _) fun results => ?_
  cases foundRow? results with
  | none => exact keeps_insert hcreate
  | some found => trivial

lemma keeps_inverseOperation {input : ToOneInput} (hconnect : input.operation ≠ .connect)
    (hcreated : ∀ created ∈ input.created?, (Table.keys created.fields).Nodup) :
    (row.inverseOperation paired input).run.Asks (row.Keeps paired) := by
  cases input with
  | connect which => exact absurd rfl hconnect
  | create data => exact keeps_replaceInverse (hcreated data rfl)
  | update data => exact keeps_update _ _
  | upsert create update => exact keeps_upsertInverse _ _ (hcreated create rfl)
  | delete => exact keeps_delete _
  | disconnect => exact keeps_update _ _

lemma keeps_itemOperation {input : ToManyInput} (hconnect : input.operation ≠ .connect)
    (hcreated : ∀ created ∈ input.created?, (Table.keys created.fields).Nodup) :
    (row.itemOperation paired input).run.Asks (row.Keeps paired) := by
  cases input with
  | connect which => exact absurd rfl hconnect
  | create data => exact keeps_insert (hcreated data rfl)
  | update which data => exact keeps_update _ _
  | upsert which update create => exact keeps_upsertInverse _ _ (hcreated create rfl)
  | delete which => exact keeps_delete _
  | disconnect which => exact keeps_update _ _

lemma toManyOperation_eq (hkind : row.sides.kind = .oneHasMany)
    (hpair : row.sides.pair = .ok paired) (index : Nat) (item : ToManyItem) :
    row.toManyOperation index item = .ok (underPath (row.sides.itemPath index item.label)
      (row.itemOperation paired item.input)) := by
  rw [toManyOperation, hpair]
  simp only [hkind]
  rfl

/-- The items are accepted together if each of them is. -/
lemma exists_toManyFrom
    (haccepts : ∀ index item, ∃ operation, row.toManyOperation index item = .ok operation)
    (start : Nat) (items : List ToManyItem) :
    ∃ operations, row.toManyFrom start items = .ok operations := by
  induction items generalizing start with
  | nil => exact ⟨[], rfl⟩
  | cons item others ih =>
    obtain ⟨operation, hoperation⟩ := haccepts start item
    obtain ⟨operations, hoperations⟩ := ih (start + 1)
    rw [toManyFrom, hoperation, hoperations]
    exact ⟨_, rfl⟩

/-- A new row of an inverse relation is connected or created. -/
lemma createToOne_eq_ok {input : ToOneInput} {operation : Action Rows (List Result)}
    (hpair : row.sides.pair = .ok paired) (h : row.createToOne input = .ok operation) :
    (∃ which, input = .connect which) ∨ ∃ data, input = .create data ∧
      operation = underPath row.sides.path
        (Rows.insert row.sides.target (row.linked paired data)) := by
  unfold createToOne at h
  split at h
  · exact .inl ⟨_, rfl⟩
  · rw [hpair] at h
    cases h
    exact .inr ⟨_, rfl, rfl⟩
  · cases h

/-- The operation of each item is among those of all of them. -/
lemma exists_mem_toManyFrom {items : List ToManyItem} {start index : Nat} {item : ToManyItem}
    {operations : List (Action Rows (List Result))}
    (h : row.toManyFrom start items = .ok operations) (hitem : items[index]? = some item) :
    ∃ operation ∈ operations, row.toManyOperation (start + index) item = .ok operation := by
  induction items generalizing start index operations with
  | nil => cases hitem
  | cons first others ih =>
    obtain ⟨own, hown, h⟩ := Except.bind_eq_ok.mp h
    obtain ⟨later, hlater, h⟩ := Except.bind_eq_ok.mp h
    cases h
    cases index with
    | zero =>
      cases hitem
      exact ⟨own, List.mem_cons_self, hown⟩
    | succ index =>
      obtain ⟨operation, hmem, hoperation⟩ := ih hlater hitem
      rw [Nat.add_right_comm] at hoperation
      exact ⟨operation, List.mem_cons_of_mem _ hmem, hoperation⟩

end RelatedRow

/-- The items of a new row were accepted. -/
lemma exists_createToMany {primary : Value} {pending : List Pending}
    {operations : List (Action Rows (List Result))} {sides : RelationSides}
    {items : List ToManyItem} (h : afterInsert primary pending = .ok operations)
    (hmem : .many sides items ∈ pending) :
    ∃ own, RelatedRow.createToMany ⟨sides, primary⟩ items = .ok own := by
  induction pending generalizing operations with
  | nil => cases hmem
  | cons waiting others ih =>
    cases waiting with
    | one other input =>
      obtain ⟨operation, -, h⟩ := Except.bind_eq_ok.mp h
      obtain ⟨later, hlater, -⟩ := Except.bind_eq_ok.mp h
      exact ih hlater ((List.mem_cons.mp hmem).resolve_left fun heq => by cases heq)
    | many other given =>
      obtain ⟨own, hown, h⟩ := Except.bind_eq_ok.mp h
      obtain ⟨later, hlater, -⟩ := Except.bind_eq_ok.mp h
      obtain heq | hmem := List.mem_cons.mp hmem
      · cases heq
        exact ⟨own, hown⟩
      · exact ih hlater hmem

lemma toManyOperations_of_createToMany {row : RelatedRow} {items : List ToManyItem}
    {operations : List (Action Rows (List Result))} (h : row.createToMany items = .ok operations) :
    row.toManyOperations items = .ok operations := by
  rw [RelatedRow.createToMany] at h
  split at h
  · cases h
  · exact h

section Operations

variable {schema : Schema} {entity : Entity} {primary : Value} {field : String}
  {sides : RelationSides} {fields : Table FieldInput} {pending : List Pending}
  {items : List ToManyItem} {index : Nat} {item : ToManyItem} {input : ToOneInput}
  {operation : Action Rows (List Result)} {operations : List (Action Rows (List Result))}

/-- The operation of an item is run once its new row has a key. -/
lemma mem_afterInsert_of_item (hoperations : afterInsert primary pending = .ok operations)
    (hmem : .many sides items ∈ pending) (hitem : items[index]? = some item)
    (hoperation : RelatedRow.toManyOperation ⟨sides, primary⟩ index item = .ok operation) :
    operation ∈ operations := by
  obtain ⟨own, hown⟩ := exists_createToMany hoperations hmem
  obtain ⟨other, hother, hsame⟩ :=
    RelatedRow.exists_mem_toManyFrom (toManyOperations_of_createToMany hown) hitem
  rw [Nat.zero_add] at hsame
  cases hoperation.symm.trans hsame
  rw [afterInsert_eq_ok hoperations]
  refine List.mem_flatMap.mpr ⟨_, hmem, ?_⟩
  simp only [pendingOperations, hown]
  exact hother

/-- So is the operation of an input on a single target. -/
lemma mem_afterInsert_of_input (hoperations : afterInsert primary pending = .ok operations)
    (hmem : .one sides input ∈ pending)
    (hoperation : RelatedRow.createToOne ⟨sides, primary⟩ input = .ok operation) :
    operation ∈ operations := by
  rw [afterInsert_eq_ok hoperations]
  refine List.mem_flatMap.mpr ⟨_, hmem, ?_⟩
  simp only [pendingOperations, hoperation]
  exact List.mem_singleton_self _

/-- The operation of an item is run beside the row that is updated. -/
lemma mem_updateOperations_of_item (hfield : (field, .many items) ∈ fields)
    (hsides : RelationSides.ofField schema entity field = .ok sides)
    (haccepts : ∀ index item, ∃ operation,
      RelatedRow.toManyOperation ⟨sides, primary⟩ index item = .ok operation)
    (hitem : items[index]? = some item)
    (hoperation : RelatedRow.toManyOperation ⟨sides, primary⟩ index item = .ok operation) :
    operation ∈ fields.flatMap (updateOperations schema entity primary) := by
  have hall : ∃ own, RelatedRow.toManyOperations ⟨sides, primary⟩ items = .ok own :=
    RelatedRow.exists_toManyFrom haccepts 0 items
  obtain ⟨own, hown⟩ := hall
  obtain ⟨other, hother, hsame⟩ := RelatedRow.exists_mem_toManyFrom hown hitem
  rw [Nat.zero_add] at hsame
  cases hoperation.symm.trans hsame
  refine List.mem_flatMap.mpr ⟨_, hfield, ?_⟩
  simp only [updateOperations, hsides, hown]
  exact hother

lemma mem_updateOperations_of_input (hfield : (field, .one input) ∈ fields)
    (hsides : RelationSides.ofField schema entity field = .ok sides)
    (hoperation : RelatedRow.toOneStep ⟨sides, primary⟩ input = .ok (.run operation)) :
    operation ∈ fields.flatMap (updateOperations schema entity primary) := by
  refine List.mem_flatMap.mpr ⟨_, hfield, ?_⟩
  simp only [updateOperations, stepOf, hsides, hoperation, bind, Except.bind]
  exact List.mem_singleton_self _

end Operations

/-- Each of the actions that are run in turn has its turn. -/
lemma exists_turn_of_mem {actions : List (Action Rows α)} {action : Action Rows α}
    {outcomes : List (Except Failure α)}
    (h : (runAll rows actions).Reaches trace (.done outcomes)) (hmem : action ∈ actions)
    (more : List (Program.Exchange Effect)) :
    ∃ calls outcome, Turn rows actions action (trace ++ more) calls outcome := by
  induction actions generalizing trace outcomes with
  | nil => cases hmem
  | cons first others ih =>
    obtain ⟨own, outcome, later, results, hown, hlater, rfl, rfl⟩ := runAll_cons_reaches_iff.mp h
    rw [List.append_assoc]
    obtain rfl | hmem := List.mem_cons.mp hmem
    · obtain ⟨calls, hturn⟩ := exists_turn_head hown others (later ++ more)
      exact ⟨calls, outcome, hturn⟩
    · obtain ⟨calls, other, hturn⟩ := ih hlater hmem
      exact ⟨calls, other, hturn.cons hown⟩

/-- A write of a row with the data. -/
inductive RowRequest.Writes (entity : Entity) (data : Data) : RowRequest → Prop
  | insert : Writes entity data (.insert entity data)
  | update (which : UniqueWhere) : Writes entity data (.update entity which data)

namespace Session

variable {session : Session}

/-- The operations that a write runs beside its row, once it knows the key of the row; before them
the front was sent. -/
inductive Beside (session : Session) (rows : RowAnswers) :
    RowRequest → Value → List (Action Rows (List Result)) → List (Program.Exchange Effect) → Prop
  | insert {entity : Entity} {data : Data} {values : FieldValues Rows} {pending : List Pending}
      {primary : Value} {inserted : Inserted} {operations : List (Action Rows (List Result))}
      {opened writing : List (Program.Exchange Effect)}
      (hopened : (session.opening entity data).run.Reaches opened (.done (.ok (values, pending))))
      (hinserted : (session.insertValues rows entity values).run.Reaches writing
        (.done (.ok inserted)))
      (hprimary : inserted.primary = some primary)
      (hoperations : afterInsert primary pending = .ok operations) :
      Beside session rows (.insert entity data) primary operations (opened ++ writing)
  | update {entity : Entity} {which : UniqueWhere} {data : Data} {primary : Value}
      {values : FieldValues Rows} {operations : List (Action Rows (List Result))}
      {tree : Sql.ConditionTree} {own : Except Failure Updated}
      {looking planned writing : List (Program.Exchange Effect)}
      (hdata : data.fields ≠ [])
      (hfound : (session.selectField entity which entity.primary).run.Reaches looking
        (.done (.ok (some primary))))
      (hplanned : (session.planning entity primary data).run.Reaches planned
        (.done (.ok (values, operations, tree))))
      (hwriting : (session.updateValues rows entity values tree).run.Reaches writing (.done own)) :
      Beside session rows (.update entity which data) primary operations
        (looking ++ (planned ++ writing))

/-- The operation of an input, other than a connect, on a relation whose links are stored with the
target, for the row with the key. -/
inductive Nests (session : Session) (primary : Value) (sides : RelationSides) :
    RowRequest → Action Rows (List Result) → Prop
  | item {request : RowRequest} {entity : Entity} {data : Data} {field : String}
      {items : List ToManyItem} {index : Nat} {item : ToManyItem}
      {operation : Action Rows (List Result)} (hwrites : request.Writes entity data)
      (hfield : (field, .many items) ∈ data.fields)
      (hsides : RelationSides.ofField session.schema entity field = .ok sides)
      (hkind : sides.kind = .oneHasMany) (hitem : items[index]? = some item)
      (hconnect : item.input.operation ≠ .connect)
      (hcreated : ∀ created ∈ item.input.created?, (Table.keys created.fields).Nodup)
      (hoperation : RelatedRow.toManyOperation ⟨sides, primary⟩ index item = .ok operation) :
      Nests session primary sides request operation
  | inverse {entity : Entity} {which : UniqueWhere} {data : Data} {field : String}
      {input : ToOneInput} {operation : Action Rows (List Result)}
      (hfield : (field, .one input) ∈ data.fields)
      (hsides : RelationSides.ofField session.schema entity field = .ok sides)
      (hkind : sides.kind = .oneHasOneInverse) (hconnect : input.operation ≠ .connect)
      (hcreated : ∀ created ∈ input.created?, (Table.keys created.fields).Nodup)
      (hoperation : RelatedRow.toOneStep ⟨sides, primary⟩ input = .ok (.run operation)) :
      Nests session primary sides (.update entity which data) operation
  | created {entity : Entity} {data : Data} {field : String} {input : ToOneInput}
      {operation : Action Rows (List Result)} (hfield : (field, .one input) ∈ data.fields)
      (hsides : RelationSides.ofField session.schema entity field = .ok sides)
      (hkind : sides.kind = .oneHasOneInverse) (hconnect : input.operation ≠ .connect)
      (hcreated : ∀ created ∈ input.created?, (Table.keys created.fields).Nodup)
      (hoperation : RelatedRow.createToOne ⟨sides, primary⟩ input = .ok operation) :
      Nests session primary sides (.insert entity data) operation

/-- On the trace of an operation on a row, the query that reaches for the row: the look-up of an
update, the statement that a deletion begins with, or the insertion of the row itself. -/
inductive OwnQuery (session : Session) :
    Nat → RowRequest → List (Program.Exchange Effect) → Sql.Query → Prop
  | insert {depth : Nat} {entity : Entity} {data : Data} {row : RowValues Rows}
      {statement : Sql.Insert} {reply : Except Database.Error Database.ResultSet}
      {before after : List (Program.Exchange Effect)}
      (hprepared : (session.ownInsertion (session.rows depth) entity data).run.Reaches before
        (.done (.ok (row, statement)))) :
      OwnQuery session (depth + 1) (.insert entity data)
        (before ++ ⟨.query (.insert statement), reply⟩ :: after) (.insert statement)
  | update {depth : Nat} {entity : Entity} {which : UniqueWhere} {data : Data}
      {trace : List (Program.Exchange Effect)} {query : Sql.Query}
      (hfirst : firstQuery? trace = some query) :
      OwnQuery session depth (.update entity which data) trace query
  | delete {depth : Nat} {entity : Entity} {which : UniqueWhere}
      {trace : List (Program.Exchange Effect)} {query : Sql.Query}
      (hfirst : firstQuery? trace = some query) :
      OwnQuery session depth (.delete entity which) trace query

/-- Each of the actions that a write brings with it has its turn. -/
lemma Stage.exists_turn {depth : Nat} {request : RowRequest} {actions : List (Action Rows α)}
    {action : Action Rows α} {front : List (Program.Exchange Effect)} {reply : request.Reply}
    (hstage : session.Stage (session.rows depth) request actions front)
    (hrun : (session.rows (depth + 1) request).Reaches (front ++ rest) (.done reply))
    (hmem : action ∈ actions) :
    ∃ calls outcome, Turn (session.rows depth) actions action rest calls outcome := by
  obtain ⟨outcomes, sent, more, hall, rfl, -⟩ := hstage.fails (List.ne_nil_of_mem hmem) hrun
  exact exists_turn_of_mem hall hmem more

section Nesting

variable {depth : Nat} {request : RowRequest} {primary : Value} {sides : RelationSides}
  {operation : Action Rows (List Result)} {operations : List (Action Rows (List Result))}
  {paired : Relation} {joining : JoiningColumn}

lemma Beside.stage (h : session.Beside rows request primary operations trace) :
    session.Stage rows request operations trace := by
  cases h with
  | insert hopened hinserted hprimary hoperations =>
    exact .insertOperations hopened hinserted hprimary hoperations
  | update hdata hfound hplanned hwriting =>
    exact .updateOperations hdata hfound hplanned hwriting

lemma Nests.exists_storedBy (h : session.Nests primary sides request operation)
    (hs : session.schema.WellFormed) (hrequest : request.Within session.schema.Declares) :
    ∃ paired joining, sides.StoredBy session.schema paired joining := by
  cases h with
  | item hwrites hfield hsides hkind =>
    cases hwrites <;> exact RelationSides.exists_storedBy hs hrequest hsides (.inl hkind)
  | inverse hfield hsides hkind =>
    exact RelationSides.exists_storedBy hs hrequest hsides (.inr hkind)
  | created hfield hsides hkind =>
    exact RelationSides.exists_storedBy hs hrequest hsides (.inr hkind)

/-- A nested operation is among those that are run beside the row. -/
lemma Nests.mem_operations (h : session.Nests primary sides request operation)
    (hpair : sides.pair = .ok paired)
    (hbeside : session.Beside rows request primary operations trace) :
    operation ∈ operations := by
  cases h with
  | item hwrites hfield hsides hkind hitem hconnect hcreated hoperation =>
    cases hbeside with
    | insert hopened hinserted hprimary hoperations =>
      cases hwrites
      obtain ⟨rfl, -⟩ := opening_reaches_ok hopened
      refine mem_afterInsert_of_item hoperations (List.mem_flatMap.mpr ⟨_, hfield, ?_⟩) hitem
        hoperation
      simp only [createPending, hsides]
      exact List.mem_singleton_self _
    | update hdata hfound hplanned hwriting =>
      cases hwrites
      obtain ⟨-, rfl⟩ := planning_reaches_ok hplanned
      exact mem_updateOperations_of_item hfield hsides
        (fun index item => ⟨_, RelatedRow.toManyOperation_eq hkind hpair index item⟩) hitem
        hoperation
  | inverse hfield hsides hkind hconnect hcreated hoperation =>
    cases hbeside with
    | update hdata hfound hplanned hwriting =>
      obtain ⟨-, rfl⟩ := planning_reaches_ok hplanned
      exact mem_updateOperations_of_input hfield hsides hoperation
  | created hfield hsides hkind hconnect hcreated hoperation =>
    cases hbeside with
    | insert hopened hinserted hprimary hoperations =>
      obtain ⟨rfl, -⟩ := opening_reaches_ok hopened
      refine mem_afterInsert_of_input hoperations (List.mem_flatMap.mpr ⟨_, hfield, ?_⟩) hoperation
      simp only [createPending, hsides, hkind]
      exact List.mem_singleton_self _

/-- A nested operation calls for no targets but those that point at its row. -/
lemma Nests.keeps (h : session.Nests primary sides request operation)
    (hpair : sides.pair = .ok paired) :
    operation.run.Asks (RelatedRow.Keeps ⟨sides, primary⟩ paired) := by
  cases h with
  | item hwrites hfield hsides hkind hitem hconnect hcreated hoperation =>
    rw [RelatedRow.toManyOperation_eq hkind hpair] at hoperation
    cases hoperation
    exact RelatedRow.keeps_underPath (RelatedRow.keeps_itemOperation hconnect hcreated)
  | inverse hfield hsides hkind hconnect hcreated hoperation =>
    rw [RelatedRow.toOneStep, hpair] at hoperation
    simp only [hkind] at hoperation
    cases hoperation
    exact RelatedRow.keeps_underPath (RelatedRow.keeps_inverseOperation hconnect hcreated)
  | created hfield hsides hkind hconnect hcreated hoperation =>
    obtain ⟨which, rfl⟩ | ⟨given, rfl, rfl⟩ := RelatedRow.createToOne_eq_ok hpair hoperation
    · exact absurd rfl hconnect
    · exact RelatedRow.keeps_underPath (RelatedRow.keeps_insert (hcreated given rfl))

lemma keepsTo_of_ownQuery {row : RelatedRow} {query : Sql.Query} {reply : request.Reply}
    (hstored : row.sides.StoredBy session.schema paired joining)
    (hkeeps : row.Keeps paired request)
    (hrun : (session.rows depth request).Reaches trace (.done reply))
    (h : session.OwnQuery depth request trace query) :
    query.KeepsTo row.sides.target paired.name joining.columnName row.primary := by
  obtain _ | depth := depth
  · obtain ⟨contra, -⟩ := Program.ask_reaches_done_iff.mp hrun
    exact contra.elim
  cases hkeeps with
  | update which data =>
    cases h with
    | update hfirst =>
      obtain ⟨filter, predicate, tree, column, hfilter, htree, rfl⟩ :=
        of_updateRow hrun.begins hfirst
      exact ⟨rfl, tree, rfl, hstored.confines hfilter htree⟩
  | delete which =>
    cases h with
    | delete hfirst =>
      obtain ⟨filter, predicate, tree, hfilter, htree, rfl⟩ := of_deleteRow hrun.begins hfirst
      exact ⟨rfl, tree, rfl, hstored.confines hfilter htree⟩
  | insert hdata =>
    cases h with
    | insert hprepared =>
      have hcolumn := Entity.columnName_of_relation hstored.relation hstored.joiningColumn
      exact keepsTo_of_ownInsertion hdata hcolumn hprepared

end Nesting

/-- A post of an author that names another author. -/
def postOfOther : ToManyItem :=
  ⟨none, .create ⟨[("title", .value (.string "Notes")),
    ("author", .one (.connect (.single "id" (.int 8))))]⟩⟩

def authorWithOther : Data := ⟨[("posts", .many [postOfOther])]⟩

/-- Gives the post to the author 7. -/
def posting : RowRequest := .update author (.single "id" (.int 7)) authorWithOther

/-- A database that finds the author 7 and inserts the post 9. -/
def postingWorld : Script.World :=
  { Script.World.empty with
    responses := [⟨"SELECT", true, .rows ⟨["id"], [[.int 7]], none⟩⟩,
      ⟨"INSERT", false, .rows ⟨["id"], [[.int 9]], none⟩⟩] }

def setsAuthorTo (key : Int64) : Sql.ColumnRef × Sql.Expr → Bool
  | (column, .param (.int value)) => column = Sql.column "author_id" && value = key
  | _ => false

/-- Whether a post of the author is inserted. -/
def postsFor (key : Int64) : Effect.Request → Bool
  | .query (.insert insertion) =>
    insertion.table = Sql.table "post" && insertion.values.any (setsAuthorTo key)
  | _ => false

/-- Whether a run comes to results and inserts a post of the author. -/
def posts (key : Int64) (trace : List (Program.Exchange Effect)) :
    Except Failure (List Result) → Bool
  | .ok _ => trace.any fun exchange => postsFor key exchange.request
  | .error _ => false

/-- An update without values of its own goes straight on to what is run beside its row. -/
lemma beside_of_no_values {depth : Nat} {entity : Entity} {which : UniqueWhere} {data : Data}
    {primary : Value} {operations : List (Action Rows (List Result))} {tree : Sql.ConditionTree}
    {looking planned : List (Program.Exchange Effect)} {related : Except Failure (List Result)}
    (hdata : data.fields ≠ [])
    (hfound : (session.selectField entity which entity.primary).run.Reaches looking
      (.done (.ok (some primary))))
    (hplanned : (session.planning entity primary data).run.Reaches planned
      (.done (.ok ([], operations, tree))))
    (hrest : (answered (session.rows depth) (collectAll operations)).run.Reaches rest
      (.done related)) :
    session.Beside (session.rows depth) (.update entity which data) primary operations
        (looking ++ (planned ++ [])) ∧
      (session.rows (depth + 1) (.update entity which data)).Reaches
        (looking ++ (planned ++ []) ++ rest)
        (.done (reported entity primary (.ok ⟨none, [], []⟩) related)) := by
  have hwriting : (session.updateValues (session.rows depth) entity [] tree).run.Reaches []
      (.done (.ok ⟨none, [], []⟩)) := Program.done_reaches_iff.mpr ⟨rfl, rfl⟩
  refine ⟨.update hdata hfound hplanned hwriting, ?_⟩
  rw [List.append_nil, List.append_assoc]
  refine (updateRow_reaches_iff_of_found hfound hdata).mpr ?_
  exact (updateFound_reaches_iff_of_planned hplanned).mpr
    ⟨[], _, rest, _, hwriting, hrest, rfl, rfl⟩

lemma exists_posting : ∃ operations front rest reply,
    blogSession.Beside (blogSession.rows 2) posting (.int 7) operations front ∧
    (blogSession.rows 3 posting).Reaches (front ++ rest) (.done reply) ∧
    ∃ exchange ∈ rest, postsFor 7 exchange.request = true := by
  have hlookup : ∃ looking, (blogSession.selectField author (.single "id" (.int 7))
      author.primary).run.trace? Script.answer postingWorld =
        some (looking, .ok (some (.int 7))) := ⟨_, rfl⟩
  obtain ⟨looking, hlooking⟩ := hlookup
  have hplan : ∃ planned operations tree, (blogSession.planning author (.int 7)
      authorWithOther).run.trace? Script.answer postingWorld =
        some (planned, .ok ([], operations, tree)) := ⟨_, _, _, rfl⟩
  obtain ⟨planned, operations, tree, hplanning⟩ := hplan
  have hplanned := Program.reaches_of_trace? hplanning
  obtain ⟨-, rfl⟩ := planning_reaches_ok hplanned
  have htest : (Script.traced (answered (blogSession.rows 2) (collectAll
      (authorWithOther.fields.flatMap (updateOperations Filter.blog author (.int 7))))).run
      postingWorld).any (fun outcome => posts 7 outcome.1 outcome.2) = true := by decide +kernel
  obtain ⟨rest, failure | results, hrest, htest⟩ := Script.exists_of_traced htest
  · cases htest
  obtain ⟨hbeside, hrun⟩ := beside_of_no_values (List.cons_ne_nil _ _)
    (Program.reaches_of_trace? hlooking) hplanned (Script.reaches_of_traced hrest)
  exact ⟨_, _, rest, _, hbeside, hrun, List.any_eq_true.mp htest⟩

lemma exists_nests_posting :
    ∃ sides operation, blogSession.Nests (.int 7) sides posting operation := by
  have hsides : ∃ sides paired, RelationSides.ofField Filter.blog author "posts" = .ok sides ∧
      sides.kind = .oneHasMany ∧ sides.pair = .ok paired := ⟨_, _, rfl, rfl, rfl⟩
  obtain ⟨sides, paired, hsides, hkind, hpair⟩ := hsides
  have hitem : [postOfOther][0]? = some postOfOther := rfl
  have hcreated : ∀ created ∈ postOfOther.input.created?, (Table.keys created.fields).Nodup := by
    rintro created ⟨⟩
    decide
  have hoperation : RelatedRow.toManyOperation ⟨sides, .int 7⟩ 0 postOfOther = _ :=
    RelatedRow.toManyOperation_eq hkind hpair 0 postOfOther
  exact ⟨sides, _, .item (.update _) (List.mem_singleton_self _) hsides hkind hitem (by decide)
    hcreated hoperation⟩

end Session

end Mutation

end EntityGraph
