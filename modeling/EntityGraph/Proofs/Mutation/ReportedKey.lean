import EntityGraph.Proofs.Mutation.Upserting
/-!
# The key that an update reports

An update reports the key under which it found its row. The row still has it after the statement of
the update, unless that assigns another one, and what is run beside the row goes by it: it reaches
for targets that point at the row, points targets at the row, or writes entries of the row in a
junction table.
-/
namespace EntityGraph

/-! ### Keys of assigned rows -/

section Assigned

variable {row : Row} {column : String} {value : Value}

lemma Row.find?_assign (column : String) (value : Value) (row : Row) (other : String) :
    (row.assign column value).find? other =
      (row.find? other).map fun old => if other = column then value else old := by
  induction row with
  | nil => rfl
  | cons pair rest ih =>
    obtain ⟨name, old⟩ := pair
    by_cases hname : name = other
    · simp [Row.assign, Table.find?, hname]
    · simp_all [Row.assign, Table.find?]

/-- Parameters can be assigned to any row. What a column holds stays there unless something else is
assigned to it. -/
lemma Store.exists_assigned {table : Sql.TableRef} {values : List (Sql.ColumnRef × Sql.Expr)}
    (hparams : ∀ pair ∈ values, ∃ name value, pair = (Sql.column name, .param value))
    (hkeeps : ∀ other, (Sql.column column, .param other) ∈ values → other = value)
    (hrow : row.find? column = some value) :
    ∃ next, Store.assigned? table values row = some next ∧ next.find? column = some value := by
  unfold Store.assigned?
  generalize [(table.referenceName, row)] = scope
  induction values generalizing row with
  | nil => exact ⟨row, rfl, hrow⟩
  | cons pair others ih =>
    obtain ⟨name, assigned, rfl⟩ := hparams pair List.mem_cons_self
    have hheld : (row.assign name assigned).find? column = some value := by
      rw [Row.find?_assign, hrow, Option.map_some]
      split
      · rename_i hname
        rw [hkeeps assigned (by rw [hname]; exact List.mem_cons_self)]
      · rfl
    obtain ⟨next, hnext, hnextKey⟩ := ih
      (fun pair hmem => hparams pair (List.mem_cons_of_mem _ hmem))
      (fun other hmem => hkeeps other (List.mem_cons_of_mem _ hmem)) hheld
    exact ⟨next, by simpa [Sql.column] using hnext, hnextKey⟩

end Assigned

namespace Mutation

variable {session : Session} {rows : RowAnswers} {depth : Nat} {entity : Entity}
  {which : UniqueWhere} {data : Data} {trace rest : List (Program.Exchange Effect)}

/-! ### Operations beside a row -/

namespace RelatedRow

/-- A call that goes by the key of the row: it is restricted to targets that point at the row,
points a target at the row, or is about an entry of the row in a junction table. The targets of a
many-to-many relation are reached for apart from their entries. -/
inductive GoesBy (row : RelatedRow) : RowRequest → Prop
  | update {paired : Relation} (hpair : row.sides.pair = .ok paired) (which : UniqueWhere)
      (data : Data) : GoesBy row (.update row.sides.target (row.pointingHere paired which) data)
  | delete {paired : Relation} (hpair : row.sides.pair = .ok paired) (which : UniqueWhere) :
      GoesBy row (.delete row.sides.target (row.pointingHere paired which))
  | insert {paired : Relation} (hpair : row.sides.pair = .ok paired) (data : Data) :
      GoesBy row (.insert row.sides.target (row.linked paired data))
  | link {paired : Relation} (hpair : row.sides.pair = .ok paired) (which : UniqueWhere) :
      GoesBy row (.update row.sides.target which (row.linked paired .empty))
  | connect {paired : Relation} (hpair : row.sides.pair = .ok paired) (which : UniqueWhere) :
      GoesBy row
        (.update row.sides.target which (Data.empty.withOne paired.name (.connect row.key)))
  | entry (hkind : row.sides.kind = .manyHasManyOwning) {request : RowRequest} (target : Value)
      (hrequest : request ∈ [.connect row.sides.entity row.sides.relation row.primary target,
        .disconnect row.sides.entity row.sides.relation row.primary target]) :
      GoesBy row request
  | inverseEntry {paired : Relation} (hkind : row.sides.kind = .manyHasManyInverse)
      (hpair : row.sides.pair = .ok paired) {request : RowRequest} (target : Value)
      (hrequest : request ∈ [.connect row.sides.target paired target row.primary,
        .disconnect row.sides.target paired target row.primary]) : GoesBy row request
  | target (hkind : row.sides.kind = .manyHasManyOwning ∨ row.sides.kind = .manyHasManyInverse)
      {request : RowRequest} (which : UniqueWhere) (data : Data)
      (hrequest : request ∈ [.primaryValue row.sides.target which,
        .update row.sides.target which data, .insert row.sides.target data,
        .delete row.sides.target which]) : GoesBy row request

variable {row : RelatedRow} {paired : Relation}

section Pointing

variable (hpair : row.sides.pair = .ok paired)
include hpair

lemma goesBy_upsertInverse (which : UniqueWhere) (update create : Data) :
    (row.upsertInverse paired (row.pointingHere paired which) update create).run.Asks
      row.GoesBy := by
  refine Program.asks_run_bind ⟨.update hpair _ _, fun _ => trivial⟩ fun results => ?_
  cases foundRow? results with
  | none => exact ⟨.insert hpair _, fun _ => trivial⟩
  | some found => trivial

lemma goesBy_inverseOperation (input : ToOneInput) :
    (row.inverseOperation paired input).run.Asks row.GoesBy := by
  cases input with
  | connect which => exact ⟨.connect hpair which, fun _ => trivial⟩
  | create data =>
    exact Program.asks_run_bind ⟨.update hpair _ _, fun _ => trivial⟩ fun _ =>
      Program.asks_run_bind ⟨.insert hpair _, fun _ => trivial⟩ fun _ => trivial
  | update data => exact ⟨.update hpair _ _, fun _ => trivial⟩
  | upsert create update => exact goesBy_upsertInverse hpair _ _ _
  | delete => exact ⟨.delete hpair _, fun _ => trivial⟩
  | disconnect => exact ⟨.update hpair _ _, fun _ => trivial⟩

lemma goesBy_itemOperation (input : ToManyInput) :
    (row.itemOperation paired input).run.Asks row.GoesBy := by
  cases input with
  | connect which => exact ⟨.link hpair which, fun _ => trivial⟩
  | create data => exact ⟨.insert hpair _, fun _ => trivial⟩
  | update which data => exact ⟨.update hpair _ _, fun _ => trivial⟩
  | upsert which update create => exact goesBy_upsertInverse hpair _ _ _
  | delete which => exact ⟨.delete hpair _, fun _ => trivial⟩
  | disconnect which => exact ⟨.update hpair _ _, fun _ => trivial⟩

end Pointing

section Junctions

variable
  (hkind : row.sides.kind = .manyHasManyOwning ∨ row.sides.kind = .manyHasManyInverse)
include hkind

/-- An action on the entry of the row and a target, on either side of the junction table. -/
lemma goesBy_entry (target : Value) :
    (row.connectJunction target).run.Asks row.GoesBy ∧
      (row.disconnectJunction target).run.Asks row.GoesBy := by
  obtain howning | hinverse := hkind
  · simp only [connectJunction, disconnectJunction, howning]
    exact ⟨⟨.entry howning target (by simp), fun _ => trivial⟩,
      ⟨.entry howning target (by simp), fun _ => trivial⟩⟩
  · simp only [connectJunction, disconnectJunction, hinverse]
    cases hpair : row.sides.pair with
    | error failure => exact ⟨trivial, trivial⟩
    | ok paired =>
      exact ⟨⟨.inverseEntry hinverse hpair target (by simp), fun _ => trivial⟩,
        ⟨.inverseEntry hinverse hpair target (by simp), fun _ => trivial⟩⟩

lemma goesBy_insertLinked (data : Data) : (row.insertLinked data).run.Asks row.GoesBy := by
  refine Program.asks_run_bind ⟨.target hkind .empty data (by simp), fun _ => trivial⟩
    fun results => ?_
  cases createdKey? results with
  | some target =>
    exact Program.asks_run_bind (goesBy_entry hkind target).1 fun _ => trivial
  | none => trivial

lemma goesBy_updateLinked (target : Value) (data : Data) :
    (row.updateLinked target data).run.Asks row.GoesBy :=
  Program.asks_run_bind ⟨.target hkind (row.targetKey target) data (by simp), fun _ => trivial⟩
    fun _ => Program.asks_run_bind (goesBy_entry hkind target).1 fun _ => trivial

lemma goesBy_junctionOperation (input : ToManyInput) :
    (row.junctionOperation input).run.Asks row.GoesBy := by
  have hfind (which : UniqueWhere) {next : Option Value → Action Rows (List Result)}
      (hnext : ∀ found, (next found).run.Asks row.GoesBy) :
      (Rows.primaryValue row.sides.target which >>= next).run.Asks row.GoesBy :=
    Program.asks_run_bind ⟨.target hkind which .empty (by simp), fun _ => trivial⟩ hnext
  cases input with
  | connect which =>
    refine hfind which fun found => ?_
    cases found with
    | some target => exact (goesBy_entry hkind target).1
    | none => trivial
  | create data => exact goesBy_insertLinked hkind data
  | update which data =>
    refine hfind which fun found => ?_
    cases found with
    | some target => exact goesBy_updateLinked hkind target data
    | none => trivial
  | upsert which update create =>
    refine hfind which fun found => ?_
    cases found with
    | some target => exact goesBy_updateLinked hkind target update
    | none => exact goesBy_insertLinked hkind create
  | delete which => exact ⟨.target hkind which .empty (by simp), fun _ => trivial⟩
  | disconnect which =>
    refine hfind which fun found => ?_
    cases found with
    | some target => exact (goesBy_entry hkind target).2
    | none => trivial

end Junctions

lemma goesBy_underPath {path : Path} {operation : Action Rows (List Result)}
    (h : operation.run.Asks row.GoesBy) : (underPath path operation).run.Asks row.GoesBy := by
  rw [run_underPath]
  exact Program.asks_bind h fun _ => trivial

end RelatedRow

/-! ### Updates that report their row -/

namespace Session

/-- An operation that an input of the data asks for beside the row with the key, on a has-many
relation or on the inverse side of a has-one relation. -/
inductive Attends (session : Session) (entity : Entity) (key : Value) (data : Data) :
    RelationSides → Action Rows (List Result) → Prop
  | item {field : String} {items : List ToManyItem} {index : Nat} {item : ToManyItem}
      {sides : RelationSides} {operation : Action Rows (List Result)}
      (hfield : (field, .many items) ∈ data.fields) (hitem : items[index]? = some item)
      (hsides : RelationSides.ofField session.schema entity field = .ok sides)
      (hoperation : RelatedRow.toManyOperation ⟨sides, key⟩ index item = .ok operation) :
      Attends session entity key data sides operation
  | inverse {field : String} {input : ToOneInput} {sides : RelationSides}
      {operation : Action Rows (List Result)} (hfield : (field, .one input) ∈ data.fields)
      (hsides : RelationSides.ofField session.schema entity field = .ok sides)
      (hkind : sides.kind = .oneHasOneInverse)
      (hoperation : RelatedRow.toOneStep ⟨sides, key⟩ input = .ok (.run operation)) :
      Attends session entity key data sides operation

/-- On the trace of the update of the row with the key, its own statement was sent. -/
def SendsUpdate (session : Session) (rows : RowAnswers) (entity : Entity) (which : UniqueWhere)
    (data : Data) (key : Value) (trace : List (Program.Exchange Effect)) (statement : Sql.Update) :
    Prop :=
  ∃ looking before row reply after,
    (session.selectField entity which entity.primary).run.Reaches looking
      (.done (.ok (some key))) ∧
    (session.ownUpdate rows entity key data).run.Reaches before (.done (.ok (row, statement))) ∧
    statement.values ≠ [] ∧
    trace = looking ++ before ++ ⟨.execute (.update statement), reply⟩ :: after

variable {sides : RelationSides} {operation : Action Rows (List Result)} {key : Value}

/-- A to-many relation accepts all items or none. -/
lemma accepts_of_toManyOperation {row : RelatedRow} {index : Nat} {item : ToManyItem}
    (h : row.toManyOperation index item = .ok operation) :
    operation.run.Asks row.GoesBy ∧
      ∀ other given, ∃ accepted, row.toManyOperation other given = .ok accepted := by
  rw [RelatedRow.toManyOperation] at h
  split at h
  · rename_i hkind
    obtain ⟨paired, hpair, h⟩ := Except.bind_eq_ok.mp h
    cases h
    exact ⟨RelatedRow.goesBy_underPath (RelatedRow.goesBy_itemOperation hpair _),
      fun other given => ⟨_, RelatedRow.toManyOperation_eq hkind hpair other given⟩⟩
  · rename_i hkind
    cases h
    exact ⟨RelatedRow.goesBy_underPath (RelatedRow.goesBy_junctionOperation (.inl hkind) _),
      fun other given => ⟨_, RelatedRow.toManyOperation_eq_junction other given (.inl hkind)⟩⟩
  · rename_i hkind
    cases h
    exact ⟨RelatedRow.goesBy_underPath (RelatedRow.goesBy_junctionOperation (.inr hkind) _),
      fun other given => ⟨_, RelatedRow.toManyOperation_eq_junction other given (.inr hkind)⟩⟩
  · cases h

lemma Attends.mem_operations
    (h : session.Attends entity key data sides operation) :
    operation ∈ data.fields.flatMap (updateOperations session.schema entity key) := by
  cases h with
  | item hfield hitem hsides hoperation =>
    exact mem_updateOperations_of_item hfield hsides (accepts_of_toManyOperation hoperation).2 hitem
      hoperation
  | inverse hfield hsides hkind hoperation =>
    exact mem_updateOperations_of_input hfield hsides hoperation

lemma Attends.goesBy (h : session.Attends entity key data sides operation) :
    operation.run.Asks (RelatedRow.GoesBy ⟨sides, key⟩) := by
  cases h with
  | item hfield hitem hsides hoperation => exact (accepts_of_toManyOperation hoperation).1
  | inverse hfield hsides hkind hoperation =>
    rw [RelatedRow.toOneStep] at hoperation
    simp only [hkind] at hoperation
    obtain ⟨paired, hpair, hoperation⟩ := Except.bind_eq_ok.mp hoperation
    cases hoperation
    exact RelatedRow.goesBy_underPath (RelatedRow.goesBy_inverseOperation hpair _)

lemma Beside.operations_eq {operations : List (Action Rows (List Result))}
    (h : session.Beside rows (.update entity which data) key operations trace) :
    operations = data.fields.flatMap (updateOperations session.schema entity key) := by
  cases h with
  | update hdata hfound hplanned hwriting => exact (planning_reaches_ok hplanned).2

/-- What an update reports first is its row, unless the statement failed or touched none. -/
lemma eq_of_reported {primary : Value} {own : Except Failure Updated}
    {related : Except Failure (List Result)} {results : List Result}
    (h : reported entity primary own related = .ok results)
    (hkey : updatedKey? results = some key) : key = primary := by
  obtain ⟨first, hfirst, h⟩ := Except.bind_eq_ok.mp h
  obtain ⟨others, -, h⟩ := Except.bind_eq_ok.mp h
  cases h
  cases own with
  | ok updated =>
    obtain rfl := Except.ok.inj hfirst
    unfold updateResults at hkey
    split at hkey
    · cases hkey
    · exact (Option.some.inj hkey).symm
  | error failure =>
    obtain ⟨head, hhead, rfl⟩ := classified_eq_ok hfirst
    rw [List.singleton_append, updatedKey?_eq_none (isOk_of_result? hhead)] at hkey
    cases hkey

/-- An update that reports its row ran what is beside the row of that key. -/
lemma exists_beside_of_updated {results : List Result}
    (hrun : (session.updateRow rows entity which data).run.Reaches trace (.done (.ok results)))
    (hkey : updatedKey? results = some key) :
    ∃ operations front rest, trace = front ++ rest ∧
      session.Beside rows (.update entity which data) key operations front := by
  cases hfilter : which.expand entity with
  | error e =>
    rw [updateRow, hfilter] at hrun
    obtain ⟨-, hdone⟩ := Program.done_reaches_iff.mp hrun
    obtain ⟨head, hhead, rfl⟩ := classified_eq_ok (Program.done.inj hdone).symm
    rw [updatedKey?_eq_none (isOk_of_result? hhead)] at hkey
    cases hkey
  | ok filter =>
    have hlooked := hrun
    rw [session.updateRow_eq rows entity hfilter] at hlooked
    obtain ⟨looking, found, rest, hfound, hrest, rfl⟩ := hlooked.of_run_bind_ok
    cases found with
    | none =>
      obtain ⟨-, hdone⟩ := Program.done_reaches_iff.mp hrest
      cases hdone
      cases hkey
    | some primary =>
      by_cases hdata : data.fields = []
      · dsimp only at hrest
        rw [if_pos (by rw [Data.isEmpty, hdata]; rfl)] at hrest
        obtain ⟨-, hdone⟩ := Program.done_reaches_iff.mp hrest
        cases hdone
        cases hkey
      have hupdate := (updateRow_reaches_iff_of_found hfound hdata).mp hrun
      have hplanning := hupdate
      rw [updateFound_eq] at hplanning
      obtain ⟨planned, ⟨values, operations, tree⟩, more, hplanned, -, rfl⟩ :=
        hplanning.of_run_bind_ok
      obtain ⟨writing, own, beside, related, hwriting, hbeside, rfl, hreported⟩ :=
        (updateFound_reaches_iff_of_planned hplanned).mp hupdate
      obtain rfl := eq_of_reported hreported.symm hkey
      exact ⟨operations, looking ++ (planned ++ writing), beside, by simp,
        .update hdata hfound hplanned hwriting⟩

/-- The key that an update reports is that of the row. Whatever the database and the access rules
answer, an update that reports its row reports the key that the look-up of the row found. The row
still has the key after the statement of the update, unless the statement assigns another one; and
each operation that the data ask for beside the row, on a has-many relation or on the inverse side
of a has-one relation, has its turn after the statement and goes by that key in every call. -/
theorem updated_key_identifies_row (session : Session) (depth : Nat) {entity : Entity}
    {which : UniqueWhere} {data : Data} {trace : List (Program.Exchange Effect)}
    {results : List Result} {key : Value}
    (hrun : (session.rows (depth + 1) (.update entity which data)).Reaches trace
      (.done (.ok results))) (hkey : updatedKey? results = some key) :
    (∀ statement,
      session.SendsUpdate (session.rows depth) entity which data key trace statement →
      (∀ value, (Sql.column entity.primaryColumn, .param value) ∈ statement.values →
        value = key) →
      ∀ row : Row, row.find? entity.primaryColumn = some key →
        ∃ next, Store.assigned? statement.table statement.values row = some next ∧
          next.find? entity.primaryColumn = some key) ∧
    ∃ operations front rest, trace = front ++ rest ∧
      session.Beside (session.rows depth) (.update entity which data) key operations front ∧
      ∀ sides operation, session.Attends entity key data sides operation →
        (∃ calls outcome, Turn (session.rows depth) operations operation rest calls outcome) ∧
        ∀ calls outcome, Turn (session.rows depth) operations operation rest calls outcome →
          ∀ call ∈ calls, RelatedRow.GoesBy ⟨sides, key⟩ call.request := by
  refine ⟨?_, ?_⟩
  · rintro statement ⟨looking, before, row, reply, after, -, hown, -, -⟩ hkeeps other hother
    obtain ⟨planned, ⟨values, operations, tree⟩, prepared, -, hprepared, rfl⟩ :=
      hown.of_run_bind_ok
    obtain ⟨-, columns, hcolumns, rfl⟩ := preparing_reaches_ok hprepared
    refine Store.exists_assigned (fun setting hmem => ?_) hkeeps hother
    obtain ⟨pair, -, column, -, rfl⟩ := (mem_columnValues_iff hcolumns).mp hmem
    exact ⟨column, pair.2, rfl⟩
  · obtain ⟨operations, front, rest, rfl, hbeside⟩ := exists_beside_of_updated hrun hkey
    refine ⟨operations, front, rest, rfl, hbeside, fun sides operation hattends => ⟨?_, ?_⟩⟩
    · have hmem := hattends.mem_operations
      rw [← hbeside.operations_eq] at hmem
      exact hbeside.stage.exists_turn hrun hmem
    · intro calls outcome hturn
      exact hattends.goesBy.of_reaches hturn.reaches

def reportsKey (key : Int64) (results : List Result) : Bool :=
  match updatedKey? results with
  | some (.int reported) => reported = key
  | _ => false

lemma updatedKey?_of_reportsKey {key : Int64} {results : List Result}
    (h : reportsKey key results = true) : updatedKey? results = some (.int key) := by
  unfold reportsKey at h
  split at h
  · rename_i reported hreported
    rw [hreported, of_decide_eq_true h]
  · cases h

def setsIdTo (key : Int64) : Sql.ColumnRef × Sql.Expr → Bool
  | (column, .param (.int value)) => column = Sql.column "id" && value = key
  | _ => false

/-- Whether an author was updated and got the key. -/
def rekeys (key : Int64) : Program.Exchange Effect → Bool
  | ⟨.execute (.update update), .ok count⟩ =>
    update.table = Sql.table "author" && update.values.any (setsIdTo key) && count = 1
  | _ => false

/-- Whether a run reports the author 7 and inserts a post that points at it, and has something else
to it. -/
def reportsAuthor (also : Program.Exchange Effect → Bool) (trace : List (Program.Exchange Effect)) :
    Except Failure (List Result) → Bool
  | .ok results => reportsKey 7 results &&
    (trace.any (fun exchange => postsFor 7 exchange.request) && trace.any also)
  | .error _ => false

/-- The author 7 is renamed and gets a post. The update reports the key 7, and the post points at
the author by it. -/
theorem updated_key_identifies_row_author :
    ∃ trace results,
      (blogSession.rows 3 (.update author (.single "id" (.int 7)) authorWithPost)).Reaches trace
        (.done (.ok results)) ∧
      updatedKey? results = some (.int 7) ∧
      (∃ exchange ∈ trace, postsFor 7 exchange.request = true) ∧
      (∀ statement, blogSession.SendsUpdate (blogSession.rows 2) author (.single "id" (.int 7))
          authorWithPost (.int 7) trace statement →
        (∀ value, (Sql.column author.primaryColumn, .param value) ∈ statement.values →
          value = .int 7) →
        ∀ row : Row, row.find? author.primaryColumn = some (.int 7) →
          ∃ next, Store.assigned? statement.table statement.values row = some next ∧
            next.find? author.primaryColumn = some (.int 7)) ∧
      ∃ operations front rest, trace = front ++ rest ∧
        blogSession.Beside (blogSession.rows 2)
          (.update author (.single "id" (.int 7)) authorWithPost) (.int 7) operations front ∧
        ∀ sides operation,
          blogSession.Attends author (.int 7) authorWithPost sides operation →
          (∃ calls outcome,
            Turn (blogSession.rows 2) operations operation rest calls outcome) ∧
          ∀ calls outcome, Turn (blogSession.rows 2) operations operation rest calls outcome →
            ∀ call ∈ calls, RelatedRow.GoesBy ⟨sides, .int 7⟩ call.request := by
  have htest : (Script.traced (blogSession.rows 3 (.update author (.single "id" (.int 7))
      authorWithPost)) postingWorld).any (fun outcome =>
        reportsAuthor (fun _ => true) outcome.1 outcome.2) = true := by decide +kernel
  obtain ⟨trace, failure | results, hrun, htest⟩ := Script.exists_of_traced htest
  · cases htest
  obtain ⟨hreports, htest⟩ := Bool.and_eq_true_iff.mp htest
  obtain ⟨hposts, -⟩ := Bool.and_eq_true_iff.mp htest
  have hreaches := Script.reaches_of_traced hrun
  have hkey := updatedKey?_of_reportsKey hreports
  exact ⟨trace, results, hreaches, hkey, List.any_eq_true.mp hposts,
    updated_key_identifies_row blogSession 2 hreaches hkey⟩

/-- An author that gets another key, with a post. -/
def rekeyedAuthor : Data :=
  ⟨[("id", .value (.int 8)),
    ("posts", .many [⟨none, .create ⟨[("title", .value (.string "Notes"))]⟩⟩])]⟩

/-- The author 7 gets the key 8. The update reports the key 7, and the post that it brings points
at that key, which no author has any more. -/
theorem updated_key_outdated :
    ∃ trace results,
      (blogSession.rows 3 (.update author (.single "id" (.int 7)) rekeyedAuthor)).Reaches trace
        (.done (.ok results)) ∧
      updatedKey? results = some (.int 7) ∧ (∃ exchange ∈ trace, rekeys 8 exchange = true) ∧
      ∃ exchange ∈ trace, postsFor 7 exchange.request = true := by
  have htest : (Script.traced (blogSession.rows 3 (.update author (.single "id" (.int 7))
      rekeyedAuthor)) postingWorld).any (fun outcome =>
        reportsAuthor (rekeys 8) outcome.1 outcome.2) = true := by decide +kernel
  obtain ⟨trace, failure | results, hrun, htest⟩ := Script.exists_of_traced htest
  · cases htest
  obtain ⟨hreports, htest⟩ := Bool.and_eq_true_iff.mp htest
  obtain ⟨hposts, hrekeys⟩ := Bool.and_eq_true_iff.mp htest
  exact ⟨trace, results, Script.reaches_of_traced hrun, updatedKey?_of_reportsKey hreports,
    List.any_eq_true.mp hrekeys, List.any_eq_true.mp hposts⟩

end Session

end Mutation

end EntityGraph
