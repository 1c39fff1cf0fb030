import EntityGraph.Proofs.Filter.Meaning
import EntityGraph.Proofs.Mutation.Commit
import EntityGraph.Proofs.Mutation.Guarding
import EntityGraph.Proofs.Mutation.Returning
/-!
# The result of the row itself

What an insertion or an update reports begins with the result of the row itself, at the root of the
input. Everything else was asked for by an input on a relation, and lies under the path of that
input; so no nested result is taken for the one of the row.
-/
namespace EntityGraph.Mutation

/-- The result of an input below the root. -/
def Nested (result : Result) : Prop := result.path ≠ []

/-- The result comes first and is at the root; all others are nested. -/
def IsHead (head : Result) (results : List Result) : Prop :=
  ∃ related, results = head :: related ∧ head.path = [] ∧ ∀ result ∈ related, Nested result

lemma IsHead.createdKey?_eq {head : Result} {results : List Result} {name : String}
    {primary : Value} {values : Table Value} (h : IsHead head results)
    (hcreated : head.outcome = .created name primary values) :
    createdKey? results = some primary := by
  obtain ⟨related, rfl, -, -⟩ := h
  obtain ⟨path, outcome⟩ := head
  cases hcreated
  rfl

section Below

variable {I : Interface} {path : Path}

/-- All results are nested, whatever the surroundings answer; failures are fatal. -/
abbrev Below (action : Action I (List Result)) : Prop :=
  Yields .any Nested (Fatally fun _ => True) action

abbrev FieldValue.Below (value : FieldValue I) : Prop :=
  value.Yields .any Nested (Fatally fun _ => True)

lemma nested_under (hpath : path ≠ []) (result : Result) : Nested (result.under path) := by
  simp [Nested, Result.under, hpath]

/-- Nothing is asked of an operation that runs under a path. -/
lemma below_underPath (hpath : path ≠ []) (operation : Action I (List Result)) :
    Below (underPath path operation) :=
  .underPath ((Returns.trivial operation).mono (fun _ _ result _ => nested_under hpath result)
    fun _ => id) fun _ result _ _ => nested_under hpath result

lemma FieldValue.below_deferUnderPath (hpath : path ≠ []) (resolve : Action I (Resolved I)) :
    (deferUnderPath path resolve).Below := by
  refine yields_deferUnderPath ((Returns.trivial resolve).mono (fun resolved _ => ?_) fun _ => id)
    fun _ result _ _ => nested_under hpath result
  refine ⟨fun result _ => nested_under hpath result, fun operation _ => ?_⟩
  exact (Returns.trivial operation).mono (fun _ _ result _ => nested_under hpath result) fun _ => id

/-- Siblings stay below the root, however the operations on rows are carried out. -/
lemma Returns.below_answered {α : Type} {P : α → Prop} {action : Action Rows α} (rows : RowAnswers)
    (h : Returns .any P (Fatally (Fatally fun _ => True)) action) :
    Returns .any P (Fatally fun _ => True) (Mutation.answered rows action) :=
  (h.answered fun request _ => Program.meets_answering (rows request)).mono (fun _ => id)
    fun _ => And.left

lemma below_answered_collectAll {operations : List (Action Rows (List Result))} (rows : RowAnswers)
    (h : ∀ operation ∈ operations, Below operation) :
    Below (answered rows (collectAll operations)) :=
  (Returns.collectAll h .of_fatally).below_answered rows

end Below

/-! ### Relation inputs -/

lemma RelationSides.path_ne_nil (sides : RelationSides) : sides.path ≠ [] := List.cons_ne_nil _ _

lemma RelationSides.itemPath_ne_nil (sides : RelationSides) (index : Nat) (label : Option String) :
    sides.itemPath index label ≠ [] := List.cons_ne_nil _ _

lemma RelationSides.relation_of_ofField {schema : Schema} {entity : Entity} {sides : RelationSides}
    {field : String} (h : RelationSides.ofField schema entity field = .ok sides) :
    sides.entity = entity ∧ entity.relation field = .ok sides.relation := by
  obtain ⟨relation, hrelation, hsides⟩ := Except.bind_eq_ok.mp (Except.eq_ok_of_mapError h)
  obtain ⟨target, -, hsides⟩ := Except.bind_eq_ok.mp hsides
  obtain ⟨paired, -, hsides⟩ := Except.bind_eq_ok.mp hsides
  cases hsides
  exact ⟨rfl, hrelation⟩

lemma satisfies_createColumn (sides : RelationSides) (input : ToOneInput) :
    Satisfies FieldValue.Below (fun _ => True) (createColumn sides input) := by
  unfold createColumn
  split
  · exact FieldValue.below_deferUnderPath sides.path_ne_nil _
  · exact FieldValue.below_deferUnderPath sides.path_ne_nil _
  · trivial

namespace RelatedRow

variable (row : RelatedRow)

lemma below_owningStep (input : ToOneInput) :
    (row.owningStep input).Satisfies FieldValue.Below Below := by
  have hpath := row.sides.path_ne_nil
  have hrefuse : (refuseNull row.sides.path).Satisfies FieldValue.Below Below :=
    below_underPath hpath _
  cases input with
  | connect which => exact FieldValue.below_deferUnderPath hpath _
  | create data => exact FieldValue.below_deferUnderPath hpath _
  | update data => exact below_underPath hpath _
  | upsert create update => exact FieldValue.below_deferUnderPath hpath _
  | delete =>
    rw [owningStep]
    split
    · exact FieldValue.below_deferUnderPath hpath _
    · exact hrefuse
  | disconnect =>
    rw [owningStep]
    split
    · trivial
    · exact hrefuse

lemma below_toOneStep (input : ToOneInput) :
    Satisfies (InputStep.Satisfies FieldValue.Below Below) (fun _ => True)
      (row.toOneStep input) := by
  rw [toOneStep]
  split
  · exact row.below_owningStep input
  · exact row.below_owningStep input
  · cases row.sides.pair with
    | ok paired => exact below_underPath row.sides.path_ne_nil _
    | error failure => trivial
  · trivial

lemma below_createToOne (input : ToOneInput) :
    Satisfies Below (fun _ => True) (row.createToOne input) := by
  unfold createToOne
  split
  · exact below_underPath row.sides.path_ne_nil _
  · cases row.sides.pair with
    | ok paired => exact below_underPath row.sides.path_ne_nil _
    | error failure => trivial
  · trivial

lemma below_toManyOperation (index : Nat) (item : ToManyItem) :
    Satisfies Below (fun _ => True) (row.toManyOperation index item) := by
  have hpath := row.sides.itemPath_ne_nil index item.label
  rw [toManyOperation]
  split
  · cases row.sides.pair with
    | ok paired => exact below_underPath hpath _
    | error failure => trivial
  · exact below_underPath hpath _
  · exact below_underPath hpath _
  · trivial

lemma below_toManyOperations (items : List ToManyItem) :
    Satisfies (fun operations => ∀ operation ∈ operations, Below operation) (fun _ => True)
      (row.toManyOperations items) :=
  satisfies_toManyFrom (fun item _ index => row.below_toManyOperation index item) 0

lemma below_createToMany (items : List ToManyItem) :
    Satisfies (fun operations => ∀ operation ∈ operations, Below operation) (fun _ => True)
      (row.createToMany items) := by
  rw [createToMany]
  split
  · trivial
  · exact row.below_toManyOperations items

end RelatedRow

lemma satisfies_true {α ε : Type} (outcome : Except ε α) :
    Satisfies (fun _ => True) (fun _ => True) outcome := by
  cases outcome <;> trivial

lemma below_planInsert (schema : Schema) (entity : Entity) (fields : List (String × FieldInput)) :
    Satisfies (fun plan => (∀ entry ∈ plan.1, entry.2.Below) ∧ ∀ waiting ∈ plan.2, True)
      (fun _ => True) (planInsert schema entity fields) := by
  refine satisfies_planInsert (fun _ _ _ => trivial) (fun field input _ => ?_) fun _ _ _ =>
    satisfies_true _
  refine (satisfies_true _).mono (fun sides _ => ?_) fun _ => id
  split
  · exact satisfies_createColumn sides input
  · trivial

lemma below_afterInsert (primary : Value) (pending : List Pending) :
    Satisfies (fun operations => ∀ operation ∈ operations, Below operation) (fun _ => True)
      (afterInsert primary pending) :=
  satisfies_afterInsert (fun sides input _ => RelatedRow.below_createToOne ⟨sides, primary⟩ input)
    fun sides items _ => RelatedRow.below_createToMany ⟨sides, primary⟩ items

lemma below_planUpdate (schema : Schema) (entity : Entity) (primary : Value)
    (fields : List (String × FieldInput)) :
    Satisfies (fun plan => (∀ entry ∈ plan.1, entry.2.Below) ∧
      ∀ operation ∈ plan.2, Below operation) (fun _ => True)
      (planUpdate schema entity primary fields) :=
  satisfies_planUpdate (fun _ _ _ => trivial)
    (fun _ input _ => (satisfies_true _).mono
      (fun sides _ => RelatedRow.below_toOneStep ⟨sides, primary⟩ input) fun _ => id)
    fun _ items _ => (satisfies_true _).mono
      (fun sides _ => RelatedRow.below_toManyOperations ⟨sides, primary⟩ items) fun _ => id

/-! ### Statements about the row itself -/

variable {trace : List (Program.Exchange Effect)}

/-- On the trace a statement that inserts a row was sent once it was prepared, with that answer. -/
def Sends (prepare : Action Effect (RowValues Rows × Sql.Insert))
    (trace : List (Program.Exchange Effect))
    (reply : Except Database.Error Database.ResultSet) : Prop :=
  ∃ before row statement after, prepare.run.Reaches before (.done (.ok (row, statement))) ∧
    trace = before ++ ⟨.query (.insert statement), reply⟩ :: after

section Sends

variable {α : Type} {prepare : Action Effect (RowValues Rows × Sql.Insert)}
  {reply other : Except Database.Error Database.ResultSet}

/-- A prepared statement has one place on a trace. -/
lemma Sends.unique (h : Sends prepare trace reply) (hother : Sends prepare trace other) :
    reply = other := by
  obtain ⟨before, row, statement, after, hrun, rfl⟩ := h
  obtain ⟨before', row', statement', after', hrun', heq⟩ := hother
  obtain ⟨rfl, hprepared⟩ := hrun.prefix_free hrun' heq
  cases hprepared
  cases List.append_cancel_left heq
  rfl

lemma Sends.append (h : Sends prepare trace reply) (more : List (Program.Exchange Effect)) :
    Sends prepare (trace ++ more) reply := by
  obtain ⟨before, row, statement, after, hrun, rfl⟩ := h
  exact ⟨before, row, statement, after ++ more, hrun, by simp⟩

/-- A statement whose preparation failed is not sent. -/
lemma not_sends {failure : Failure} (h : prepare.run.Reaches trace (.done (.error failure)))
    (more : List (Program.Exchange Effect)) : ¬ Sends prepare (trace ++ more) reply := by
  rintro ⟨before, row, statement, after, hrun, heq⟩
  obtain ⟨-, hcontra⟩ := h.prefix_free hrun heq
  cases hcontra

/-- What comes first in the preparation comes first on the trace. -/
lemma sends_bind_iff {first : Action Effect α} {a : α}
    {next : α → Action Effect (RowValues Rows × Sql.Insert)}
    {before : List (Program.Exchange Effect)} (h : first.run.Reaches before (.done (.ok a))) :
    Sends (first >>= next) (before ++ trace) reply ↔ Sends (next a) trace reply := by
  constructor
  · rintro ⟨preparing, row, statement, after, hrun, heq⟩
    obtain ⟨own, b, rest, hown, hnext, rfl⟩ := hrun.of_run_bind_ok
    rw [List.append_assoc] at heq
    obtain ⟨rfl, hab⟩ := h.prefix_free hown heq
    cases hab
    exact ⟨rest, row, statement, after, hnext, List.append_cancel_left heq⟩
  · rintro ⟨rest, row, statement, after, hnext, rfl⟩
    exact ⟨before ++ rest, row, statement, after,
      Program.run_bind_reaches_done_iff.mpr (.inr ⟨before, a, rest, h, hnext, rfl⟩), by simp⟩

end Sends

namespace Session

variable (session : Session) (rows : RowAnswers) (entity : Entity)

/-- What is resolved before a row is inserted, and the statement that inserts it. -/
def insertion (values : FieldValues Rows) : Action Effect (RowValues Rows × Sql.Insert) := do
  let row ← answered rows values.resolve
  let columns ← liftExcept ((columnValues entity row.values).mapError .schema)
  return (row, ⟨Sql.table entity.tableName, columns, false, [Sql.column entity.primaryColumn]⟩)

/-- An insertion up to the statement of its own row. -/
def ownInsertion (data : Data) : Action Effect (RowValues Rows × Sql.Insert) := do
  let (values, _) ← liftExcept (planInsert session.schema entity data.fields)
  let values ← withKey entity values
  insertion rows entity values

/-- On the trace the statement of the row itself was sent, with that answer. -/
def OwnInsert (data : Data) (trace : List (Program.Exchange Effect))
    (reply : Except Database.Error Database.ResultSet) : Prop :=
  Sends (session.ownInsertion rows entity data) trace reply

/-- On the trace the row was looked up by its unique where, with that answer. -/
def OwnLookup (which : UniqueWhere) (trace : List (Program.Exchange Effect))
    (set : Database.ResultSet) : Prop :=
  ∃ filter predicate tree column after,
    which.expand entity = .ok filter ∧
    (filter.andWith predicate).toTree session.schema entity = .ok tree ∧
    entity.columnName entity.primary = .ok column ∧
    trace = ⟨.predicate entity .read [entity.primary], predicate⟩ ::
      ⟨.query (.select { Filter.selection entity.tableName column tree with limit := some 1 }),
        .ok set⟩ :: after

lemma insertValues_eq (values : FieldValues Rows) :
    session.insertValues rows entity values = insertion rows entity values >>= fun prepared => do
      let set ← session.query (.insert prepared.2)
      let results ← answered rows prepared.1.finish
      return ⟨set.valueAt? 0 0, prepared.1.values, results⟩ := by
  simp only [insertValues, insertion, bind_assoc, pure_bind]

/-- A statement is sent once, and its answer is what it comes to. -/
lemma query_reaches_iff {query : Sql.Query} {outcome : Except Failure Database.ResultSet} :
    (session.query query).run.Reaches trace (.done outcome) ↔
      ∃ reply, trace = [⟨.query query, reply⟩] ∧ outcome = reply.mapError .database := by
  have hsent : ((Effect.query query).adapt Failure.database :
      Action Effect Database.ResultSet).run.Reaches trace (.done outcome) ↔
      ∃ reply, trace = [⟨.query query, reply⟩] ∧ outcome = reply.mapError .database := by
    refine Program.ask_reaches_done_iff.trans ⟨?_, ?_⟩
    · rintro ⟨reply, tail, htail, rfl⟩
      obtain ⟨rfl, hdone⟩ := Program.done_reaches_iff.mp htail
      exact ⟨reply, rfl, Program.done.inj hdone⟩
    · rintro ⟨reply, rfl, rfl⟩
      exact ⟨reply, [], .here _, rfl⟩
  rw [Session.query, logged]
  split
  · exact Program.note_reaches_done_iff.trans hsent
  · exact hsent

variable {session rows entity}

lemma below_withKey {values : FieldValues Rows} (h : ∀ entry ∈ values, entry.2.Below) :
    Returns .any (fun keyed => ∀ entry ∈ keyed, entry.2.Below) (fun _ => True)
      (withKey entity values) :=
  returns_withKey (fun _ => trivial) h

lemma nested_insertion {values : FieldValues Rows} (h : ∀ entry ∈ values, entry.2.Below) :
    Returns .any (fun prepared => prepared.1.Yields .any Nested (Fatally fun _ => True))
      (fun _ => True) (insertion rows entity values) := by
  have hresolve := (FieldValues.returns_resolve h .of_fatally).below_answered rows
  exact (hresolve.mono (fun _ hrow => hrow.1) fun _ _ => trivial).bind fun row hrow =>
    (Returns.trivial _).bind fun columns _ => .pure hrow

/-- The statement of the row itself is answered with the key, and only then its values can have
come to something; what fails afterwards is fatal. -/
lemma insertValues_reaches {values : FieldValues Rows} (hvalues : ∀ entry ∈ values, entry.2.Below)
    {outcome : Except Failure Inserted}
    (h : (session.insertValues rows entity values).run.Reaches trace (.done outcome)) :
    Satisfies (fun inserted => (∀ result ∈ inserted.results, Nested result) ∧
        ∃ set, Sends (insertion rows entity values) trace (.ok set) ∧
          inserted.primary = set.valueAt? 0 0)
      (fun failure => failure.outcome? = none ∨
        ∀ more set, ¬ Sends (insertion rows entity values) (trace ++ more) (.ok set)) outcome := by
  rw [insertValues_eq] at h
  obtain ⟨failure, hfailed, rfl⟩ | ⟨before, ⟨row, statement⟩, rest, hprepared, hrest, rfl⟩ :=
    Program.run_bind_reaches_done_iff.mp h
  · exact .inr fun more set => not_sends hfailed more
  have hrow := (nested_insertion hvalues).of_reaches hprepared
  obtain ⟨failure, hquery, rfl⟩ | ⟨sent, set, after, hquery, hafter, rfl⟩ :=
    Program.run_bind_reaches_done_iff.mp hrest
  · obtain ⟨reply, rfl, hreply⟩ := session.query_reaches_iff.mp hquery
    refine .inr fun more set hsends => ?_
    have hown : Sends (insertion rows entity values)
        (before ++ [⟨.query (.insert statement), reply⟩]) reply :=
      ⟨before, row, statement, [], hprepared, rfl⟩
    cases (hown.append more).unique hsends
    cases hreply
  · obtain ⟨reply, rfl, hreply⟩ := session.query_reaches_iff.mp hquery
    obtain rfl := Except.eq_ok_of_mapError hreply.symm
    have hfinish := (RowValues.yields_finish hrow .of_fatally).below_answered rows
    obtain ⟨failure, hfailed, rfl⟩ | ⟨finishing, results, rest, hfinished, hdone, rfl⟩ :=
      Program.run_bind_reaches_done_iff.mp hafter
    · exact .inl (hfinish.of_reaches hfailed).2
    · obtain ⟨rfl, hdone⟩ := Program.done_reaches_iff.mp hdone
      cases hdone
      exact ⟨hfinish.of_reaches hfinished, set,
        ⟨before, row, statement, finishing ++ [], hprepared, rfl⟩, rfl⟩

/-- A failure that is a result is the only one. -/
lemma isHead_of_classified {failure : Failure} {results : List Result}
    (h : failure.classified = .ok results) :
    ∃ head, IsHead head results ∧ failure.result? = some head := by
  obtain ⟨head, hhead, rfl⟩ := classified_eq_ok h
  refine ⟨head, ⟨[], rfl, ?_, fun _ hmem => absurd hmem List.not_mem_nil⟩, hhead⟩
  obtain ⟨outcome, -, rfl⟩ := Option.map_eq_some_iff.mp hhead
  rfl

/-- No failure tells of a row that was written. -/
lemma isOk_of_result? {failure : Failure} {head : Result} (h : failure.result? = some head) :
    head.isOk = false := by
  obtain ⟨outcome, houtcome, rfl⟩ := Option.map_eq_some_iff.mp h
  cases failure with
  | database e =>
    rw [Failure.outcome?_database] at houtcome
    obtain ⟨kind, -, rfl⟩ := Option.map_eq_some_iff.mp houtcome
    rfl
  | denied => cases houtcome; rfl
  | nonUniqueWhere e => cases houtcome; rfl
  | _ => cases houtcome

lemma createdKey?_eq_none {head : Result} (h : head.isOk = false) (related : List Result) :
    createdKey? (head :: related) = none := by
  obtain ⟨path, outcome⟩ := head
  cases outcome with
  | created => cases h
  | _ => rfl

lemma updatedKey?_eq_none {head : Result} (h : head.isOk = false) (related : List Result) :
    updatedKey? (head :: related) = none := by
  obtain ⟨path, outcome⟩ := head
  cases outcome with
  | updated => cases h
  | _ => rfl

/-- What is asked for once the row has its key is reported beside the row. -/
lemma isHead_created {primary : Value} {values : Table Value} {own : List Result}
    {pending : List Pending} (hown : ∀ result ∈ own, Nested result) :
    Returns .any (IsHead (.atRoot (.created entity.name primary values))) (fun _ => True) (do
      let operations ← liftExcept (afterInsert primary pending)
      let related ← answered rows (collectAll operations)
      return .atRoot (.created entity.name primary values) :: (own ++ related)) := by
  refine (Returns.liftExcept (below_afterInsert primary pending)).bind fun operations hbelow => ?_
  refine ((below_answered_collectAll rows hbelow).mono (fun _ => id) fun _ _ => trivial).bind
    fun related hrelated => .pure ?_
  exact ⟨own ++ related, rfl, rfl, List.forall_mem_append.mpr ⟨hown, hrelated⟩⟩

/-- How an insertion ends that reports results: its own statement decides on the first of them. -/
lemma insertRow_reaches_ok {data : Data} {results : List Result}
    (h : (session.insertRow rows entity data).run.Reaches trace (.done (.ok results))) :
    ∃ head, IsHead head results ∧
      ((createdKey? results = none ∧
        ∀ set, session.OwnInsert rows entity data trace (.ok set) → set.valueAt? 0 0 = none) ∨
      ∃ set primary values, session.OwnInsert rows entity data trace (.ok set) ∧
        set.valueAt? 0 0 = some primary ∧ head.outcome = .created entity.name primary values) := by
  rw [insertRow] at h
  have hplan := below_planInsert session.schema entity data.fields
  cases hplanned : planInsert session.schema entity data.fields with
  | error failure =>
    rw [hplanned] at h
    obtain ⟨-, hcontra⟩ := Program.done_reaches_iff.mp h
    cases hcontra
  | ok planned =>
    obtain ⟨values, pending⟩ := planned
    rw [hplanned] at h hplan
    obtain ⟨_, _, hcontra⟩ | ⟨keying, keyed, rest, hkeying, hrest, rfl⟩ :=
      Program.run_bind_reaches_done_iff.mp
        (show (withKey entity values >>= _).run.Reaches trace _ from h)
    · cases hcontra
    have hkeyed := (below_withKey hplan.1).of_reaches hkeying
    obtain ⟨writing, attempted, related, hattempt, hrelated, rfl⟩ := hrest.of_run_bind_ok
    obtain ⟨own, hown, heq⟩ := attempt_reaches_iff.mp hattempt
    cases heq
    have hsent := insertValues_reaches hkeyed hown
    have hinsert {reply : Except Database.Error Database.ResultSet} :
        session.OwnInsert rows entity data (keying ++ (writing ++ related)) reply ↔
          Sends (insertion rows entity keyed) (writing ++ related) reply := by
      rw [OwnInsert, ownInsertion, hplanned]
      exact sends_bind_iff hkeying
    simp only [hinsert]
    obtain failure | ⟨key, values, own⟩ := attempted
    · obtain ⟨rfl, hdone⟩ := Program.done_reaches_iff.mp hrelated
      obtain ⟨head, hhead, hresult⟩ := isHead_of_classified (Program.done.inj hdone).symm
      have hkey : createdKey? results = none := by
        obtain ⟨others, rfl, -, -⟩ := hhead
        exact createdKey?_eq_none (isOk_of_result? hresult) _
      refine ⟨head, hhead, .inl ⟨hkey, fun set hset => ?_⟩⟩
      obtain hfatal | hnone := hsent
      · rw [result?_eq_none_iff.mpr hfatal] at hresult
        cases hresult
      · exact absurd hset (hnone [] set)
    · obtain ⟨hnested, set, hset, hkey⟩ := hsent
      cases key with
      | none =>
        obtain ⟨rfl, hdone⟩ := Program.done_reaches_iff.mp hrelated
        cases hdone
        refine ⟨_, ⟨own, rfl, rfl, hnested⟩, .inl ⟨rfl, fun other hother => ?_⟩⟩
        cases (hset.append []).unique hother
        exact hkey.symm
      | some primary =>
        refine ⟨_, (isHead_created hnested).of_reaches hrelated, .inr ⟨set, primary, values,
          hset.append related, hkey.symm, rfl⟩⟩

/-! ### Updates -/

lemma nested_updateValues {values : FieldValues Rows} (h : ∀ entry ∈ values, entry.2.Below)
    (tree : Sql.ConditionTree) :
    Returns .any (fun updated => ∀ result ∈ updated.results, Nested result) (fun _ => True)
      (session.updateValues rows entity values tree) :=
  yields_updateValues (fun request _ => Program.meets_answering (rows request)) h session tree

/-- The results begin with one that tells of the row, found under its unique where. -/
def TellsOfRow (results : List Result) : Prop :=
  ∃ head, IsHead head results ∧ head.outcome.isNotFound = false

lemma TellsOfRow.append {results related : List Result} (h : TellsOfRow results)
    (hrelated : ∀ result ∈ related, Nested result) : TellsOfRow (results ++ related) := by
  obtain ⟨head, ⟨own, rfl, hroot, hown⟩, hfound⟩ := h
  exact ⟨head, ⟨own ++ related, rfl, hroot, List.forall_mem_append.mpr ⟨hown, hrelated⟩⟩, hfound⟩

lemma TellsOfRow.foundRow?_ne_none {results : List Result} (h : TellsOfRow results) :
    foundRow? results ≠ none := by
  obtain ⟨head, ⟨related, rfl, -, -⟩, hfound⟩ := h
  exact Session.foundRow?_ne_none hfound

lemma TellsOfRow.of_classified {failure : Failure} {results : List Result}
    (h : failure.classified = .ok results) : TellsOfRow results := by
  obtain ⟨head, hhead, hresult⟩ := isHead_of_classified h
  exact ⟨head, hhead, isNotFound_of_result? hresult⟩

lemma tellsOfRow_updateResults (entity : Entity) (primary : Value) {updated : Updated}
    (h : ∀ result ∈ updated.results, Nested result) :
    TellsOfRow (updateResults entity primary updated) := by
  unfold updateResults
  split
  · exact ⟨_, ⟨updated.results, rfl, rfl, h⟩, rfl⟩
  · exact ⟨_, ⟨updated.results, rfl, rfl, h⟩, rfl⟩

/-- A row that was found is reported, whatever became of it. -/
lemma tellsOfRow_updateFound (primary : Value) (data : Data) :
    Returns .any TellsOfRow (fun _ => True) (session.updateFound rows entity primary data) := by
  refine (Returns.liftExcept (below_planUpdate _ _ _ _)).bind fun plan hplan => ?_
  refine (Returns.trivial _).bind fun tree _ => ?_
  refine (nested_updateValues hplan.1 tree).attempt_bind fun own hown => ?_
  refine (below_answered_collectAll rows hplan.2).attempt_bind fun related hrelated => ?_
  have htogether {results : List Result} (hresults : TellsOfRow results) :
      Returns .any TellsOfRow (fun _ => True)
        (do return results ++ (← liftExcept related) : Action Effect (List Result)) := by
    cases related with
    | ok others => exact hresults.append hrelated
    | error failure => trivial
  cases own with
  | ok updated => exact htogether (tellsOfRow_updateResults entity primary hown)
  | error failure =>
    cases hclassified : failure.classified with
    | ok results =>
      have hreported := htogether (.of_classified hclassified)
      dsimp only
      rw [hclassified]
      exact hreported
    | error fatal =>
      dsimp only
      rw [hclassified]
      trivial

/-- So is one for which there are no data. -/
lemma tellsOfRow_found (primary : Value) (data : Data) :
    Returns .any TellsOfRow (fun _ => True)
      (if data.isEmpty then return [.atRoot (.idle .noData)]
        else session.updateFound rows entity primary data) := by
  refine .ite (fun _ => .pure ?_) fun _ => tellsOfRow_updateFound primary data
  exact ⟨_, ⟨[], rfl, rfl, fun _ hmem => absurd hmem List.not_mem_nil⟩, rfl⟩

/-! ### Look-ups -/

lemma permitted_reaches_ok {filter : Filter} {operation : AccessOperation} {fields : List String}
    {tree : Sql.ConditionTree}
    (h : (session.permitted entity filter operation fields).run.Reaches trace
      (.done (.ok tree))) :
    ∃ predicate, trace = [⟨.predicate entity operation fields, predicate⟩] ∧
      (filter.andWith predicate).toTree session.schema entity = .ok tree := by
  obtain ⟨predicate, tail, htail, rfl⟩ := Program.ask_reaches_done_iff.mp h
  obtain ⟨rfl, hdone⟩ := Program.done_reaches_iff.mp htail
  exact ⟨predicate, rfl, Except.eq_ok_of_mapError (Program.done.inj hdone).symm⟩

lemma liftExcept_bind_reaches_ok {α β : Type} {outcome : Except Failure α}
    {next : α → Action Effect β} {b : β}
    (h : (liftExcept outcome >>= next).run.Reaches trace (.done (.ok b))) :
    ∃ a, outcome = .ok a ∧ (next a).run.Reaches trace (.done (.ok b)) := by
  cases outcome with
  | ok a => exact ⟨a, rfl, h⟩
  | error failure =>
    obtain ⟨-, hcontra⟩ := Program.done_reaches_iff.mp h
    cases hcontra

/-- A row is looked up by one statement, and a value is found unless it is null. -/
lemma selectColumn_reaches_ok {filter : Filter} {field : String} {found : Option Value}
    (h : (session.selectColumn entity filter field).run.Reaches trace (.done (.ok found))) :
    ∃ predicate tree column set,
      (filter.andWith predicate).toTree session.schema entity = .ok tree ∧
      entity.columnName field = .ok column ∧
      trace = [⟨.predicate entity .read [field], predicate⟩,
        ⟨.query (.select { Filter.selection entity.tableName column tree with limit := some 1 }),
          .ok set⟩] ∧
      (found = none ↔ ∀ value ∈ set.valueAt? 0 0, value.isNull) := by
  obtain ⟨asking, tree, rest, hasking, hrest, rfl⟩ := h.of_run_bind_ok
  obtain ⟨predicate, rfl, htree⟩ := permitted_reaches_ok hasking
  obtain ⟨column, hcolumn, hrest⟩ := liftExcept_bind_reaches_ok hrest
  obtain ⟨sending, set, reading, hsending, hreading, rfl⟩ := hrest.of_run_bind_ok
  obtain ⟨reply, rfl, hreply⟩ := session.query_reaches_iff.mp hsending
  obtain rfl := Except.eq_ok_of_mapError hreply.symm
  obtain ⟨columns, _ | ⟨row, others⟩, affected⟩ := set
  · obtain ⟨rfl, hdone⟩ := Program.done_reaches_iff.mp hreading
    cases hdone
    refine ⟨predicate, tree, column, _, htree, Except.eq_ok_of_mapError hcolumn, rfl, ?_⟩
    simp [Database.ResultSet.valueAt?, Database.ResultSet.row?]
  · obtain ⟨value, hvalue, hdone⟩ := liftExcept_bind_reaches_ok hreading
    obtain ⟨rfl, hdone⟩ := Program.done_reaches_iff.mp hdone
    cases hdone
    refine ⟨predicate, tree, column, _, htree, Except.eq_ok_of_mapError hcolumn, rfl, ?_⟩
    have hfirst : row.head? = some value := by
      cases row with
      | nil => cases hvalue
      | cons first _ => exact congrArg some (Except.ok.inj (Except.eq_ok_of_mapError hvalue))
    simp [Database.ResultSet.valueAt?, Database.ResultSet.row?, ← List.head?_eq_getElem?, hfirst]

/-- The row of a unique where has one look-up on a trace. -/
lemma OwnLookup.unique {which : UniqueWhere} {set other : Database.ResultSet}
    (h : session.OwnLookup entity which trace set)
    (hother : session.OwnLookup entity which trace other) : set = other := by
  obtain ⟨filter, predicate, tree, column, after, -, -, -, rfl⟩ := h
  obtain ⟨filter', predicate', tree', column', after', -, -, -, heq⟩ := hother
  obtain ⟨-, hrest⟩ := List.cons.inj heq
  cases (List.cons.inj hrest).1
  rfl

/-- How an update ends that reports results: its look-up decides on the first of them. -/
lemma updateRow_reaches_ok {which : UniqueWhere} {data : Data} {results : List Result}
    (h : (session.updateRow rows entity which data).run.Reaches trace (.done (.ok results))) :
    (TellsOfRow results ∧ ∀ set, session.OwnLookup entity which trace set →
      ¬ ∀ value ∈ set.valueAt? 0 0, value.isNull) ∨
    results = missing which ∧ ∃ set, session.OwnLookup entity which trace set ∧
      ∀ value ∈ set.valueAt? 0 0, value.isNull := by
  rw [updateRow] at h
  cases hexpand : which.expand entity with
  | error e =>
    rw [hexpand] at h
    obtain ⟨-, hdone⟩ := Program.done_reaches_iff.mp h
    refine .inl ⟨.of_classified (Program.done.inj hdone).symm, ?_⟩
    rintro set ⟨filter, _, _, _, _, hfilter, -⟩
    rw [hexpand] at hfilter
    cases hfilter
  | ok filter =>
    rw [hexpand] at h
    obtain ⟨looking, found, rest, hlooking, hrest, rfl⟩ := h.of_run_bind_ok
    obtain ⟨predicate, tree, column, set, htree, hcolumn, rfl, hfound⟩ :=
      selectColumn_reaches_ok hlooking
    have hlookup : session.OwnLookup entity which _ set :=
      ⟨filter, predicate, tree, column, rest, hexpand, htree, hcolumn, rfl⟩
    cases found with
    | none =>
      obtain ⟨rfl, hdone⟩ := Program.done_reaches_iff.mp hrest
      cases hdone
      exact .inr ⟨rfl, set, hlookup, hfound.mp rfl⟩
    | some primary =>
      refine .inl ⟨(tellsOfRow_found primary data).of_reaches hrest, fun other hother hnull => ?_⟩
      cases hlookup.unique hother
      cases hfound.mpr hnull

/-- The first result of a write describes the row itself, whatever its data brings with it and
whatever the database answers; all others are nested. After an insertion it says that the row was
created, with that key, exactly when the statement of the row itself returned a row that begins with
the key. After an update it says that the row was not found exactly when the row was looked up by
its unique where and no key came back that is not null. -/
theorem first_result_describes_row (session : Session) (depth : Nat)
    (trace : List (Program.Exchange Effect)) (results : List Result) :
    (∀ entity data,
      (session.rows (depth + 1) (.insert entity data)).Reaches trace (.done (.ok results)) →
      ∃ head, IsHead head results ∧
        (∀ primary, createdKey? results = some primary ↔
          ∃ values, head.outcome = .created entity.name primary values) ∧
        ∀ primary, createdKey? results = some primary ↔
          ∃ set, session.OwnInsert (session.rows depth) entity data trace (.ok set) ∧
            set.valueAt? 0 0 = some primary) ∧
    ∀ entity which data,
      (session.rows (depth + 1) (.update entity which data)).Reaches trace (.done (.ok results)) →
      ∃ head, IsHead head results ∧
        (foundRow? results = none ↔ head.outcome = .notFound which) ∧
        (foundRow? results = none ↔ ∃ set, session.OwnLookup entity which trace set ∧
          ∀ value ∈ set.valueAt? 0 0, value.isNull) := by
  refine ⟨fun entity data hrun => ?_, fun entity which data hrun => ?_⟩
  · obtain ⟨head, hhead, ⟨hkey, hnone⟩ | ⟨set, key, values, hset, hvalue, hcreated⟩⟩ :=
      insertRow_reaches_ok hrun
    · refine ⟨head, hhead, fun primary => ⟨fun hcreated => ?_, fun ⟨values, hcreated⟩ => ?_⟩,
        fun primary => ⟨fun hcreated => ?_, fun ⟨set, hset, hvalue⟩ => ?_⟩⟩
      · rw [hkey] at hcreated
        cases hcreated
      · exact hhead.createdKey?_eq hcreated
      · rw [hkey] at hcreated
        cases hcreated
      · rw [hnone set hset] at hvalue
        cases hvalue
    · have hkey := hhead.createdKey?_eq hcreated
      refine ⟨head, hhead, fun primary => ⟨fun hother => ?_, fun ⟨values, hother⟩ => ?_⟩,
        fun primary => ⟨fun hother => ?_, fun ⟨other, hother, hfirst⟩ => ?_⟩⟩
      · cases hkey.symm.trans hother
        exact ⟨values, hcreated⟩
      · exact hhead.createdKey?_eq hother
      · cases hkey.symm.trans hother
        exact ⟨set, hset, hvalue⟩
      · cases hset.unique hother
        exact hkey.trans (hvalue.symm.trans hfirst)
  · obtain ⟨htells, hlookup⟩ | ⟨rfl, hmissed⟩ := updateRow_reaches_ok hrun
    · have hsome := htells.foundRow?_ne_none
      obtain ⟨head, hhead, hfound⟩ := htells
      refine ⟨head, hhead, ⟨fun hnone => absurd hnone hsome, fun hmissed => ?_⟩,
        ⟨fun hnone => absurd hnone hsome,
          fun ⟨set, hset, hnull⟩ => absurd hnull (hlookup set hset)⟩⟩
      rw [hmissed] at hfound
      cases hfound
    · exact ⟨_, ⟨[], rfl, rfl, fun _ hmem => absurd hmem List.not_mem_nil⟩,
        ⟨fun _ => rfl, fun _ => rfl⟩,
        ⟨fun _ => hmissed, fun _ => rfl⟩⟩

def blogSession : Session := ⟨Filter.blog, .standard⟩

def author : Entity := .ofSteps "Author" Filter.authorSteps

/-- An author with a post, which is created along with it. -/
def authorWithPost : Data :=
  ⟨[("name", .value (.string "Ada")),
    ("posts", .many [⟨none, .create ⟨[("title", .value (.string "Notes"))]⟩⟩])]⟩

/-- A database that gives the key 1 to the first row it inserts and the key 2 to the second. -/
def countingWorld : Script.World :=
  { Script.World.empty with
    responses := [⟨"INSERT", false, .rows ⟨["id"], [[.int 1]], none⟩⟩,
      ⟨"INSERT", false, .rows ⟨["id"], [[.int 2]], none⟩⟩] }

/-- Whether the row itself was created with the key 1. -/
def isCreated (results : List Result) : Bool :=
  match createdKey? results with
  | some (.int key) => key = 1
  | _ => false

lemma createdKey?_of_isCreated {results : List Result} (h : isCreated results = true) :
    createdKey? results = some (.int 1) := by
  unfold isCreated at h
  split at h
  · rename_i key hkey
    rw [hkey, of_decide_eq_true h]
  · cases h

/-- Whether the outcome is results of that number that pass the test. -/
def reports (count : Nat) (test : List Result → Bool) : Except Failure (List Result) → Bool
  | .ok results => results.length = count && test results
  | .error _ => false

/-- An author is created with a post, and its result tells of the key of its own; then an author is
updated that does not exist. -/
theorem first_result_describes_row_author :
    (∃ trace results set,
      (blogSession.rows 3 (.insert author authorWithPost)).Reaches trace (.done (.ok results)) ∧
      createdKey? results = some (.int 1) ∧ results.length = 2 ∧
      blogSession.OwnInsert (blogSession.rows 2) author authorWithPost trace (.ok set) ∧
      set.valueAt? 0 0 = some (.int 1)) ∧
    ∃ trace results set,
      (blogSession.rows 3 (.update author (.single "id" (.int 7)) authorWithPost)).Reaches trace
        (.done (.ok results)) ∧
      foundRow? results = none ∧
      blogSession.OwnLookup author (.single "id" (.int 7)) trace set ∧
      ∀ value ∈ set.valueAt? 0 0, value.isNull := by
  constructor
  · have htest : (Script.run (blogSession.rows 3 (.insert author authorWithPost)) countingWorld).any
        (fun outcome => reports 2 isCreated outcome.1) = true := by decide +kernel
    obtain ⟨trace, failure | results, hrun, htest⟩ := Program.exists_reaches_of_run htest
    · cases htest
    obtain ⟨hlength, hcreated⟩ := Bool.and_eq_true_iff.mp htest
    have hone := createdKey?_of_isCreated hcreated
    obtain ⟨head, -, -, hkey⟩ :=
      (first_result_describes_row blogSession 2 trace results).1 author authorWithPost hrun
    obtain ⟨set, hset, hvalue⟩ := (hkey (.int 1)).mp hone
    exact ⟨trace, results, set, hrun, hone, of_decide_eq_true hlength, hset, hvalue⟩
  · have htest : (Script.run (blogSession.rows 3 (.update author (.single "id" (.int 7))
        authorWithPost)) countingWorld).any
        (fun outcome => reports 1 (fun results => (foundRow? results).isNone) outcome.1) =
          true := by decide +kernel
    obtain ⟨trace, failure | results, hrun, htest⟩ := Program.exists_reaches_of_run htest
    · cases htest
    have hnone := Option.isNone_iff_eq_none.mp (Bool.and_eq_true_iff.mp htest).2
    obtain ⟨head, -, -, hmissed⟩ :=
      (first_result_describes_row blogSession 2 trace results).2 author (.single "id" (.int 7))
        authorWithPost hrun
    obtain ⟨set, hset, hnull⟩ := hmissed.mp hnone
    exact ⟨trace, results, set, hrun, hnone, hset, hnull⟩

end Session

end EntityGraph.Mutation
