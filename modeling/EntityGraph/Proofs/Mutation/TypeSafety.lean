import EntityGraph.Proofs.Mutation.Access
import EntityGraph.Proofs.Mutation.Batch
import EntityGraph.Proofs.Mutation.OpenTransaction
import EntityGraph.Proofs.Mutation.Typing
/-!
# Type safety

Mutations of a schema that was built never fail because of the schema: what the decoded input names
exists, and so does everything that is looked up on the way. An operation is refused only where
create data misplaces it.
-/
namespace EntityGraph

variable {schema : Schema} {entity : Entity} {filter : Filter} {which : UniqueWhere} {data : Data}

lemma UniqueWhere.Fits.everywhere_expand (h : which.Fits schema entity)
    (hexpand : which.expand entity = .ok filter) :
    Filter.Everywhere schema Filter.Fits entity filter := by
  unfold expand at hexpand
  split at hexpand
  · cases hexpand
    exact h.everywhere_toFilter
  · cases hexpand

/-- Access rules that restrict nothing. -/
def allowAll : Rules := fun _ _ _ predicate => predicate = .empty

/-- The access rules restrict nothing, and the database may answer anything. -/
def allowContract : Contract Effect (Program.Exchange Effect) :=
  .answering fun exchange => exchange.Obeys allowAll

namespace Mutation

variable {misplaced : Prop} {α : Type}

namespace Session

variable (session : Session)

/-! ### Statements -/

/-- The database answers a statement, and fails it with an error of its own. -/
lemma safe_sent (sent : ExceptT Database.Error (Program Effect) α)
    (hsent : sent.run.Meets allowContract fun _ _ => True) (text : String) :
    Safe allowContract misplaced (do session.logged text; sent.adapt Failure.database) := by
  have hadapted : Safe allowContract misplaced (sent.adapt Failure.database : Action Effect α) := by
    refine Program.meets_bind (hsent.mono fun log reply _ => ?_)
    cases reply <;> trivial
  rw [logged]
  split
  · exact hadapted
  · exact hadapted

lemma safe_query (query : Sql.Query) : Safe allowContract misplaced (session.query query) :=
  session.safe_sent (Effect.query query) ⟨trivial, fun _ _ _ => trivial⟩ _

lemma safe_execute (query : Sql.Query) : Safe allowContract misplaced (session.execute query) :=
  session.safe_sent (Effect.execute query) ⟨trivial, fun _ _ _ => trivial⟩ _

lemma safe_command (text : String) : Safe allowContract misplaced (session.command text) :=
  session.safe_sent (Effect.command text) ⟨trivial, fun _ _ _ => trivial⟩ text

section Statements

variable (hs : session.schema.WellFormed) (hentity : session.schema.Declares entity)
  (hfilter : Filter.Everywhere session.schema Filter.Fits entity filter)
include hs hentity hfilter

/-- A filter that fits has a condition. -/
lemma safe_permitted (operation : AccessOperation) (fields : List String) :
    Safe allowContract misplaced (session.permitted entity filter operation fields) := by
  refine ⟨trivial, fun log predicate hpredicate => ?_⟩
  obtain rfl : predicate = .empty := hpredicate
  obtain ⟨tree, htree⟩ := Filter.exists_tree hs hentity filter hfilter
  have hlifted : Safe allowContract misplaced (liftExcept
      (((filter.andWith .empty).toTree session.schema entity).mapError .schema)) := by
    rw [Filter.andWith_empty, htree]
    exact .liftExcept trivial
  exact hlifted

lemma safe_selectColumn {field column : String} (hcolumn : entity.columnName field = .ok column) :
    Safe allowContract misplaced (session.selectColumn entity filter field) := by
  refine (session.safe_permitted hs hentity hfilter .read [field]).bind fun tree => ?_
  rw [hcolumn]
  refine (session.safe_query _).bind fun set => ?_
  obtain ⟨columns, _ | ⟨row, others⟩, lastInsert⟩ := set
  · exact .pure trivial
  · exact Returns.bind (P := fun _ => True)
      (.liftExcept (.mapError (fun _ _ => trivial) fun _ _ => trivial)) fun value _ => .pure trivial

lemma safe_deleteBatch : Safe allowContract misplaced (session.deleteBatch entity filter) := by
  refine (session.safe_permitted hs hentity hfilter .delete []).bind fun tree => ?_
  refine (session.safe_query _).bind fun set => ?_
  exact .liftExcept (.mapError (fun _ _ => trivial) fun _ _ => trivial)

end Statements

/-! ### Rows that are looked up and deleted -/

lemma safe_selectField (hs : session.schema.WellFormed) (hentity : session.schema.Declares entity)
    (hwhich : which.Fits session.schema entity) {field column : String}
    (hcolumn : entity.columnName field = .ok column) :
    Safe allowContract misplaced (session.selectField entity which field) := by
  rw [selectField]
  cases hexpand : which.expand entity with
  | error e => exact .liftExcept trivial
  | ok filter =>
    exact session.safe_selectColumn hs hentity (hwhich.everywhere_expand hexpand) hcolumn

lemma safe_visitRelation (hs : session.schema.WellFormed)
    (hkeys : session.schema.KeysAreColumns) (hentity : session.schema.Declares entity)
    {cascade : Entity → List Value → Action Effect Unit}
    (hcascade : ∀ owner keys, session.schema.Declares owner →
      Safe allowContract misplaced (cascade owner keys)) (keys : List Value)
    {owner : Entity} {relation : Relation}
    (hmem : (owner, relation) ∈ session.schema.owningRelationsTo entity.name) :
    Safe allowContract misplaced (session.visitRelation cascade entity keys owner relation) := by
  obtain ⟨name, joining, howner, hrelation, hjoining, htarget⟩ :=
    mem_owningRelationsTo hs hentity hmem
  replace howner := hs.declares howner
  obtain ⟨column, hkey⟩ := hkeys.columnName hentity
  have hpointing : Filter.Everywhere session.schema Filter.Fits owner
      (pointingAt entity relation keys) :=
    (Filter.FieldsFit.relation hrelation htarget (Filter.FieldsFit.nil.condition hkey _).everywhere
      .nil).everywhere
  rw [visitRelation, hjoining]
  dsimp only
  cases joining.onDelete with
  | restrict => exact .pure trivial
  | cascade =>
    refine (session.safe_deleteBatch hs howner hpointing).bind fun deleted => ?_
    exact .ite (fun _ => .pure trivial) fun _ => hcascade owner deleted howner
  | setNull =>
    refine (session.safe_permitted hs howner hpointing .update [relation.name]).bind fun tree => ?_
    rw [Entity.columnName_of_relation hrelation hjoining]
    exact (session.safe_execute _).bind fun rows => .note _

lemma safe_cascade (hs : session.schema.WellFormed) (hkeys : session.schema.KeysAreColumns)
    (depth : Nat) (hentity : session.schema.Declares entity) (keys : List Value) :
    Safe allowContract misplaced (session.cascade depth entity keys) := by
  induction depth generalizing entity keys with
  | zero => exact ⟨trivial, fun _ reply => nomatch reply⟩
  | succ depth ih =>
    have hvisit : ∀ pair ∈ session.schema.owningRelationsTo entity.name,
        Safe allowContract misplaced
          (session.visitRelation (session.cascade depth) entity keys pair.1 pair.2) :=
      fun pair hmem => session.safe_visitRelation hs hkeys hentity
        (fun owner keys howner => ih howner keys) keys hmem
    rw [cascade]
    generalize session.schema.owningRelationsTo entity.name = owners at hvisit ⊢
    induction owners with
    | nil => exact .pure trivial
    | cons pair rest hrest =>
      obtain ⟨hpair, hothers⟩ := List.forall_mem_cons.mp hvisit
      exact hpair.bind fun _ => hrest hothers

lemma safe_deleteWhere (hs : session.schema.WellFormed) (hkeys : session.schema.KeysAreColumns)
    (depth : Nat) (hentity : session.schema.Declares entity)
    (hfilter : Filter.Everywhere session.schema Filter.Fits entity filter) :
    Safe allowContract misplaced (session.deleteWhere depth entity filter) := by
  have hcascade (deleted : List Value) : Safe allowContract misplaced (do
      session.cascade depth entity deleted
      if session.settings.deferConstraints then
        session.command checkConstraints
      return deleted) := by
    refine (session.safe_cascade hs hkeys depth hentity deleted).bind fun _ => ?_
    refine .ite (fun _ => ?_) fun _ => .pure trivial
    exact (session.safe_command checkConstraints).bind fun _ => .pure trivial
  have hbatch : Safe allowContract misplaced (do
      let deleted ← session.deleteBatch entity filter
      if deleted.isEmpty then
        throw .denied
      session.cascade depth entity deleted
      if session.settings.deferConstraints then
        session.command checkConstraints
      return deleted) := by
    refine (session.safe_deleteBatch hs hentity hfilter).bind fun deleted => ?_
    exact .ite (fun _ => trivial) fun _ => hcascade deleted
  rw [deleteWhere]
  exact .ite (fun _ => (session.safe_command deferConstraints).bind fun _ => hbatch) fun _ => hbatch

/-- A failure that may be a result is as expected in either case. -/
lemma safe_classified {failure : Failure} (h : Failure.Expected misplaced failure) :
    Safe allowContract misplaced (liftExcept failure.classified) :=
  (Returns.classified h fun _ _ _ _ => trivial).mono (fun _ _ => trivial) fun _ => And.left

lemma safe_deleteRow (hs : session.schema.WellFormed) (hkeys : session.schema.KeysAreColumns)
    (depth : Nat) (hentity : session.schema.Declares entity)
    (hwhich : which.Fits session.schema entity) :
    Safe allowContract misplaced (session.deleteRow depth entity which) := by
  rw [deleteRow]
  cases hexpand : which.expand entity with
  | error e => exact safe_classified trivial
  | ok filter =>
    refine (session.safe_deleteWhere hs hkeys depth hentity
      (hwhich.everywhere_expand hexpand)).attempt_bind fun outcome houtcome => ?_
    cases outcome with
    | ok deleted => exact .pure trivial
    | error failure => exact safe_classified houtcome

/-! ### Rows that are written -/

lemma exists_columnValues {values : Table Value}
    (h : ∀ pair ∈ values, ∃ column, entity.columnName pair.1 = .ok column) :
    ∃ columns, columnValues entity values = .ok columns := by
  induction values with
  | nil => exact ⟨_, rfl⟩
  | cons pair rest ih =>
    obtain ⟨⟨column, hcolumn⟩, hrest⟩ := List.forall_mem_cons.mp h
    obtain ⟨columns, hcolumns⟩ := ih hrest
    have hboth : columnValues entity (pair :: rest) =
        .ok ((Sql.column column, .param pair.2) :: columns) :=
      Except.bind_eq_ok.mpr ⟨column, hcolumn, Except.bind_eq_ok.mpr ⟨columns, hcolumns, rfl⟩⟩
    exact ⟨_, hboth⟩

/-- A row gets its key in a column that exists. -/
lemma placed_withKey (hkeys : schema.KeysAreColumns) (hentity : schema.Declares entity)
    {values : FieldValues Rows} (h : ∀ entry ∈ values, Placed schema misplaced entity entry) :
    Returns allowContract (fun keyed => ∀ entry ∈ keyed, Placed schema misplaced entity entry)
      (Failure.Expected misplaced) (withKey entity values) := by
  obtain ⟨column, hcolumn⟩ := hkeys _ _ hentity
  rw [withKey, hcolumn]
  refine .ite (fun _ => .pure h) fun _ => ?_
  have hfresh (id : Uuid) : Placed schema misplaced entity (entity.primary, .value (.uuid id)) :=
    ⟨hkeys.columnName hentity, trivial⟩
  have hkeyed : Returns allowContract
      (fun keyed => ∀ entry ∈ keyed, Placed schema misplaced entity entry)
      (Failure.Expected misplaced) (do
        if column.columnType = .uuid then
          let id ← ExceptT.lift Effect.freshUuid
          return values ++ [(entity.primary, .value (.uuid id))]
        else return values) := by
    refine .ite (fun _ => ⟨trivial, fun _ id _ => ?_⟩) fun _ => .pure h
    exact List.forall_mem_append.mpr ⟨h, List.forall_mem_singleton.mpr (hfresh id)⟩
  exact hkeyed

section Rows

variable {rows : RowAnswers}
  (hrows : ∀ request, (typedContract session.schema misplaced).Permits request →
    (rows request).Meets allowContract ((typedContract session.schema misplaced).Answers request))
include hrows

/-- The values of a row are resolved, and then have columns to go to. -/
lemma returns_resolved {values : FieldValues Rows}
    (h : ∀ entry ∈ values, Placed session.schema misplaced entity entry) :
    Returns allowContract (fun row =>
        row.Yields (typedContract session.schema misplaced) (fun _ => True)
          (Failure.Expected misplaced) ∧
        ∃ columns, columnValues entity row.values = .ok columns)
      (Failure.Expected misplaced) (answered rows values.resolve) := by
  have hresolve := FieldValues.returns_resolve (R := fun _ => True)
    (fun entry hmem => (h entry hmem).2) fun _ _ _ _ => trivial
  refine (hresolve.answered hrows).mono (fun row hrow => ⟨hrow.1, exists_columnValues ?_⟩)
    fun _ => And.left
  intro pair hpair
  obtain ⟨entry, hentry, hname⟩ := List.mem_map.mp (hrow.2 pair hpair)
  exact hname ▸ (h entry hentry).1

lemma safe_finish {row : RowValues Rows}
    (h : row.Yields (typedContract session.schema misplaced) (fun _ => True)
      (Failure.Expected misplaced)) :
    Safe allowContract misplaced (answered rows row.finish) :=
  ((RowValues.yields_finish h fun _ _ _ _ => trivial).answered hrows).mono (fun _ _ => trivial)
    fun _ => And.left

lemma safe_answered_collectAll {operations : List (Action Rows (List Result))}
    (h : ∀ operation ∈ operations, SafeOnRows session.schema misplaced operation) :
    Safe allowContract misplaced (answered rows (collectAll operations)) :=
  (Safe.collectAll h).answered hrows

lemma safe_insertValues {values : FieldValues Rows}
    (h : ∀ entry ∈ values, Placed session.schema misplaced entity entry) :
    Safe allowContract misplaced (session.insertValues rows entity values) := by
  refine (session.returns_resolved hrows h).bind fun row hrow => ?_
  obtain ⟨hyields, columns, hcolumns⟩ := hrow
  rw [hcolumns]
  refine (session.safe_query _).bind fun set => ?_
  exact (session.safe_finish hrows hyields).bind fun results => .pure trivial

lemma safe_updateValues {values : FieldValues Rows}
    (h : ∀ entry ∈ values, Placed session.schema misplaced entity entry)
    (tree : Sql.ConditionTree) :
    Safe allowContract misplaced (session.updateValues rows entity values tree) := by
  refine (session.returns_resolved hrows h).bind fun row hrow => ?_
  obtain ⟨hyields, columns, hcolumns⟩ := hrow
  have hfinish (count : Option Nat) : Safe allowContract misplaced (do
      let results ← answered rows row.finish
      return (⟨count, row.values, results⟩ : Updated)) :=
    (session.safe_finish hrows hyields).bind fun results => .pure trivial
  have hcount : Safe allowContract misplaced (some <$> session.execute
      (.update ⟨Sql.table entity.tableName, columns, some tree, []⟩)) :=
    (session.safe_execute _).bind fun count => .pure trivial
  rw [hcolumns]
  exact Returns.ite (fun _ => hfinish none) fun _ => hcount.bind hfinish

variable (hs : session.schema.WellFormed) (hkeys : session.schema.KeysAreColumns)
  (hentity : session.schema.Declares entity)
include hs hkeys hentity

lemma safe_insertRow (hdata : data.Typed session.schema misplaced entity true) :
    Safe allowContract misplaced (session.insertRow rows entity data) := by
  refine Returns.bind (.liftExcept (typed_planInsert hs hkeys hentity hdata))
    fun plan hplan => ?_
  obtain ⟨values, pending⟩ := plan
  refine (placed_withKey hkeys hentity hplan.1).bind fun keyed hkeyed => ?_
  refine (session.safe_insertValues hrows hkeyed).attempt_bind fun outcome houtcome => ?_
  obtain failure | ⟨_ | primary, inserted, results⟩ := outcome
  · exact safe_classified houtcome
  · exact .pure trivial
  · refine Returns.bind (.liftExcept (typed_afterInsert hkeys hplan.2))
      fun operations hoperations => ?_
    exact (session.safe_answered_collectAll hrows hoperations).bind fun related => .pure trivial

lemma safe_updateFound (hdata : data.Typed session.schema misplaced entity false)
    (primary : Value) :
    Safe allowContract misplaced (session.updateFound rows entity primary data) := by
  refine Returns.bind (.liftExcept (typed_planUpdate hs hkeys hentity hdata primary))
    fun plan hplan => ?_
  obtain ⟨values, operations⟩ := plan
  have hkey : Filter.Everywhere session.schema Filter.Fits entity
      (byPrimary entity primary).toFilter :=
    (fits_byPrimary hkeys hentity primary).everywhere_toFilter
  refine (session.safe_permitted hs hentity hkey .update values.names).bind fun tree => ?_
  refine (session.safe_updateValues hrows hplan.1 tree).attempt_bind fun own hown => ?_
  refine (session.safe_answered_collectAll hrows hplan.2).attempt_bind fun related hrelated => ?_
  have hlast (results : List Result) : Safe allowContract misplaced (do
      return results ++ (← liftExcept related)) :=
    Returns.bind (.liftExcept hrelated) fun _ _ => .pure trivial
  cases own with
  | ok updated => exact hlast _
  | error failure => exact (safe_classified hown).bind hlast

lemma safe_updateRow (hwhich : which.Fits session.schema entity)
    (hdata : data.Typed session.schema misplaced entity false) :
    Safe allowContract misplaced (session.updateRow rows entity which data) := by
  rw [updateRow]
  cases hexpand : which.expand entity with
  | error e => exact safe_classified trivial
  | ok filter =>
    obtain ⟨column, hcolumn⟩ := hkeys.columnName hentity
    refine (session.safe_selectColumn hs hentity (hwhich.everywhere_expand hexpand)
      hcolumn).bind fun found => ?_
    cases found with
    | none => exact .pure trivial
    | some primary =>
      exact .ite (fun _ => .pure trivial) fun _ =>
        session.safe_updateFound hrows hs hkeys hentity hdata primary

end Rows

/-- Many-to-many relations that own their links have a junction table. -/
lemma safe_junction {relation : Relation} (h : relation.kind = .manyHasManyOwning) (owner : Entity)
    {query : JoiningTable → Sql.Query} {results : Nat → List Result} :
    Safe allowContract misplaced (do
      let table ← liftExcept (junction owner relation)
      let rows ← session.execute (query table)
      return results rows) := by
  obtain ⟨table, htable⟩ := Option.isSome_iff_exists.mp
    (relation.joiningTable?_isSome.trans (decide_eq_true h))
  rw [junction, htable]
  exact (session.safe_execute _).bind fun rows => .pure trivial

/-- Operations on rows whose input fits fail only as expected, to any depth. -/
theorem meets_rows_typed (hs : session.schema.WellFormed) (hkeys : session.schema.KeysAreColumns)
    (depth : Nat) (request : RowRequest)
    (hrequest : (typedContract session.schema misplaced).Permits request) :
    (session.rows depth request).Meets allowContract
      ((typedContract session.schema misplaced).Answers request) := by
  induction depth generalizing request with
  | zero => cases request <;> exact ⟨trivial, fun _ reply => nomatch reply⟩
  | succ depth ih =>
    cases request with
    | insert entity data => exact session.safe_insertRow ih hs hkeys hrequest.1 hrequest.2
    | update entity which data =>
      obtain ⟨hentity, hwhich, hdata⟩ := hrequest
      exact session.safe_updateRow ih hs hkeys hentity hwhich hdata
    | delete entity which => exact session.safe_deleteRow hs hkeys depth hrequest.1 hrequest.2
    | selectField entity which field =>
      obtain ⟨hentity, hwhich, column, hcolumn⟩ := hrequest
      exact session.safe_selectField hs hentity hwhich hcolumn
    | primaryValue entity which =>
      obtain ⟨column, hcolumn⟩ := hkeys.columnName hrequest.1
      exact session.safe_selectField hs hrequest.1 hrequest.2 hcolumn
    | connect owner relation ownerKey inversedKey => exact session.safe_junction hrequest owner
    | disconnect owner relation ownerKey inversedKey => exact session.safe_junction hrequest owner

/-! ### Calls -/

end Session

/-- Whether some create data of a call asks a relation for something else than `connect` and
`create`. -/
def Call.Misplaces (schema : Schema) : Call → Prop
  | create name json => ∃ entity data, schema.entity name = .ok entity ∧
      Data.ofJson schema entity json = .ok data ∧ data.Misplaces true
  | update name _ json => ∃ entity data, schema.entity name = .ok entity ∧
      Data.ofJson schema entity json = .ok data ∧ data.Misplaces false
  | delete .. => False

namespace Session

variable (session : Session) {call : Call} {operation : Action Effect (List Result)}

/-- What is decoded fits, and asks for an operation on rows that does as well. -/
lemma safe_decode (hs : session.schema.WellFormed) (hkeys : session.schema.KeysAreColumns)
    {depth : Nat} (h : session.decode depth call = .ok operation) :
    Safe allowContract (call.Misplaces session.schema) operation := by
  cases call with
  | create name json =>
    obtain ⟨entity, hentity, h⟩ := Except.bind_eq_ok.mp h
    obtain ⟨data, hdata, h⟩ := Except.bind_eq_ok.mp h
    cases h
    replace hentity := Except.eq_ok_of_mapError hentity
    replace hdata := Except.eq_ok_of_mapError hdata
    exact session.meets_rows_typed hs hkeys depth (.insert entity data)
      ⟨hs.declares hentity, Data.fits_ofJson hdata, fun hmisplaces =>
        ⟨entity, data, hentity, hdata, hmisplaces⟩⟩
  | update name key json =>
    obtain ⟨entity, hentity, h⟩ := Except.bind_eq_ok.mp h
    obtain ⟨which, hwhich, h⟩ := Except.bind_eq_ok.mp h
    obtain ⟨data, hdata, h⟩ := Except.bind_eq_ok.mp h
    cases h
    replace hentity := Except.eq_ok_of_mapError hentity
    replace hdata := Except.eq_ok_of_mapError hdata
    exact session.meets_rows_typed hs hkeys depth (.update entity which data)
      ⟨hs.declares hentity, UniqueWhere.fits_ofJson (Except.eq_ok_of_mapError hwhich),
        Data.fits_ofJson hdata, fun hmisplaces => ⟨entity, data, hentity, hdata, hmisplaces⟩⟩
  | delete name key =>
    obtain ⟨entity, hentity, h⟩ := Except.bind_eq_ok.mp h
    obtain ⟨which, hwhich, h⟩ := Except.bind_eq_ok.mp h
    cases h
    exact session.meets_rows_typed hs hkeys depth (.delete entity which)
      ⟨hs.declares (Except.eq_ok_of_mapError hentity),
        UniqueWhere.fits_ofJson (Except.eq_ok_of_mapError hwhich)⟩

/-- In a built schema whose keys are columns, under rules that restrict nothing and whatever the
database answers, a call on input that can be decoded never fails because of the schema; and it is
refused an operation only if its create data misplaces one. -/
theorem perform_type_safe {definitions : List (String × List EntityStep)}
    (hbuild : Schema.build definitions = .ok session.schema)
    (hkeys : session.schema.KeysAreColumns) (depth : Nat)
    (hdecode : session.decode depth call = .ok operation)
    {trace : List (Program.Exchange Effect)} {failure : Failure}
    (hrules : ∀ exchange ∈ trace, exchange.Obeys allowAll)
    (hrun : (session.perform depth call).run.Reaches trace (.done (.error failure))) :
    (∀ e, failure ≠ .schema e) ∧
      ((∃ entity relation kind operation place,
          failure = .unsupported entity relation kind operation place) →
        call.Misplaces session.schema) := by
  have hs := Schema.wellFormed_of_build hbuild
  suffices hexpected : Failure.Expected (call.Misplaces session.schema) failure by
    refine ⟨?_, ?_⟩
    · rintro e rfl
      exact hexpected
    · rintro ⟨entity, relation, kind, operation, place, rfl⟩
      exact hexpected
  rw [perform_eq, hdecode] at hrun
  obtain ⟨other, hstart, hfailure⟩ | ⟨opening, body, outcome, reply, -, hbody, hfailure, rfl⟩ :=
    (session.inTransaction_reaches_iff operation).mp hrun
  · cases hfailure
    obtain ⟨e, -, heq⟩ | ⟨e, -, heq⟩ | ⟨-, heq⟩ := start_reaches_iff.mp hstart
    · cases heq
      trivial
    · cases heq
      trivial
    · cases heq
  · have hobeys : ∀ exchange ∈ body, exchange.Obeys allowAll := fun exchange hmem =>
      hrules exchange (List.mem_append_left _ (List.mem_append_right _ hmem))
    have houtcome := (session.safe_decode hs hkeys hdecode).of_answers hobeys hbody
    cases outcome with
    | error own =>
      cases hfailure
      exact houtcome
    | ok results =>
      cases reply with
      | ok _ => cases hfailure
      | error e =>
        cases hfailure
        trivial

/-- The post with the key 1 gets a new author, who is asked to delete a post. -/
def deletingOnCreation : Call :=
  .update "Post" (.object [("id", .integer 1)]) (.object [("author", .object [("create",
    .object [("posts", .array [.object [("delete", .object [("id", .integer 1)])]])])])])

/-- A database that has the post, and gives the key 2 to the author. -/
def postWorld : Script.World :=
  { Script.World.empty with
    responses := [⟨"SELECT", false, .rows ⟨["id"], [[.int 1]], none⟩⟩,
      ⟨"INSERT", false, .rows ⟨["id"], [[.int 2]], none⟩⟩] }

def refusing : Option (List (Program.Exchange Effect) × Except Failure Response) :=
  let answers : (request : Effect.Request) → Script.World →
    Option (Effect.Reply request × Script.World) := Script.answer
  (perform ⟨Filter.blog, .standard⟩ 3 deletingOnCreation).run.trace? answers postWorld

/-- If the exchange is with the access rules, they restrict nothing. -/
def isUnrestricted : Program.Exchange Effect → Bool
  | ⟨.predicate .., (filter : Filter)⟩ => filter.isEmpty
  | _ => true

/-- Whether a run under rules that restrict nothing was refused an operation. -/
def isRefused : Option (List (Program.Exchange Effect) × Except Failure Response) → Bool
  | some (trace, .error (.unsupported ..)) => trace.all isUnrestricted
  | _ => false

lemma obeys_allowAll_of_isUnrestricted {exchange : Program.Exchange Effect}
    (h : isUnrestricted exchange = true) : exchange.Obeys allowAll := by
  obtain ⟨request, reply⟩ := exchange
  cases (request : EffectRequest) with
  | predicate entity operation fields => exact Filter.eq_empty_of_isEmpty h
  | _ => trivial

lemma exists_of_isRefused
    {outcome : Option (List (Program.Exchange Effect) × Except Failure Response)}
    (h : isRefused outcome = true) :
    ∃ trace entity relation kind operation place,
      outcome = some (trace, .error (.unsupported entity relation kind operation place)) ∧
        ∀ exchange ∈ trace, exchange.Obeys allowAll := by
  unfold isRefused at h
  split at h
  · exact ⟨_, _, _, _, _, _, rfl, fun exchange hmem =>
      obeys_allowAll_of_isUnrestricted (List.all_eq_true.mp h exchange hmem)⟩
  · cases h

lemma keysAreColumns_blog : Filter.blog.KeysAreColumns :=
  Schema.keysAreColumns_of_forall_mem (by decide +kernel)

/-- The author cannot delete a post before there is an author: the call is refused. -/
theorem perform_type_safe_deletingOnCreation :
    ∃ trace failure,
      ((perform ⟨Filter.blog, .standard⟩ 3 deletingOnCreation).run.Reaches trace
        (.done (.error failure))) ∧
      (∀ exchange ∈ trace, exchange.Obeys allowAll) ∧ (∀ e, failure ≠ .schema e) ∧
      deletingOnCreation.Misplaces Filter.blog := by
  have hdecode : (decode ⟨Filter.blog, .standard⟩ 3 deletingOnCreation).isOk = true := by
    decide +kernel
  have hrun : isRefused refusing = true := by decide +kernel
  cases hoperation : decode ⟨Filter.blog, .standard⟩ 3 deletingOnCreation with
  | error failure =>
    rw [hoperation] at hdecode
    cases hdecode
  | ok operation =>
    obtain ⟨trace, entity, relation, kind, asked, place, hrefusing, hrules⟩ :=
      exists_of_isRefused hrun
    have hreaches := Program.reaches_of_trace? hrefusing
    obtain ⟨hschema, hunsupported⟩ := perform_type_safe ⟨Filter.blog, .standard⟩
      Filter.build_blog keysAreColumns_blog 3 hoperation hrules hreaches
    exact ⟨trace, _, hreaches, hrules, hschema, hunsupported ⟨_, _, _, _, _, rfl⟩⟩

end Session

end Mutation

end EntityGraph
