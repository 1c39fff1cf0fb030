import EntityGraph.Proofs.Mutation.RelatedRows
import EntityGraph.Proofs.Mutation.Statements
/-!
# Guarded statements

Every statement of an operation on rows is restricted by an answer of the access rules, is an
insertion, or is on a junction table; and the operation accounts for all of them. The operations
that one brings with it are carried out one level deeper, by the same functions.
-/
namespace EntityGraph

open Sql (ConditionTree)

/-- Access rules, as the answers that they may give. -/
abbrev Rules := Entity → AccessOperation → List String → Filter → Prop

/-- The condition of a filter together with an answer of the rules. -/
def Restricts (schema : Schema) (rules : Rules) (entity : Entity) (operation : AccessOperation)
    (fields : List String) (tree : ConditionTree) : Prop :=
  ∃ filter predicate : Filter, rules entity operation fields predicate ∧
    (filter.andWith predicate).toTree schema entity = .ok tree

/-- What may be asked of the surroundings under the rules. -/
inductive Guarded (schema : Schema) (rules : Rules) (known : Entity → Prop) : EffectRequest → Prop
  /-- The rules are asked about the column that is read. -/
  | read {entity : Entity} {field column : String} {tree : ConditionTree} (hknown : known entity)
      (hcolumn : entity.columnName field = .ok column)
      (htree : Restricts schema rules entity .read [field] tree) :
      Guarded schema rules known
        (.query (.select { Filter.selection entity.tableName column tree with limit := some 1 }))
  /-- The rules are asked about a field for each column that is written. -/
  | update {entity : Entity} {fields : List String} {values : List (Sql.ColumnRef × Sql.Expr)}
      {tree : ConditionTree} (hknown : known entity)
      (hvalues : ∀ value ∈ values, ∃ field ∈ fields, ∃ column,
        entity.columnName field = .ok column ∧ value.1 = Sql.column column)
      (htree : Restricts schema rules entity .update fields tree) :
      Guarded schema rules known
        (.execute (.update ⟨Sql.table entity.tableName, values, some tree, []⟩))
  | delete {entity : Entity} {tree : ConditionTree} {returning : List Sql.ColumnRef}
      (hknown : known entity) (htree : Restricts schema rules entity .delete [] tree) :
      Guarded schema rules known
        (.query (.delete ⟨Sql.table entity.tableName, some tree, returning⟩))
  | insert {entity : Entity} {values : List (Sql.ColumnRef × Sql.Expr)}
      {returning : List Sql.ColumnRef} (hknown : known entity) :
      Guarded schema rules known
        (.query (.insert ⟨Sql.table entity.tableName, values, false, returning⟩))
  | connect {owner : Entity} {relation : Relation} {junction : JoiningTable}
      {values : List (Sql.ColumnRef × Sql.Expr)} (hknown : known owner)
      (hrelation : relation ∈ owner.relations)
      (hjunction : relation.joiningTable? = some junction) :
      Guarded schema rules known
        (.execute (.insert ⟨Sql.table junction.tableName, values, true, []⟩))
  | disconnect {owner : Entity} {relation : Relation} {junction : JoiningTable}
      {tree : ConditionTree} (hknown : known owner) (hrelation : relation ∈ owner.relations)
      (hjunction : relation.joiningTable? = some junction) :
      Guarded schema rules known
        (.execute (.delete ⟨Sql.table junction.tableName, some tree, []⟩))
  | deferConstraints : Guarded schema rules known (.command Mutation.deferConstraints)
  | checkConstraints : Guarded schema rules known (.command Mutation.checkConstraints)
  | predicate (entity : Entity) (operation : AccessOperation) (fields : List String) :
      Guarded schema rules known (.predicate entity operation fields)
  | freshUuid : Guarded schema rules known .freshUuid
  | overrun : Guarded schema rules known .overrun

/-- Statements are logged with their answers, and the rules answer as they may. -/
def EffectRequest.Answers (rules : Rules) :
    (request : EffectRequest) → Mutation.Log → request.Reply → Prop
  | query sent, log, reply => log = [⟨.query sent, reply⟩]
  | execute sent, log, reply => log = [⟨.execute sent, reply⟩]
  | command text, log, reply => log = [⟨.command text, reply⟩]
  | predicate entity operation fields, log, reply =>
    log = [] ∧ rules entity operation fields reply
  | freshUuid, log, _ => log = []
  | overrun, _, _ => True

/-- The access rules give only answers that they may give. -/
def Program.Exchange.Obeys (rules : Rules) : Program.Exchange Effect → Prop
  | ⟨.predicate entity operation fields, filter⟩ => rules entity operation fields filter
  | _ => True

def effectContract (schema : Schema) (rules : Rules) (known : Entity → Prop) :
    Contract Effect (Program.Exchange Effect) :=
  ⟨Guarded schema rules known, EffectRequest.Answers rules⟩

namespace Mutation

variable {schema : Schema} {rules : Rules} {known : Entity → Prop} {α : Type}

/-- The statements of a run, with their answers. -/
def statements (trace : List (Program.Exchange Effect)) : Log :=
  trace.filter fun exchange => exchange.request.text?.isSome

lemma logs_of_obeys {trace : List (Program.Exchange Effect)}
    (h : ∀ exchange ∈ trace, exchange.Obeys rules) :
    Program.Logs (effectContract schema rules known) trace (statements trace) := by
  induction trace with
  | nil => exact .nil
  | cons exchange rest ih =>
    obtain ⟨hexchange, hrest⟩ := List.forall_mem_cons.mp h
    have hlog : statements (exchange :: rest) = statements [exchange] ++ statements rest :=
      List.filter_append [exchange] rest
    rw [hlog]
    refine .cons ?_ (ih hrest)
    obtain ⟨request, reply⟩ := exchange
    cases (request : EffectRequest) with
    | query sent => rfl
    | execute sent => rfl
    | command text => rfl
    | predicate entity operation fields => exact ⟨rfl, hexchange⟩
    | freshUuid => rfl
    | overrun => trivial

/-- A statement accounts for itself. Nothing is promised of what was told before, since a statement
may follow it. -/
lemma Reports.of_statement {exchange : Program.Exchange Effect} {reply : Except Database.Error α}
    (herror : ∀ e, exchange.error? = some e ↔ reply = .error e) {told : Set ConstraintKind}
    {tells : α → Set ConstraintKind} :
    Reports told tells [exchange] (reply.mapError .database) where
  fatal := by
    rintro ⟨_, hmem, e, he, hnone⟩
    obtain rfl := List.mem_singleton.mp hmem
    obtain rfl := (herror e).mp he
    exact fatal_error.mpr (by rw [Failure.outcome?_database, hnone]; rfl)
  isLocal := by
    rintro horderly failure hfailure hnone
    cases reply with
    | ok a => cases hfailure
    | error e =>
      cases hfailure
      rw [Failure.outcome?_database, Option.map_eq_none_iff] at hnone
      have he := (herror e).mpr rfl
      obtain hsmooth | ⟨kind, hviolates⟩ := horderly
      · rw [hsmooth exchange List.mem_cons_self] at he
        cases he
      · obtain ⟨other, hother, hkind⟩ := Log.violates_singleton.mp hviolates
        rw [he] at hother
        obtain rfl := Option.some.inj hother
        rw [hnone] at hkind
        cases hkind
  shows := by
    intro kind hviolates
    obtain ⟨e, he, hkind⟩ := Log.violates_singleton.mp hviolates
    obtain rfl := (herror e).mp he
    refine .inr ?_
    show (Failure.database e).outcome? = _
    rw [Failure.outcome?_database, hkind]
    rfl
  keeps := by
    rintro ⟨⟩

section Answered

variable {C : Contract Effect (Program.Exchange Effect)} {told : Set ConstraintKind}
  {tells : α → Set ConstraintKind} {P : α → Prop} {E : Failure → Prop} {action : Action Rows α}
  {rows : RowAnswers}

/-- Operations on rows that are carried out as the contract says take the place of requests. -/
lemma Ensures.answered (h : Ensures (rowContract known) told tells P E action)
    (hrows : ∀ request : RowRequest, request.Within known →
      (rows request).Meets C request.Answers) :
    Ensures C told tells P E (Mutation.answered rows action) := Program.Meets.interpret hrows h

lemma Accounts.answered (h : Accounts (rowContract known) told tells action)
    (hrows : ∀ request : RowRequest, request.Within known →
      (rows request).Meets C request.Answers) :
    Accounts C told tells (Mutation.answered rows action) := Program.Meets.interpret hrows h

end Answered

namespace Session

variable (session : Session) {told : Set ConstraintKind} {E : Failure → Prop}

/-! ### Statements -/

lemma settledButLookup_of_concludes {C : Contract Effect (Program.Exchange Effect)}
    {action : Action Effect (List Result)} (h : Concludes C ∅ action) :
    action.run.Meets C fun log result =>
      Reports ∅ violations log result ∧ SettledButLookup log result :=
  Program.Meets.mono h fun _ _ hresult =>
    ⟨hresult.1, fun failure hfailure => .inl (hresult.2.2 failure hfailure)⟩

/-- The rules answer, and the condition is restricted by the answer. -/
lemma ensures_permitted (entity : Entity) (filter : Filter) (operation : AccessOperation)
    (fields : List String) (hE : ∀ failure, failure.outcome? = none → E failure) :
    Ensures (effectContract session.schema rules known) told (fun _ => told)
      (Restricts session.schema rules entity operation fields) E
      (session.permitted entity filter operation fields) := by
  refine ⟨.predicate entity operation fields, ?_⟩
  rintro log predicate ⟨rfl, hrules⟩
  have htree : Ensures (effectContract session.schema rules known) told (fun _ => told)
      (Restricts session.schema rules entity operation fields) E
      (liftExcept
        (((filter.andWith predicate).toTree session.schema entity).mapError .schema)) := by
    rw [← bind_pure (liftExcept _)]
    refine .liftExcept_bind (.schema _) hE fun tree htree => .pure subset_rfl ?_
    exact ⟨filter, predicate, hrules, Except.eq_ok_of_mapError htree⟩
  exact htree

/-- A statement is sent once and accounts for itself, whether its text is reported or not. -/
lemma meets_sent {C : Contract Effect (Program.Exchange Effect)}
    (sent : ExceptT Database.Error (Program Effect) α)
    (exchange : Except Database.Error α → Program.Exchange Effect)
    (hsent : sent.run.Meets C fun log reply => log = [exchange reply])
    (herror : ∀ reply e, (exchange reply).error? = some e ↔ reply = .error e) (text : String)
    (told : Set ConstraintKind) (tells : α → Set ConstraintKind) :
    (do session.logged text; sent.adapt Failure.database : Action Effect α).run.Meets C
      fun log result => Reports told tells log result ∧ ∃ reply, log = [exchange reply] := by
  have hadapted : (sent.adapt Failure.database : Action Effect α).run.Meets C
      fun log result => Reports told tells log result ∧ ∃ reply, log = [exchange reply] := by
    refine Program.meets_bind (hsent.mono ?_)
    rintro _ reply rfl
    exact ⟨.of_statement (herror reply), reply, rfl⟩
  rw [logged]
  split
  · exact hadapted
  · exact hadapted

lemma meets_query {query : Sql.Query} (told : Set ConstraintKind)
    (tells : Database.ResultSet → Set ConstraintKind)
    (h : Guarded session.schema rules known (.query query)) :
    (session.query query).run.Meets (effectContract session.schema rules known) fun log result =>
      Reports told tells log result ∧ ∃ reply, log = [⟨.query query, reply⟩] := by
  refine session.meets_sent (Effect.query query) (fun reply => ⟨.query query, reply⟩)
    ⟨h, ?_⟩ (fun reply e => ?_) _ told tells
  · rintro _ reply rfl
    rfl
  · cases reply <;> simp [Program.Exchange.error?]

lemma accounts_query {query : Sql.Query} (tells : Database.ResultSet → Set ConstraintKind)
    (h : Guarded session.schema rules known (.query query)) :
    Accounts (effectContract session.schema rules known) told tells (session.query query) :=
  (session.meets_query told tells h).mono fun _ _ hresult => hresult.1

lemma meets_execute {query : Sql.Query} (told : Set ConstraintKind)
    (tells : Nat → Set ConstraintKind)
    (h : Guarded session.schema rules known (.execute query)) :
    (session.execute query).run.Meets (effectContract session.schema rules known) fun log result =>
      Reports told tells log result ∧ ∃ reply, log = [⟨.execute query, reply⟩] := by
  refine session.meets_sent (Effect.execute query) (fun reply => ⟨.execute query, reply⟩)
    ⟨h, ?_⟩ (fun reply e => ?_) _ told tells
  · rintro _ reply rfl
    rfl
  · cases reply <;> simp [Program.Exchange.error?]

lemma accounts_execute {query : Sql.Query} (tells : Nat → Set ConstraintKind)
    (h : Guarded session.schema rules known (.execute query)) :
    Accounts (effectContract session.schema rules known) told tells (session.execute query) :=
  (session.meets_execute told tells h).mono fun _ _ hresult => hresult.1

lemma accounts_command {text : String} (tells : Unit → Set ConstraintKind)
    (h : Guarded session.schema rules known (.command text)) :
    Accounts (effectContract session.schema rules known) told tells (session.command text) := by
  have hsent := session.meets_sent (Effect.command text) (fun reply => ⟨.command text, reply⟩)
    (C := effectContract session.schema rules known)
    ⟨h, ?_⟩ (fun reply e => ?_) text told tells
  · exact Program.Meets.mono hsent fun _ _ hresult => hresult.1
  · rintro _ reply rfl
    rfl
  · cases reply <;> simp [Program.Exchange.error?]

lemma refuses_columnValues (set : Database.ResultSet) (name : String) :
    Refuses ((set.columnValues name).mapError .database) := by
  refine .database fun e he => ?_
  unfold Database.ResultSet.columnValues at he
  split at he
  · cases he
  · cases he
    exact ⟨rfl, rfl⟩

lemma refuses_singleValue (row : List Value) :
    Refuses ((Database.singleValue row).mapError .database) := by
  refine .database fun e he => ?_
  cases row with
  | nil =>
    cases he
    exact ⟨rfl, rfl⟩
  | cons => cases he

/-- How a look-up accounts for its log. It fails with a result only if its statement failed. -/
structure LookedUp (log : Log) (result : Except Failure (Option Value)) : Prop where
  reports : Reports ∅ (fun _ => ∅) log result
  settled : SettledButLookup log result

/-- What is refused is not looked up. -/
lemma lookedUp_liftExcept_bind {C : Contract Effect (Program.Exchange Effect)}
    {outcome : Except Failure α} {next : α → Action Effect (Option Value)}
    (houtcome : Refuses outcome) (hnext : ∀ a, outcome = .ok a → (next a).run.Meets C LookedUp) :
    (liftExcept outcome >>= next).run.Meets C LookedUp := by
  cases outcome with
  | ok a => exact hnext a rfl
  | error failure =>
    obtain ⟨hlocal, hnone⟩ := houtcome failure rfl
    refine ⟨.of_error hlocal (.inl rfl), ?_⟩
    rintro _ ⟨⟩
    exact .inl hnone

lemma meets_selectColumn {entity : Entity} (hentity : known entity) (filter : Filter)
    (field : String) :
    (session.selectColumn entity filter field).run.Meets (effectContract session.schema rules known)
      LookedUp := by
  refine ⟨.predicate entity .read [field], ?_⟩
  rintro log predicate ⟨rfl, hrules⟩
  refine lookedUp_liftExcept_bind (.schema _) fun tree htree => ?_
  refine lookedUp_liftExcept_bind (.schema _) fun column hcolumn => ?_
  have hguarded : Guarded session.schema rules known (.query (.select
      { Filter.selection entity.tableName column tree with limit := some 1 })) :=
    .read hentity (Except.eq_ok_of_mapError hcolumn)
      ⟨filter, predicate, hrules, Except.eq_ok_of_mapError htree⟩
  refine Program.meets_run_bind ((session.meets_query ∅ (fun _ => ∅) hguarded).mono ?_)
  rintro log (failure | set) ⟨hreports, reply, hlog⟩
  · exact ⟨hreports.error, fun _ _ => .inr ⟨_, reply, hlog⟩⟩
  have hread {action : Action Effect (Option Value)}
      (h : Ensures (effectContract session.schema rules known) ∅ (fun _ => ∅) (fun _ => True)
        (fun failure => failure.outcome? = none) action) :
      action.run.Meets (effectContract session.schema rules known)
        fun more result => LookedUp (log ++ more) result :=
    Program.Meets.mono h fun more result hresult =>
      ⟨hreports.bind hresult.1, fun failure hfailure => .inl (hresult.2.2 failure hfailure)⟩
  obtain ⟨columns, _ | ⟨row, others⟩, lastInsert⟩ := set
  · exact hread (.pure subset_rfl trivial)
  · refine hread (.liftExcept_bind (refuses_singleValue row) (fun _ => id) fun value _ => ?_)
    exact .pure subset_rfl trivial

lemma accounts_selectField {entity : Entity} (hentity : known entity) (which : UniqueWhere)
    (field : String) :
    Accounts (effectContract session.schema rules known) ∅ (fun _ => ∅)
      (session.selectField entity which field) := by
  rw [selectField]
  cases which.expand entity with
  | error e => exact Reports.of_error rfl (.inl rfl)
  | ok filter =>
    exact Program.Meets.mono (session.meets_selectColumn hentity filter field)
      fun _ _ hresult => hresult.reports

/-! ### Deletions -/

lemma accounts_deleteBatch {entity : Entity} (hentity : known entity) (filter : Filter) :
    Accounts (effectContract session.schema rules known) ∅ (fun _ => ∅)
      (session.deleteBatch entity filter) := by
  refine (session.ensures_permitted entity filter .delete [] fun _ _ => trivial).bind_accounts
    fun tree htree => ?_
  refine (session.accounts_query (fun _ => ∅) (.delete hentity htree)).bind fun set => ?_
  exact .liftExcept (refuses_columnValues set _)

lemma accounts_clearReferences {entity : Entity} (hentity : known entity) (relation : Relation)
    (filter : Filter) :
    Accounts (effectContract session.schema rules known) ∅ (fun _ => ∅)
      (session.clearReferences entity relation filter) := by
  refine (session.ensures_permitted entity filter .update [relation.name] fun _ _ =>
    trivial).bind_accounts fun tree htree => ?_
  refine .liftExcept_bind (.schema _) fun column hcolumn => ?_
  refine (session.accounts_execute (fun _ => ∅) (.update hentity ?_ htree)).bind fun rows => .note _
  intro value hvalue
  obtain rfl := List.mem_singleton.mp hvalue
  exact ⟨relation.name, List.mem_singleton_self _, column, Except.eq_ok_of_mapError hcolumn, rfl⟩

lemma accounts_visitRelation {cascade : Entity → List Value → Action Effect Unit}
    (hcascade : ∀ entity primaries, known entity →
      Accounts (effectContract session.schema rules known) ∅ (fun _ => ∅)
        (cascade entity primaries)) (entity : Entity) (primaries : List Value)
    {owner : Entity} (howner : known owner) (relation : Relation) :
    Accounts (effectContract session.schema rules known) ∅ (fun _ => ∅)
      (session.visitRelation cascade entity primaries owner relation) := by
  rw [visitRelation]
  cases relation.joiningColumn? with
  | none => exact Reports.of_error rfl (.inl rfl)
  | some joining =>
    dsimp only
    cases joining.onDelete with
    | restrict => exact .pure subset_rfl
    | cascade =>
      refine (session.accounts_deleteBatch howner _).bind fun deleted => ?_
      exact .ite (.pure subset_rfl) (hcascade owner deleted howner)
    | setNull => exact session.accounts_clearReferences howner relation _

lemma accounts_cascade (hknown : ∀ pair ∈ session.schema.entities, known pair.2) (depth : Nat)
    (entity : Entity) (primaries : List Value) :
    Accounts (effectContract session.schema rules known) ∅ (fun _ => ∅)
      (session.cascade depth entity primaries) := by
  induction depth generalizing entity primaries with
  | zero => exact ⟨.overrun, fun _ reply => nomatch reply⟩
  | succ depth ih =>
    have howners : ∀ pair ∈ session.schema.owningRelationsTo entity.name, known pair.1 := by
      rintro ⟨owner, relation⟩ hmem
      obtain ⟨⟨name, own⟩, hown, hmem⟩ := List.mem_flatMap.mp hmem
      obtain ⟨_, -, heq⟩ := List.mem_map.mp hmem
      cases heq
      exact hknown _ hown
    rw [cascade]
    generalize session.schema.owningRelationsTo entity.name = owners at howners ⊢
    induction owners with
    | nil => exact .pure subset_rfl
    | cons pair rest hrest =>
      obtain ⟨owner, relation⟩ := pair
      obtain ⟨howner, hothers⟩ := List.forall_mem_cons.mp howners
      refine (session.accounts_visitRelation (fun own keys _ => ih own keys) entity primaries howner
        relation).bind fun _ => ?_
      exact hrest hothers

lemma accounts_deleteWhere (hknown : ∀ pair ∈ session.schema.entities, known pair.2) (depth : Nat)
    {entity : Entity} (hentity : known entity) (filter : Filter) :
    Accounts (effectContract session.schema rules known) ∅ (fun _ => ∅)
      (session.deleteWhere depth entity filter) := by
  have hcascade (deleted : List Value) :
      Accounts (effectContract session.schema rules known) ∅ (fun _ => ∅) (do
        session.cascade depth entity deleted
        if session.settings.deferConstraints then
          session.command checkConstraints
        return deleted) := by
    refine (session.accounts_cascade hknown depth entity deleted).bind fun _ => ?_
    refine .ite ?_ (.pure subset_rfl)
    exact (session.accounts_command (fun _ => ∅) .checkConstraints).bind fun _ => .pure subset_rfl
  have hbatch : Accounts (effectContract session.schema rules known) ∅ (fun _ => ∅) (do
      let deleted ← session.deleteBatch entity filter
      if deleted.isEmpty then
        throw .denied
      session.cascade depth entity deleted
      if session.settings.deferConstraints then
        session.command checkConstraints
      return deleted) := by
    refine (session.accounts_deleteBatch hentity filter).bind fun deleted => ?_
    exact .ite (Reports.of_error rfl (.inl rfl)) (hcascade deleted)
  rw [deleteWhere]
  exact .ite ((session.accounts_command (fun _ => ∅) .deferConstraints).bind fun _ => hbatch) hbatch

/-! ### Rows -/

lemma mem_columnValues {entity : Entity} {values : Table Value}
    {columns : List (Sql.ColumnRef × Sql.Expr)} (h : columnValues entity values = .ok columns) :
    ∀ value ∈ columns, ∃ pair ∈ values, ∃ column,
      entity.columnName pair.1 = .ok column ∧ value.1 = Sql.column column := by
  induction values generalizing columns with
  | nil =>
    cases h
    simp
  | cons pair rest ih =>
    obtain ⟨column, hcolumn, h⟩ := Except.bind_eq_ok.mp h
    obtain ⟨others, hothers, h⟩ := Except.bind_eq_ok.mp h
    cases h
    refine List.forall_mem_cons.mpr ⟨⟨pair, List.mem_cons_self, column, hcolumn, rfl⟩, ?_⟩
    intro value hvalue
    obtain ⟨other, hother, hname⟩ := ih hothers value hvalue
    exact ⟨other, List.mem_cons_of_mem _ hother, hname⟩

lemma ensures_withKey (hE : ∀ failure, failure.outcome? = none → E failure) (entity : Entity)
    {values : FieldValues Rows} (h : ∀ entry ∈ values, entry.2.Accounts (rowContract known)) :
    Ensures (effectContract schema rules known) told (fun _ => told)
      (fun keyed => ∀ entry ∈ keyed, entry.2.Accounts (rowContract known)) E
      (withKey entity values) := by
  rw [withKey]
  split
  · exact .pure subset_rfl h
  · refine .liftExcept_bind (.schema _) hE fun column _ => ?_
    split
    · refine ⟨.freshUuid, ?_⟩
      rintro log id rfl
      have hkeyed : Ensures (effectContract schema rules known) told (fun _ => told)
          (fun keyed => ∀ entry ∈ keyed, entry.2.Accounts (rowContract known)) E
          (pure (values ++ [(entity.primary, .value (.uuid id))])) :=
        .pure subset_rfl (List.forall_mem_append.mpr ⟨h, List.forall_mem_singleton.mpr trivial⟩)
      exact hkeyed
    · exact .pure subset_rfl h

section Rows

variable {rows : RowAnswers} (hrows : ∀ request : RowRequest, request.Within known →
  (rows request).Meets (effectContract session.schema rules known) request.Answers)
include hrows

lemma accounts_insertValues {entity : Entity} (hentity : known entity) {values : FieldValues Rows}
    (hvalues : ∀ entry ∈ values, entry.2.Accounts (rowContract known)) :
    Accounts (effectContract session.schema rules known) ∅
      (fun inserted => violations inserted.results)
      (session.insertValues rows entity values) := by
  refine ((FieldValues.ensures_resolve hvalues).answered hrows).bind_accounts fun row hrow => ?_
  refine .liftExcept_bind (.schema _) fun columns _ => ?_
  refine (session.accounts_query (fun _ => violations row.results) (.insert hentity)).bind
    fun set => ?_
  exact ((RowValues.accounts_finish hrow.2).answered hrows).bind fun results => .pure subset_rfl

lemma accounts_updateValues {entity : Entity} (hentity : known entity) {values : FieldValues Rows}
    (hvalues : ∀ entry ∈ values, entry.2.Accounts (rowContract known)) {tree : ConditionTree}
    (htree : Restricts session.schema rules entity .update values.names tree) :
    Accounts (effectContract session.schema rules known) ∅
      (fun updated => violations updated.results)
      (session.updateValues rows entity values tree) := by
  refine ((FieldValues.ensures_resolve hvalues).answered hrows).bind_accounts fun row hrow => ?_
  refine .liftExcept_bind (.schema _) fun columns hcolumns => ?_
  have hfinish (count : Option Nat) : Accounts (effectContract session.schema rules known)
      (violations row.results) (fun updated => violations updated.results) (do
        let results ← answered rows row.finish
        return (⟨count, row.values, results⟩ : Updated)) :=
    ((RowValues.accounts_finish hrow.2).answered hrows).bind fun results => .pure subset_rfl
  have hset : ∀ value ∈ columns, ∃ field ∈ values.names, ∃ column,
      entity.columnName field = .ok column ∧ value.1 = Sql.column column := by
    intro value hvalue
    obtain ⟨pair, hpair, hname⟩ :=
      mem_columnValues (Except.eq_ok_of_mapError hcolumns) value hvalue
    exact ⟨pair.1, hrow.1 pair hpair, hname⟩
  have hcount : Accounts (effectContract session.schema rules known) (violations row.results)
      (fun _ => violations row.results) (some <$> session.execute
        (.update ⟨Sql.table entity.tableName, columns, some tree, []⟩)) :=
    (session.accounts_execute (fun _ => violations row.results)
      (.update hentity hset htree)).bind fun count => .pure subset_rfl
  exact .ite (hfinish none) (hcount.bind hfinish)

/-- The rows that an insertion brings with it are told of beside its own result. -/
lemma concludes_insertRow (hknown : ∀ pair ∈ session.schema.entities, known pair.2)
    {entity : Entity} (hentity : known entity) (data : Data) :
    Concludes (effectContract session.schema rules known) ∅
      (session.insertRow rows entity data) := by
  rw [insertRow]
  refine .liftExcept_bind (refuses_planInsert _ _ _) (fun _ => id) fun planned hplan => ?_
  obtain ⟨values, pending⟩ := planned
  obtain ⟨hvalues, hpending⟩ := accounts_planInsert hknown hentity hplan
  refine (ensures_withKey (fun _ => id) entity hvalues).bind fun keyed hkeyed => ?_
  refine .attempt_bind (session.accounts_insertValues hrows hentity hkeyed) (fun _ => rfl)
    (fun _ _ _ => trivial) fun inserted => ?_
  obtain ⟨_ | primary, values, results⟩ := inserted
  · refine .pure ?_ trivial
    rw [violations_cons]
    exact Set.subset_union_right
  · refine .liftExcept_bind (refuses_afterInsert primary pending) (fun _ => id)
      fun operations hoperations => ?_
    have hrelated : Concludes (effectContract session.schema rules known) ∅
        (answered rows (collectAll operations)) :=
      Ensures.answered (concludes_collectAll (accounts_afterInsert hpending hoperations)) hrows
    refine hrelated.frame.bind fun related _ => .pure ?_ trivial
    rw [violations_cons, violations_append]
    exact Set.subset_union_right

omit hrows in
lemma isNotFound_of_result? {failure : Failure} {result : Result}
    (h : failure.result? = some result) : result.outcome.isNotFound = false := by
  obtain ⟨outcome, houtcome, rfl⟩ := Option.map_eq_some_iff.mp h
  show outcome.isNotFound = false
  cases failure with
  | database e =>
    rw [Failure.outcome?_database] at houtcome
    obtain ⟨kind, -, rfl⟩ := Option.map_eq_some_iff.mp houtcome
    rfl
  | denied => cases houtcome; rfl
  | nonUniqueWhere e => cases houtcome; rfl
  | _ => cases houtcome

omit hrows in
lemma foundRow?_ne_none {result : Result} {rest : List Result}
    (h : result.outcome.isNotFound = false) : foundRow? (result :: rest) ≠ none := by
  unfold foundRow?
  split
  · rename_i heq
    obtain ⟨rfl, -⟩ := List.cons.inj heq
    cases h
  · simp

omit hrows in
lemma violations_subset_updateResults (entity : Entity) (primary : Value) (updated : Updated) :
    violations updated.results ⊆ violations (updateResults entity primary updated) := by
  unfold updateResults
  split
  · rw [violations_cons]
    exact Set.subset_union_right
  · rw [violations_cons]
    exact Set.subset_union_right

/-- The row itself is written first; the operations that the data asks for run in any case. -/
lemma ensures_updateFound (hknown : ∀ pair ∈ session.schema.entities, known pair.2)
    {entity : Entity} (hentity : known entity) (primary : Value) (data : Data) :
    Ensures (effectContract session.schema rules known) ∅ violations
      (fun results => foundRow? results ≠ none) (fun failure => failure.outcome? = none)
      (session.updateFound rows entity primary data) := by
  rw [updateFound]
  refine .liftExcept_bind (refuses_planUpdate _ _ _ _) (fun _ => id) fun planned hplan => ?_
  obtain ⟨values, operations⟩ := planned
  obtain ⟨hvalues, hoperations⟩ := accounts_planUpdate hknown hentity hplan
  refine (session.ensures_permitted entity _ .update values.names fun _ => id).bind
    fun tree htree => ?_
  have hown := session.accounts_updateValues hrows hentity hvalues htree
  have hrelated : Concludes (effectContract session.schema rules known) ∅
      (answered rows (collectAll operations)) :=
    Ensures.answered (concludes_collectAll hoperations) hrows
  refine .attempt_both (updateResults entity primary) hown
    (violations_subset_updateResults entity primary) hrelated ?_ ?_
  · rintro (failure | updated) other
    · simp only [settledOutcome]
      cases failure.classified <;> cases other <;> rfl
    · cases other <;> rfl
  · rintro (failure | updated) found others hfound
    · obtain ⟨result, hresult, rfl⟩ := classified_eq_ok hfound
      exact foundRow?_ne_none (isNotFound_of_result? hresult)
    · cases hfound
      unfold updateResults
      split
      · exact foundRow?_ne_none rfl
      · exact foundRow?_ne_none rfl

/-- An update looks its row up first, and does nothing where it is missing. -/
lemma meets_updateRow (hknown : ∀ pair ∈ session.schema.entities, known pair.2) {entity : Entity}
    (hentity : known entity) (which : UniqueWhere) (data : Data) :
    (session.updateRow rows entity which data).run.Meets
      (effectContract session.schema rules known)
      (RowRequest.update entity which data).Answers := by
  have hdone {result : Result} (h : violations [result] = ∅) :
      Ensures (effectContract session.schema rules known) ∅ violations
        (fun results => foundRow? results = none → violations results = ∅)
        (fun failure => failure.outcome? = none) (pure [result]) :=
    .pure (Set.empty_subset _) fun _ => h
  rw [updateRow]
  cases which.expand entity with
  | error e =>
    have hnone : violations [.atRoot (.nonUniqueWhere (some e.message))] = ∅ := by
      simp [violations, Result.atRoot]
    exact Program.Meets.mono (hdone hnone) fun log result hresult =>
      ⟨hresult.1, fun failure hfailure => .inl (hresult.2.2 failure hfailure), hresult.2.1⟩
  | ok filter =>
    have hlookup : (session.selectColumn entity filter entity.primary).run.Meets
        (effectContract session.schema rules known) LookedUp :=
      session.meets_selectColumn hentity filter entity.primary
    refine Program.meets_run_bind (hlookup.mono ?_)
    rintro log (failure | found) hlooked
    · refine ⟨hlooked.reports.error, ?_, ?_⟩
      · rintro _ ⟨⟩
        exact hlooked.settled failure rfl
      · rintro _ ⟨⟩
    · have hrest {action : Action Effect (List Result)}
          (h : Ensures (effectContract session.schema rules known) ∅ violations
            (fun results => foundRow? results = none → violations results = ∅)
            (fun failure => failure.outcome? = none) action) :
          action.run.Meets (effectContract session.schema rules known) fun more result =>
            (RowRequest.update entity which data).Answers (log ++ more) result :=
        Program.Meets.mono h fun more result hresult =>
          ⟨hlooked.reports.bind hresult.1, fun failure hfailure =>
            .inl (hresult.2.2 failure hfailure), hresult.2.1⟩
      cases found with
      | none => exact hrest (hdone (by simp [violations, Result.atRoot]))
      | some primary =>
        dsimp only
        split
        · exact hrest (hdone (by simp [violations, Result.atRoot]))
        · have hfound := session.ensures_updateFound hrows hknown hentity primary data
          refine hrest (Program.Meets.mono hfound fun more result hresult =>
            ⟨hresult.1, fun results hresults hmissed => ?_, hresult.2.2⟩)
          exact absurd hmissed (hresult.2.1 results hresults)

omit hrows in
lemma concludes_deleteRow (hknown : ∀ pair ∈ session.schema.entities, known pair.2) (depth : Nat)
    {entity : Entity} (hentity : known entity) (which : UniqueWhere) :
    Concludes (effectContract session.schema rules known) ∅
      (session.deleteRow depth entity which) := by
  rw [deleteRow]
  cases which.expand entity with
  | error e => exact .pure (Set.empty_subset _) trivial
  | ok filter =>
    exact .attempt_bind (session.accounts_deleteWhere hknown depth hentity filter) (fun _ => rfl)
      (fun _ _ _ => trivial) fun deleted => .pure (Set.empty_subset _) trivial

end Rows

lemma refuses_junction (owner : Entity) (relation : Relation) :
    Refuses (junction owner relation) := by
  rw [junction]
  split
  · exact .ok
  · rintro _ ⟨⟩
    exact ⟨rfl, rfl⟩

lemma joiningTable?_of_junction {owner : Entity} {relation : Relation} {table : JoiningTable}
    (h : junction owner relation = .ok table) : relation.joiningTable? = some table := by
  rw [junction] at h
  split at h
  · rename_i htable
    cases h
    exact htable
  · cases h

/-- A statement on a junction table, once the table is known. -/
lemma writes_junction {owner : Entity} {relation : Relation} {query : JoiningTable → Sql.Query}
    {results : Nat → List Result}
    (h : ∀ table, relation.joiningTable? = some table →
      Guarded session.schema rules known (.execute (query table))) :
    Writes (effectContract session.schema rules known) (do
      let table ← liftExcept (junction owner relation)
      let rows ← session.execute (query table)
      return results rows) := by
  refine .liftExcept_bind (refuses_junction owner relation) fun table htable => ?_
  have hguarded := h table (joiningTable?_of_junction htable)
  refine Program.meets_run_bind ((session.meets_execute ∅ (fun _ => ∅) hguarded).mono ?_)
  rintro log (failure | rows) ⟨hreports, reply, rfl⟩
  · exact ⟨hreports.error, by rintro ⟨⟩⟩
  · exact ⟨hreports.bind (.of_ok (Set.empty_subset _)), by rintro ⟨⟩⟩

lemma writes_connect {owner : Entity} (howner : known owner) {relation : Relation}
    (hrelation : relation ∈ owner.relations) (ownerKey inversedKey : Value) :
    Writes (effectContract session.schema rules known)
      (session.connect owner relation ownerKey inversedKey) :=
  session.writes_junction fun _ htable => .connect howner hrelation htable

lemma writes_disconnect {owner : Entity} (howner : known owner) {relation : Relation}
    (hrelation : relation ∈ owner.relations) (ownerKey inversedKey : Value) :
    Writes (effectContract session.schema rules known)
      (session.disconnect owner relation ownerKey inversedKey) :=
  session.writes_junction fun _ htable => .disconnect howner hrelation htable

/-- Operations on rows, carried out to any depth, are guarded and account for their statements. -/
theorem meets_rows (hknown : ∀ pair ∈ session.schema.entities, known pair.2) (depth : Nat)
    (request : RowRequest) (hrequest : request.Within known) :
    (session.rows depth request).Meets (effectContract session.schema rules known)
      request.Answers := by
  induction depth generalizing request with
  | zero => cases request <;> exact ⟨.overrun, fun _ reply => nomatch reply⟩
  | succ depth ih =>
    cases request with
    | insert entity data =>
      exact settledButLookup_of_concludes (session.concludes_insertRow ih hknown hrequest data)
    | update entity which data => exact session.meets_updateRow ih hknown hrequest which data
    | delete entity which =>
      exact settledButLookup_of_concludes (session.concludes_deleteRow hknown depth hrequest which)
    | selectField entity which field => exact session.accounts_selectField hrequest which field
    | primaryValue entity which =>
      exact session.accounts_selectField hrequest which entity.primary
    | connect owner relation ownerKey inversedKey =>
      exact session.writes_connect hrequest.1 hrequest.2 ownerKey inversedKey
    | disconnect owner relation ownerKey inversedKey =>
      exact session.writes_disconnect hrequest.1 hrequest.2 ownerKey inversedKey

end Session

end Mutation

end EntityGraph
