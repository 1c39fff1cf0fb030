import EntityGraph.Proofs.Mutation.Confinement
import EntityGraph.Proofs.Mutation.Reassignment
/-!
# The query that reaches for a row

An update looks its row up first, a deletion begins with the statement that deletes its rows, and an
insertion prepares the statement of its own row. Such a query keeps to the rows of one parent where
the unique where points at the parent, or the data of the new row do.
-/
namespace EntityGraph

/-- A statement on the rows of an entity keeps to those with the value in the column of a field: it
selects or deletes no others, or it inserts a row with the value there. Only another field that is
stored in the same column may set it, too. -/
def Sql.Query.KeepsTo (entity : Entity) (field column : String) (value : Value) : Sql.Query → Prop
  | .select lookup => lookup.tables = [Sql.table entity.tableName] ∧
      ∃ tree, lookup.condition = some tree ∧ tree.Confines entity.tableName column value
  | .delete deletion => deletion.table = Sql.table entity.tableName ∧
      ∃ tree, deletion.condition = some tree ∧ tree.Confines entity.tableName column value
  | .insert insertion => insertion.table = Sql.table entity.tableName ∧
      (Sql.column column, .param value) ∈ insertion.values ∧
      ∀ expr, (Sql.column column, expr) ∈ insertion.values →
        expr = .param value ∨ ∃ other, other ≠ field ∧ entity.columnName other = .ok column
  | .update _ => False
  | .raw _ => False

namespace Mutation

variable {α : Type} {rows : RowAnswers} {trace : List (Program.Exchange Effect)}
  {query : Sql.Query}

/-- The first statement on a trace that returns rows. -/
def firstQuery? (trace : List (Program.Exchange Effect)) : Option Sql.Query :=
  trace.findSome? fun exchange =>
    match exchange.request with
    | .query query => some query
    | _ => none

namespace Session

variable {session : Session} {entity : Entity} {which : UniqueWhere} {data : Data}
  {filter : Filter}

/-! ### The first query of an operation -/

lemma of_liftExcept_bind {β : Type} {outcome : Except Failure β} {next : β → Action Effect α}
    (h : (liftExcept outcome >>= next).run.Begins trace) (hquery : firstQuery? trace = some query) :
    ∃ b, outcome = .ok b ∧ (next b).run.Begins trace := by
  cases outcome with
  | ok b => exact ⟨b, rfl, h⟩
  | error failure =>
    rw [Program.done_begins_iff.mp h] at hquery
    cases hquery

/-- The access rules are asked before a statement on rows, which has their answer in its
condition. -/
lemma of_permitted_bind {operation : AccessOperation} {fields : List String}
    {next : Sql.ConditionTree → Action Effect α}
    (h : (session.permitted entity filter operation fields >>= next).run.Begins trace)
    (hquery : firstQuery? trace = some query) :
    ∃ predicate tree rest, (filter.andWith predicate).toTree session.schema entity = .ok tree ∧
      (next tree).run.Begins rest ∧ firstQuery? rest = some query := by
  obtain h | ⟨first, tree, rest, hfirst, hrest, rfl⟩ := h.of_run_bind
  · obtain rfl | ⟨predicate, rfl⟩ := h.of_ask fun _ => Program.silent_done _
    · cases hquery
    · cases hquery
  · obtain ⟨predicate, rfl, htree⟩ := permitted_reaches_ok hfirst
    exact ⟨predicate, tree, rest, htree, hrest, hquery⟩

lemma begins_of_command {text : String} (h : (session.command text).run.Begins trace) :
    trace = [] ∨ ∃ reply, trace = [⟨.command text, reply⟩] :=
  Program.Begins.of_ask (fun _ => Program.silent_done _) (begins_of_logged h)

lemma eq_of_query_bind {sent : Sql.Query} {next : Database.ResultSet → Action Effect α}
    (h : (session.query sent >>= next).run.Begins trace)
    (hquery : firstQuery? trace = some query) : query = sent := by
  obtain h | ⟨first, set, rest, hfirst, -, rfl⟩ := h.of_run_bind
  · obtain rfl | ⟨reply, rfl⟩ := begins_of_query h
    · cases hquery
    · exact (Option.some.inj hquery).symm
  · obtain ⟨reply, rfl, -⟩ := session.query_reaches_iff.mp hfirst
    exact (Option.some.inj hquery).symm

/-- The first query of a look-up selects what satisfies the filter. -/
lemma of_selectColumn_bind {field : String} {next : Option Value → Action Effect α}
    (h : (session.selectColumn entity filter field >>= next).run.Begins trace)
    (hquery : firstQuery? trace = some query) :
    ∃ predicate tree column,
      (filter.andWith predicate).toTree session.schema entity = .ok tree ∧
      query = .select { Filter.selection entity.tableName column tree with limit := some 1 } := by
  rw [selectColumn, bind_assoc] at h
  obtain ⟨predicate, tree, rest, htree, h, hquery⟩ := of_permitted_bind h hquery
  rw [bind_assoc] at h
  obtain ⟨column, -, h⟩ := of_liftExcept_bind h hquery
  rw [bind_assoc] at h
  exact ⟨predicate, tree, column, htree, eq_of_query_bind h hquery⟩

/-- The first query of a deletion deletes what satisfies the filter. -/
lemma of_deleteWhere {depth : Nat} (h : (session.deleteWhere depth entity filter).run.Begins trace)
    (hquery : firstQuery? trace = some query) :
    ∃ predicate tree,
      (filter.andWith predicate).toTree session.schema entity = .ok tree ∧
      query =
        .delete ⟨Sql.table entity.tableName, some tree, [Sql.column entity.primaryColumn]⟩ := by
  have hbatch {next : List Value → Action Effect (List Value)}
      {trace : List (Program.Exchange Effect)}
      (h : (session.deleteBatch entity filter >>= next).run.Begins trace)
      (hquery : firstQuery? trace = some query) :
      ∃ predicate tree, (filter.andWith predicate).toTree session.schema entity = .ok tree ∧
        query = .delete
          ⟨Sql.table entity.tableName, some tree, [Sql.column entity.primaryColumn]⟩ := by
    rw [deleteBatch, bind_assoc] at h
    obtain ⟨predicate, tree, rest, htree, h, hquery⟩ := of_permitted_bind h hquery
    rw [bind_assoc] at h
    exact ⟨predicate, tree, htree, eq_of_query_bind h hquery⟩
  rw [deleteWhere] at h
  split at h
  · obtain h | ⟨first, _, rest, hfirst, hrest, rfl⟩ := Program.Begins.of_run_bind h
    · obtain rfl | ⟨reply, rfl⟩ := begins_of_command h
      · cases hquery
      · cases hquery
    · obtain rfl | ⟨reply, rfl⟩ := begins_of_command hfirst.begins
      · exact hbatch hrest hquery
      · exact hbatch hrest hquery
  · exact hbatch h hquery

lemma of_deleteRow {depth : Nat} (h : (session.deleteRow depth entity which).run.Begins trace)
    (hquery : firstQuery? trace = some query) :
    ∃ filter predicate tree, which.expand entity = .ok filter ∧
      (filter.andWith predicate).toTree session.schema entity = .ok tree ∧
      query =
        .delete ⟨Sql.table entity.tableName, some tree, [Sql.column entity.primaryColumn]⟩ := by
  cases hfilter : which.expand entity with
  | error e =>
    rw [deleteRow, hfilter] at h
    rw [Program.done_begins_iff.mp h] at hquery
    cases hquery
  | ok filter =>
    rw [deleteRow, hfilter] at h
    obtain h | ⟨first, outcome, rest, hfirst, hrest, rfl⟩ := begins_of_attempt_bind h
    · obtain ⟨predicate, tree, htree, heq⟩ := of_deleteWhere h hquery
      exact ⟨filter, predicate, tree, rfl, htree, heq⟩
    · have hsilent : rest = [] := by
        cases outcome <;> exact Program.done_begins_iff.mp hrest
      rw [hsilent, List.append_nil] at hquery
      obtain ⟨predicate, tree, htree, heq⟩ := of_deleteWhere hfirst.begins hquery
      exact ⟨filter, predicate, tree, rfl, htree, heq⟩

lemma of_updateRow (h : (session.updateRow rows entity which data).run.Begins trace)
    (hquery : firstQuery? trace = some query) :
    ∃ filter predicate tree column, which.expand entity = .ok filter ∧
      (filter.andWith predicate).toTree session.schema entity = .ok tree ∧
      query = .select { Filter.selection entity.tableName column tree with limit := some 1 } := by
  cases hfilter : which.expand entity with
  | error e =>
    rw [updateRow, hfilter] at h
    rw [Program.done_begins_iff.mp h] at hquery
    cases hquery
  | ok filter =>
    rw [updateRow, hfilter] at h
    obtain ⟨predicate, tree, column, htree, heq⟩ := of_selectColumn_bind h hquery
    exact ⟨filter, predicate, tree, column, rfl, htree, heq⟩

/-! ### The statement of a new row -/

lemma mem_of_opening {field : String} {input : FieldInput} {keyed : FieldValues Rows}
    {pending : List Pending} (hfield : (field, input) ∈ data.fields)
    (h : (session.opening entity data).run.Reaches trace (.done (.ok (keyed, pending))))
    {entry : String × FieldValue Rows}
    (hentry : entry ∈ createEntries session.schema entity (field, input)) : entry ∈ keyed := by
  have hmem := List.mem_flatMap.mpr ⟨_, hfield, hentry⟩
  obtain ⟨-, rfl | ⟨value, -, rfl⟩⟩ := opening_reaches_ok h
  · exact hmem
  · exact List.mem_append_left _ hmem

end Session

namespace FieldValues

lemma mem_slots_of_value {values : FieldValues Rows} {field : String} {value : Value}
    (h : (field, .value value) ∈ values) (kept : List (Except Result (Resolved Rows))) :
    (field, some value) ∈ slots values kept := by
  induction values generalizing kept with
  | nil => cases h
  | cons entry rest ih =>
    obtain heq | hmem := List.mem_cons.mp h
    · cases heq
      exact List.mem_cons_self
    · obtain ⟨name, given | resolve⟩ := entry
      · exact List.mem_cons_of_mem _ (ih hmem kept)
      · obtain _ | ⟨_ | resolved, later⟩ := kept <;> exact List.mem_cons_of_mem _ (ih hmem _)

/-- A field with one given value and no other has that value in the row. -/
lemma row_value_of_given {values : FieldValues Rows} {row : RowValues Rows} {field : String}
    {value : Value}
    (hresolve : (answered rows values.resolve).run.Reaches trace (.done (.ok row)))
    (hmem : (field, .value value) ∈ values)
    (honly : ∀ other, (field, other) ∈ values → other = .value value) :
    (field, value) ∈ row.values ∧ ∀ other, (field, other) ∈ row.values → other = value := by
  obtain ⟨outcomes, hrun, hfatal, rfl⟩ := resolve_reaches_ok hresolve
  have hsame (other : Value) (h : (field, other) ∈ (values.rowOf (split outcomes).1).values) :
      other = value := by
    obtain hgiven | ⟨resolve, _, _, hdeferred, -⟩ :=
      exists_turn_of_slot hrun hfatal (mem_of_mem_present h)
    · exact FieldValue.value.inj (honly _ hgiven)
    · cases honly _ hdeferred
  obtain ⟨⟨_, other⟩, hother, rfl⟩ := List.mem_map.mp (mem_keys_present
    (mem_slots_of_value hmem (split outcomes).1))
  obtain rfl := hsame other hother
  exact ⟨hother, hsame⟩

end FieldValues

/-- The values of a row are the parameters of their columns. -/
lemma mem_columnValues_iff {entity : Entity} {values : Table Value}
    {columns : List (Sql.ColumnRef × Sql.Expr)} (h : columnValues entity values = .ok columns)
    {setting : Sql.ColumnRef × Sql.Expr} : setting ∈ columns ↔ ∃ pair ∈ values, ∃ column,
      entity.columnName pair.1 = .ok column ∧ setting = (Sql.column column, .param pair.2) := by
  induction values generalizing columns with
  | nil =>
    cases h
    simp
  | cons pair rest ih =>
    obtain ⟨column, hcolumn, h⟩ := Except.bind_eq_ok.mp h
    obtain ⟨others, hothers, h⟩ := Except.bind_eq_ok.mp h
    cases h
    rw [List.mem_cons, List.exists_mem_cons_iff, ih hothers]
    refine or_congr_left ⟨?_, ?_⟩
    · rintro rfl
      exact ⟨column, hcolumn, rfl⟩
    · rintro ⟨other, hother, rfl⟩
      cases hcolumn.symm.trans hother
      rfl

namespace Session

variable {session : Session} {entity : Entity} {data : Data} {field : String}

/-- The statement of a new row sets a value that was put in its data, in place of whatever the data
had there. -/
theorem keepsTo_of_ownInsertion {value : Value} {column : String} {row : RowValues Rows}
    {statement : Sql.Insert} (hdata : (Table.keys data.fields).Nodup)
    (hcolumn : entity.columnName field = .ok column)
    (h : (session.ownInsertion rows entity (data.withValue field value)).run.Reaches trace
      (.done (.ok (row, statement)))) :
    (Sql.Query.insert statement).KeepsTo entity field column value := by
  have hfield : (field, .value value) ∈ (data.withValue field value).fields :=
    Table.mem_of_find? (Table.find?_put_self field _ data.fields)
  have hfields : (Table.keys (data.withValue field value).fields).Nodup :=
    Table.nodup_keys_put hdata
  rw [ownInsertion_eq] at h
  obtain ⟨opened, ⟨values, pending⟩, preparing, hopened, hprepared, rfl⟩ := h.of_run_bind_ok
  obtain ⟨hresolve, columns, hcolumns, rfl⟩ := preparing_reaches_ok hprepared
  have hgiven := mem_of_opening hfield hopened (List.mem_singleton_self _)
  have honly (other : FieldValue Rows) (hother : (field, other) ∈ values) :
      other = .value value := by
    have hentry := mem_createEntries_of_opening hfields hfield (List.cons_ne_nil _ _) hopened hother
    cases List.mem_singleton.mp hentry
    rfl
  obtain ⟨hset, hsame⟩ := FieldValues.row_value_of_given hresolve hgiven honly
  refine ⟨rfl, (mem_columnValues_iff hcolumns).mpr ⟨_, hset, column, hcolumn, rfl⟩, ?_⟩
  intro expr hexpr
  obtain ⟨⟨name, other⟩, hother, own, hown, heq⟩ := (mem_columnValues_iff hcolumns).mp hexpr
  cases heq
  by_cases hname : name = field
  · subst hname
    rw [hsame other hother]
    exact .inl rfl
  · exact .inr ⟨name, hname, hown⟩

end Session

end Mutation

end EntityGraph
