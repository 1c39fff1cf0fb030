import EntityGraph.Proofs.Filter.JoiningColumn
import EntityGraph.Proofs.Mutation.Junction
import EntityGraph.Proofs.Mutation.Reassignment
import EntityGraph.Proofs.Mutation.ReportedKey
import EntityGraph.Proofs.Sql.Serving
import EntityGraph.Proofs.Value.Ordering
/-!
# Look-ups on a server

A row is looked up by the value of one column, its own key or a joining column, and its key is what
is found. Where rows that agree on the column have one key, the order of the rows does not matter.
What is found stays, whatever is set in other columns.
-/
namespace EntityGraph

open Mutation

namespace Row

variable {row other : Row} {column : String} {value key : Value}

lemma Has.agree (h : row.Has column value) (hother : other.Has column value) :
    row.Agree column other column := by
  obtain ⟨a, ha, hav⟩ := h
  obtain ⟨b, hb, hbv⟩ := hother
  exact ⟨a, b, ha, hb, Comparison.equal_test_trans hav (Comparison.equal_test_comm.mp hbv)⟩

/-- A row has what it holds in a column, unless that is null. -/
lemma has_of_find? (h : row.find? column = some value) (hvalue : value.isNull = false) :
    row.Has column value :=
  ⟨value, h, Comparison.equal_test_eq_holds.mpr ⟨hvalue, hvalue, Value.compare_self value⟩⟩

lemma Has.congr (h : row.Has column value) (hother : other.find? column = row.find? column) :
    other.Has column value := by
  obtain ⟨stored, hstored, hequal⟩ := h
  exact ⟨stored, hother.trans hstored, hequal⟩

/-- Nothing is null, not even null. -/
lemma not_has_of_null (h : row.find? column = some .null) : ¬ row.Has column value := by
  rintro ⟨stored, hstored, hequal⟩
  cases h.symm.trans hstored
  cases (Comparison.equal_test_eq_holds.mp hequal).1

/-- Puts values into columns, one after another. -/
def assignAll (values : List (String × Value)) (row : Row) : Row :=
  values.foldl (fun result pair => result.assign pair.1 pair.2) row

variable {values : List (String × Value)}

lemma find?_assignAll_of_not_mem (h : ∀ other, (column, other) ∉ values) :
    (row.assignAll values).find? column = row.find? column := by
  induction values generalizing row with
  | nil => rfl
  | cons pair rest ih =>
    obtain ⟨name, assigned⟩ := pair
    have hname : column ≠ name := by
      rintro rfl
      exact h assigned List.mem_cons_self
    have hhead : (row.assign name assigned).find? column = row.find? column := by
      simp [find?_assign, hname]
    exact (ih fun other hmem => h other (List.mem_cons_of_mem _ hmem)).trans hhead

/-- A column keeps its value or gets one that is assigned to it. -/
lemma find?_assignAll_cases (row : Row) (values : List (String × Value)) (column : String) :
    (row.assignAll values).find? column = row.find? column ∨ ∃ old value,
      row.find? column = some old ∧ (row.assignAll values).find? column = some value ∧
        (column, value) ∈ values := by
  induction values generalizing row with
  | nil => exact .inl rfl
  | cons pair rest ih =>
    obtain ⟨name, assigned⟩ := pair
    have hhead := find?_assign name assigned row column
    rcases ih (row.assign name assigned) with hkept | ⟨old, value, hold, hvalue, hmem⟩
    · cases hfound : row.find? column with
      | none =>
        rw [hfound] at hhead
        exact .inl (hkept.trans hhead)
      | some old =>
        rw [hfound, Option.map_some] at hhead
        by_cases hname : column = name
        · rw [if_pos hname] at hhead
          exact .inr ⟨old, assigned, rfl, hkept.trans hhead, by simp [hname]⟩
        · rw [if_neg hname] at hhead
          exact .inl (hkept.trans hhead)
    · cases hfound : row.find? column with
      | none =>
        rw [hfound, Option.map_none] at hhead
        cases hhead.symm.trans hold
      | some before => exact .inr ⟨before, value, rfl, hvalue, List.mem_cons_of_mem _ hmem⟩

/-- A column gets the one value that is assigned to it. -/
lemma find?_assignAll_of_mem (hrow : ∃ old, row.find? column = some old)
    (hmem : (column, value) ∈ values) (hone : ∀ other, (column, other) ∈ values → other = value) :
    (row.assignAll values).find? column = some value := by
  obtain ⟨old, hold⟩ := hrow
  induction values generalizing row old with
  | nil => cases hmem
  | cons pair rest ih =>
    obtain ⟨name, assigned⟩ := pair
    have hhead : (row.assign name assigned).find? column =
        some (if column = name then assigned else old) := by
      rw [find?_assign, hold, Option.map_some]
    by_cases hrest : ∃ other, (column, other) ∈ rest
    · obtain ⟨other, hother⟩ := hrest
      obtain rfl := hone other (List.mem_cons_of_mem _ hother)
      exact ih hother (fun other hmem => hone other (List.mem_cons_of_mem _ hmem)) _ hhead
    · obtain heq | hmem := List.mem_cons.mp hmem
      · cases heq
        refine (find?_assignAll_of_not_mem fun other hmem => hrest ⟨other, hmem⟩).trans ?_
        rw [hhead, if_pos rfl]
      · exact absurd ⟨value, hmem⟩ hrest

end Row

/-! ### What is found by a column -/

namespace Store

/-- Whether the rows of the table have the column. -/
def HasColumn (store : Store) (table column : String) : Prop :=
  ∀ row ∈ store.rows table, ∃ value, row.find? column = some value

/-- The rows of a table have keys, and those that agree on the column have the same key. -/
structure Tells (store : Store) (table idColumn column : String) : Prop where
  holds : store.HasColumn table column
  key : ∀ row ∈ store.rows table, ∃ key, row.find? idColumn = some key ∧ key.isNull = false
  same : ∀ row ∈ store.rows table, ∀ other ∈ store.rows table,
    row.Agree column other column → row.find? idColumn = other.find? idColumn

/-- There are rows with the value in the column, and all of them have the key. -/
structure LeadsTo (store : Store) (table idColumn column : String) (value key : Value) : Prop where
  holds : store.HasColumn table column
  present : key.isNull = false
  row : ∃ row ∈ store.rows table, row.Has column value
  key : ∀ row ∈ store.rows table, row.Has column value → row.find? idColumn = some key

/-- The rows of the table are what they were, but for values that were set in some columns. -/
def Resets (store next : Store) (table : String) (sets : String → Value → Prop) : Prop :=
  ∃ f : Row → Row, next.rows table = (store.rows table).map f ∧
    ∀ row ∈ store.rows table, ∀ column, (f row).find? column = row.find? column ∨
      ∃ old value, row.find? column = some old ∧ (f row).find? column = some value ∧
        sets column value

variable {store next last : Store} {table idColumn column : String} {value key : Value}
  {sets others : String → Value → Prop}

namespace Resets

lemma of_rows_eq (h : next.rows table = store.rows table) : store.Resets next table sets :=
  ⟨id, by rw [h, List.map_id], fun _ _ _ => .inl rfl⟩

lemma mono (h : store.Resets next table sets) (hmore : ∀ column value, sets column value →
    others column value) : store.Resets next table others := by
  obtain ⟨f, hrows, hset⟩ := h
  refine ⟨f, hrows, fun row hrow column => (hset row hrow column).imp_right ?_⟩
  rintro ⟨old, value, hold, hvalue, hsets⟩
  exact ⟨old, value, hold, hvalue, hmore _ _ hsets⟩

lemma trans (h : store.Resets next table sets) (hnext : next.Resets last table sets) :
    store.Resets last table sets := by
  obtain ⟨f, hrows, hset⟩ := h
  obtain ⟨g, hlast, hsetAgain⟩ := hnext
  refine ⟨g ∘ f, by rw [hlast, hrows, List.map_map], fun row hrow column => ?_⟩
  have hmem : f row ∈ next.rows table := by
    rw [hrows]
    exact List.mem_map_of_mem hrow
  rcases hsetAgain (f row) hmem column with hkept | ⟨middle, value, hmiddle, hvalue, hsets⟩
  · rcases hset row hrow column with hfirst | ⟨old, value, hold, hvalue, hsets⟩
    · exact .inl (hkept.trans hfirst)
    · exact .inr ⟨old, value, hold, hkept.trans hvalue, hsets⟩
  · rcases hset row hrow column with hfirst | ⟨old, _, hold, -, -⟩
    · exact .inr ⟨middle, value, hfirst ▸ hmiddle, hvalue, hsets⟩
    · exact .inr ⟨old, value, hold, hvalue, hsets⟩

/-- Every row was there before. -/
lemma exists_old (h : store.Resets next table sets) {row : Row} (hrow : row ∈ next.rows table) :
    ∃ old ∈ store.rows table, ∀ column, row.find? column = old.find? column ∨
      ∃ before value, old.find? column = some before ∧ row.find? column = some value ∧
        sets column value := by
  obtain ⟨f, hrows, hset⟩ := h
  rw [hrows] at hrow
  obtain ⟨old, hold, rfl⟩ := List.mem_map.mp hrow
  exact ⟨old, hold, hset old hold⟩

/-- Every row is still there. -/
lemma exists_new (h : store.Resets next table sets) {row : Row} (hrow : row ∈ store.rows table)
    (hkept : ∀ value, ¬ sets column value) :
    ∃ new ∈ next.rows table, new.find? column = row.find? column := by
  obtain ⟨f, hrows, hset⟩ := h
  refine ⟨f row, by rw [hrows]; exact List.mem_map_of_mem hrow, ?_⟩
  refine (hset row hrow column).resolve_right ?_
  rintro ⟨-, value, -, -, hsets⟩
  exact hkept value hsets

/-- A row has what it had in the columns that were not set. -/
lemma exists_same (h : store.Resets next table sets) {row : Row} (hrow : row ∈ next.rows table) :
    ∃ old ∈ store.rows table, ∀ column, (∀ value, ¬ sets column value) →
      row.find? column = old.find? column := by
  obtain ⟨old, hold, hset⟩ := h.exists_old hrow
  refine ⟨old, hold, fun column hkept => (hset column).resolve_right ?_⟩
  rintro ⟨-, value, -, -, hsets⟩
  exact hkept value hsets

/-- Where a column is only cleared, what a row has there it had before. -/
lemma exists_had (h : store.Resets next table sets) {row : Row} (hrow : row ∈ next.rows table)
    (hclears : ∀ value, sets column value → value = .null) :
    ∃ old ∈ store.rows table, (∀ column, (∀ value, ¬ sets column value) →
        row.find? column = old.find? column) ∧
      ∀ value, row.Has column value → row.find? column = old.find? column := by
  obtain ⟨old, hold, hset⟩ := h.exists_old hrow
  refine ⟨old, hold, fun column hkept => (hset column).resolve_right ?_, fun value hhas => ?_⟩
  · rintro ⟨-, value, -, -, hsets⟩
    exact hkept value hsets
  · rcases hset column with hkept | ⟨-, cleared, -, hcleared, hsets⟩
    · exact hkept
    · rw [hclears cleared hsets] at hcleared
      exact absurd hhas (Row.not_has_of_null hcleared)

end Resets

/-- Rows of one key still tell their keys after some of them were cleared. -/
lemma Tells.resets (h : store.Tells table idColumn column)
    (hresets : store.Resets next table sets) (hid : ∀ value, ¬ sets idColumn value)
    (hclears : ∀ value, sets column value → value = .null) :
    next.Tells table idColumn column where
  holds row hrow := by
    obtain ⟨old, hold, hset⟩ := hresets.exists_old hrow
    obtain ⟨value, hvalue⟩ := h.holds old hold
    rcases hset column with hkept | ⟨-, value, -, hvalue, -⟩
    · exact ⟨value, hkept.trans hvalue⟩
    · exact ⟨value, hvalue⟩
  key row hrow := by
    obtain ⟨old, hold, hsame⟩ := hresets.exists_same hrow
    obtain ⟨key, hkey, hpresent⟩ := h.key old hold
    exact ⟨key, (hsame idColumn hid).trans hkey, hpresent⟩
  same row hrow other hother hagree := by
    obtain ⟨old, hold, hsame, hhad⟩ := hresets.exists_had hrow hclears
    obtain ⟨old', hold', hsame', hhad'⟩ := hresets.exists_had hother hclears
    rw [hsame idColumn hid, hsame' idColumn hid]
    obtain ⟨a, b, ha, hb, hab⟩ := hagree
    have hthis := hhad b ⟨a, ha, hab⟩
    have hthat := hhad' a ⟨b, hb, Comparison.equal_test_comm.mp hab⟩
    exact h.same old hold old' hold' ⟨a, b, hthis ▸ ha, hthat ▸ hb, hab⟩

/-- What a column leads to stays while neither the column nor the key is set. -/
lemma LeadsTo.resets (h : store.LeadsTo table idColumn column value key)
    (hresets : store.Resets next table sets) (hid : ∀ value, ¬ sets idColumn value)
    (hcolumn : ∀ value, ¬ sets column value) :
    next.LeadsTo table idColumn column value key where
  holds row hrow := by
    obtain ⟨old, hold, hsame⟩ := hresets.exists_same hrow
    obtain ⟨value, hvalue⟩ := h.holds old hold
    exact ⟨value, (hsame column hcolumn).trans hvalue⟩
  present := h.present
  row := by
    obtain ⟨row, hrow, hhas⟩ := h.row
    obtain ⟨new, hnew, hsame⟩ := hresets.exists_new hrow hcolumn
    exact ⟨new, hnew, hhas.congr hsame⟩
  key row hrow hhas := by
    obtain ⟨old, hold, hsame⟩ := hresets.exists_same hrow
    rw [hsame idColumn hid]
    exact h.key old hold (hhas.congr (hsame column hcolumn).symm)

/-- No row comes to have a value when its column is only cleared. -/
lemma Resets.not_has (hresets : store.Resets next table sets)
    (hclears : ∀ value, sets column value → value = .null)
    (h : ∀ row ∈ store.rows table, ¬ row.Has column value) :
    ∀ row ∈ next.rows table, ¬ row.Has column value := by
  intro row hrow hhas
  obtain ⟨old, hold, -, hhad⟩ := hresets.exists_had hrow hclears
  exact h old hold (hhas.congr (hhad value hhas).symm)

/-- A key that was found leads to itself. -/
lemma LeadsTo.own (h : store.LeadsTo table idColumn idColumn value key) :
    store.LeadsTo table idColumn idColumn key key where
  holds := h.holds
  present := h.present
  row := by
    obtain ⟨row, hrow, hhas⟩ := h.row
    exact ⟨row, hrow, Row.has_of_find? (h.key row hrow hhas) h.present⟩
  key row hrow hhas := by
    obtain ⟨found, hfound, hfoundHas⟩ := h.row
    have hagree := hhas.agree (Row.has_of_find? (h.key found hfound hfoundHas) h.present)
    exact h.key row hrow (hagree.has hfoundHas)

end Store

namespace Server

variable (server : Server) (store : Store) (table column : String) (value : Value)

/-- The rows with the value in the column, in the order of the server. -/
def matching : List Row := server.arrange ((store.rows table).filter (·.Has column value))

/-- The key of the first row with the value in the column, unless it is null. -/
def found (idColumn : String) : Option Value :=
  ((server.matching store table column value).head?.bind (·.find? idColumn)).filter (!·.isNull)

variable {server store table column value} {row : Row}

lemma mem_matching : row ∈ server.matching store table column value ↔
    row ∈ store.rows table ∧ row.Has column value := by
  rw [matching, (server.perm _).mem_iff, List.mem_filter, decide_eq_true_iff]

variable (server) in
/-- If a row has the value, a row with the value is the first. -/
lemma exists_head?_matching (hrow : row ∈ store.rows table) (hhas : row.Has column value) :
    ∃ first ∈ store.rows table, first.Has column value ∧
      (server.matching store table column value).head? = some first := by
  have hmem : row ∈ server.matching store table column value := mem_matching.mpr ⟨hrow, hhas⟩
  obtain ⟨first, rest, hmatching⟩ := List.exists_cons_of_ne_nil (List.ne_nil_of_mem hmem)
  have hfirst : first ∈ server.matching store table column value := by
    rw [hmatching]
    exact List.mem_cons_self
  obtain ⟨hin, hfirstHas⟩ := mem_matching.mp hfirst
  exact ⟨first, hin, hfirstHas, by rw [hmatching, List.head?_cons]⟩

end Server

namespace Store

variable {server : Server} {store : Store} {table idColumn column : String} {value key : Value}

/-- What is found is the key of every row with the value. -/
lemma Tells.leadsTo (h : store.Tells table idColumn column)
    (hfound : server.found store table column value idColumn = some key) :
    store.LeadsTo table idColumn column value key := by
  obtain ⟨hfirst, hpresent⟩ := Option.filter_eq_some_iff.mp hfound
  obtain ⟨row, hhead, hkey⟩ := Option.bind_eq_some_iff.mp hfirst
  obtain ⟨hrow, hhas⟩ := Server.mem_matching.mp (List.mem_of_head? hhead)
  refine ⟨h.holds, by simpa using hpresent, ⟨row, hrow, hhas⟩, fun other hother hotherHas => ?_⟩
  rw [h.same other hother row hrow (hotherHas.agree hhas), hkey]

/-- Where nothing is found, no row has the value. -/
lemma Tells.not_has (h : store.Tells table idColumn column)
    (hfound : server.found store table column value idColumn = none) :
    ∀ row ∈ store.rows table, ¬ row.Has column value := by
  intro row hrow hhas
  obtain ⟨first, hin, -, hhead⟩ := server.exists_head?_matching hrow hhas
  obtain ⟨key, hkey, hpresent⟩ := h.key first hin
  rw [Server.found, hhead, Option.bind_some, hkey, Option.filter_some, hpresent] at hfound
  cases hfound

lemma LeadsTo.found_eq (h : store.LeadsTo table idColumn column value key) (server : Server) :
    server.found store table column value idColumn = some key := by
  obtain ⟨row, hrow, hhas⟩ := h.row
  obtain ⟨first, hin, hfirstHas, hhead⟩ := server.exists_head?_matching hrow hhas
  rw [Server.found, hhead, Option.bind_some, h.key first hin hfirstHas, Option.filter_some,
    h.present]
  exact if_pos rfl

end Store

/-! ### Statements about the rows with a value -/

section Statements

variable {server : Server} {store : Store} {table idColumn column : String}

/-- The condition that a column has a value. -/
def onValue (column : String) (value : Value) : Sql.ConditionTree :=
  (Condition.compare .equal value).toTree (Sql.column column)

variable (hcolumn : store.HasColumn table column) (value : Value)
include hcolumn

lemma chooses_onValue : Chooses store table (onValue column value) (·.Has column value) := by
  intro row hrow
  obtain ⟨found, hfound⟩ := hcolumn row hrow
  have htruth : (onValue column value).truth? store [(table, row)] =
      some (Comparison.equal.test found value) :=
    Condition.truth?_toTree hfound (.compare .equal value)
  rw [htruth, Option.some_inj, decide_eq_true_iff]
  refine ⟨rfl, fun h => ⟨found, hfound, h⟩, ?_⟩
  rintro ⟨stored, hstored, hvalue⟩
  cases hfound.symm.trans hstored
  exact hvalue

/-- The statement of a look-up returns the column of at most one row, and changes nothing. -/
lemma answer_lookUp (hkey : ∀ row ∈ store.rows table, row.Has column value →
      ∃ key, row.find? idColumn = some key) :
    server.answer (.query (.select
        { Filter.selection table idColumn (onValue column value) with limit := some 1 })) store =
      some (.ok (columnSet idColumn (((server.matching store table column value).take 1).map
        fun row => (row.find? idColumn).getD .null)), store) := by
  obtain ⟨chosen, hchosen, heq⟩ := chosen?_eq (chooses_onValue hcolumn value)
  have hrows : server.arrange ((store.rows table).filter chosen) =
      server.matching store table column value := by
    rw [Server.matching, List.filter_congr heq]
  have hvalues : ((server.matching store table column value).take 1).mapM
      (fun row => [Sql.Expr.column (Sql.column idColumn)].mapM
        (Sql.Expr.value? [((Sql.table table).referenceName, row)])) =
      some (((server.matching store table column value).take 1).map
        fun row => [(row.find? idColumn).getD .null]) := by
    refine mapM_eq_some_map fun row hrow => ?_
    obtain ⟨hin, hhas⟩ := Server.mem_matching.mp (List.mem_of_mem_take hrow)
    obtain ⟨key, hkey⟩ := hkey row hin hhas
    simp [Sql.value?_column_of_find? hkey, hkey]
  simp only [Server.answer, Filter.selection, Sql.Select.fromTable, Sql.Select.empty,
    Sql.Select.column, Sql.Select.filtered, List.nil_append, Store.select?, hchosen,
    Option.bind_eq_bind, Option.bind_some]
  rw [show (Sql.table table).name = table from rfl, hrows, hvalues, columnSet, List.map_map]
  rfl

/-- The rows of the table after values were set in those that have a value in the column. -/
def Store.settingAll (store : Store) (table column : String) (value : Value)
    (values : List (String × Value)) : Store :=
  store.withRows table ((store.rows table).map fun row =>
    if row.Has column value then row.assignAll values else row)

/-- An update by the value of a column sets its values in the rows that have it. -/
lemma update?_onValue (values : List (String × Value)) :
    store.update? ⟨Sql.table table, values.map fun pair => (Sql.column pair.1, .param pair.2),
        some (onValue column value), []⟩ =
      some (((store.rows table).filter (·.Has column value)).length,
        store.settingAll table column value values) := by
  obtain ⟨chosen, hchosen, heq⟩ := chosen?_eq (chooses_onValue hcolumn value)
  have hassigned : ∀ row, Store.assigned? (Sql.table table)
      (values.map fun pair => (Sql.column pair.1, .param pair.2)) row =
        some (row.assignAll values) := by
    intro row
    unfold Store.assigned? Row.assignAll
    generalize [((Sql.table table).referenceName, row)] = scope
    induction values generalizing row with
    | nil => rfl
    | cons pair rest ih => simpa [Sql.column] using ih (row.assign pair.1 pair.2)
  have hupdated : (store.rows table).mapM (fun row => if chosen row then
      Store.assigned? (Sql.table table)
        (values.map fun pair => (Sql.column pair.1, .param pair.2)) row else some row) =
      some ((store.rows table).map fun row =>
        if row.Has column value then row.assignAll values else row) := by
    refine mapM_eq_some_map fun row hrow => ?_
    rw [heq row hrow, hassigned]
    by_cases hhas : row.Has column value <;> simp [hhas]
  simp only [Store.update?, hchosen, Option.bind_eq_bind, Option.bind_some]
  rw [show (Sql.table table).name = table from rfl, hupdated, List.filter_congr heq]
  rfl

end Statements

/-- What is set in some rows of a table changes nothing else. -/
lemma Store.resets_settingAll (store : Store) (table column : String) (value : Value)
    {values : List (String × Value)} (other : String) {sets : String → Value → Prop}
    (hsets : ∀ pair ∈ values, other = table → sets pair.1 pair.2) :
    store.Resets (store.settingAll table column value values) other sets := by
  by_cases hother : other = table
  · refine ⟨fun row => if row.Has column value then row.assignAll values else row,
      by rw [settingAll, rows_withRows, if_pos hother, hother], fun row hrow name => ?_⟩
    dsimp only
    by_cases hhas : row.Has column value
    · rw [if_pos hhas]
      refine (row.find?_assignAll_cases values name).imp_right ?_
      rintro ⟨old, assigned, hold, hassigned, hmem⟩
      exact ⟨old, assigned, hold, hassigned, hsets _ hmem hother⟩
    · rw [if_neg hhas]
      exact .inl rfl
  · exact .of_rows_eq (by rw [settingAll, rows_withRows, if_neg hother])

/-- The request is about the access rules, or sends a statement that selects or inserts: it neither
updates nor deletes rows. -/
def EffectRequest.SparesRows : Effect.Request → Prop
  | .query (.select _) => True
  | .execute (.insert _) => True
  | .predicate .. => True
  | _ => False

namespace Mutation.Session

variable {server : Server} {session : Session} {store next : Store} {entity : Entity}
  {allowed : Effect.Request → Prop}

lemma runs_query_iff {query : Sql.Query} {outcome : Except Failure Database.ResultSet} :
    server.Runs allowed (session.query query).run store outcome next ↔
      allowed (.query query) ∧ ∃ reply, server.answer (.query query) store = some (reply, next) ∧
        outcome = reply.mapError .database :=
  Server.runs_iff_of_one_question fun _ => session.query_reaches_iff

lemma runs_execute_iff {query : Sql.Query} {outcome : Except Failure Nat} :
    server.Runs allowed (session.execute query).run store outcome next ↔
      allowed (.execute query) ∧ ∃ reply,
        server.answer (.execute query) store = some (reply, next) ∧
          outcome = reply.mapError .database :=
  Server.runs_iff_of_one_question fun _ => execute_reaches_iff

lemma runs_permitted_iff {filter : Filter} {operation : AccessOperation} {fields : List String}
    {outcome : Except Failure Sql.ConditionTree} :
    server.Runs allowed (session.permitted entity filter operation fields).run store outcome next ↔
      allowed (.predicate entity operation fields) ∧ next = store ∧
        outcome = (filter.toTree session.schema entity).mapError .schema := by
  refine Server.runs_ask_iff.trans (and_congr_right fun _ => ?_)
  constructor
  · rintro ⟨reply, middle, hanswer, hdone⟩
    cases hanswer
    obtain ⟨rfl, rfl⟩ := Server.runs_done_iff.mp hdone
    rw [Filter.andWith_empty]
    exact ⟨rfl, rfl⟩
  · rintro ⟨rfl, rfl⟩
    refine ⟨.empty, next, rfl, Server.runs_done_iff.mpr ⟨?_, rfl⟩⟩
    rw [Filter.andWith_empty]

/-- A look-up by the value of a column comes to the key that is found, and changes nothing. -/
lemma runs_selectField {which : UniqueWhere} {filter : Filter} {field idColumn column : String}
    {value : Value} (hexpand : which.expand entity = .ok filter)
    (htree : filter.toTree session.schema entity = .ok (onValue column value))
    (hfield : entity.columnName field = .ok idColumn)
    (hcolumn : store.HasColumn entity.tableName column)
    (hkey : ∀ row ∈ store.rows entity.tableName, row.Has column value →
      ∃ key, row.find? idColumn = some key) :
    server.Runs EffectRequest.SparesRows (session.selectField entity which field).run store
      (.ok (server.found store entity.tableName column value idColumn)) store := by
  have hasked : server.Runs EffectRequest.SparesRows
      (session.permitted entity filter .read [field]).run store (.ok (onValue column value))
      store := runs_permitted_iff.mpr ⟨trivial, rfl, by rw [htree]; rfl⟩
  rw [selectField, hexpand]
  refine Server.runs_run_bind_ok_iff.mpr ⟨filter, store, Server.runs_done_iff.mpr ⟨rfl, rfl⟩, ?_⟩
  refine Server.runs_run_bind_ok_iff.mpr ⟨_, store, hasked, ?_⟩
  rw [hfield]
  refine Server.runs_run_bind_ok_iff.mpr
    ⟨idColumn, store, Server.runs_done_iff.mpr ⟨rfl, rfl⟩, ?_⟩
  refine Server.runs_run_bind_ok_iff.mpr ⟨_, store,
    runs_query_iff.mpr ⟨trivial, _, answer_lookUp hcolumn value hkey, rfl⟩, ?_⟩
  rw [Server.found]
  cases hrows : server.matching store entity.tableName column value with
  | nil => exact Server.runs_done_iff.mpr ⟨rfl, rfl⟩
  | cons row rest =>
    have hmem : row ∈ server.matching store entity.tableName column value := by
      rw [hrows]
      exact List.mem_cons_self
    obtain ⟨hrow, hhas⟩ := Server.mem_matching.mp hmem
    obtain ⟨key, hkey⟩ := hkey row hrow hhas
    refine Server.runs_done_iff.mpr ⟨?_, rfl⟩
    simp only [List.head?_cons, Option.bind_some, hkey, Option.filter_some, Option.getD_some]
    cases key.isNull <;> rfl

end Mutation.Session

/-! ### Rows by their own keys and by claims -/

namespace Mutation

variable {server : Server} {session : Session} {store : Store} {entity : Entity} {name : String}
  {value key : Value}

lemma expand_byPrimary (entity : Entity) (value : Value) : (byPrimary entity value).expand entity =
    .ok (.onColumn entity.primary (.compare .equal value)) := by
  have hcovers : (byPrimary entity value).coversKey entity = true := by
    refine List.any_eq_true.mpr ⟨[entity.primary], List.mem_cons_self, ?_⟩
    simp [byPrimary, UniqueWhere.single, UniqueWhere.get?, Table.find?]
  rw [UniqueWhere.expand, if_pos hcovers]
  rfl

section Keys

variable (hprimary : entity.columnName entity.primary = .ok entity.primaryColumn)
include hprimary

/-- The condition on the key of a row is the one on its key column. -/
lemma toTree_byPrimary (schema : Schema) (value : Value) :
    (byPrimary entity value).toFilter.toTree schema entity =
      .ok (onValue entity.primaryColumn value) :=
  Filter.toTree_onColumn schema hprimary _

/-- A row is looked up by its own key. -/
lemma Session.runs_ownKey (hholds : store.HasColumn entity.tableName entity.primaryColumn)
    (value : Value) :
    server.Runs EffectRequest.SparesRows
      (session.selectField entity (byPrimary entity value) entity.primary).run store
      (.ok (server.found store entity.tableName entity.primaryColumn value entity.primaryColumn))
      store :=
  Session.runs_selectField (expand_byPrimary entity value) (toTree_byPrimary hprimary _ value)
    hprimary hholds fun _ _ ⟨stored, hstored, _⟩ => ⟨stored, hstored⟩

end Keys

section Claims

variable {sides : RelationSides} {joining : JoiningColumn}
  (hentity : sides.entity.WellFormed)
  (hrelation : sides.entity.relation sides.relation.name = .ok sides.relation)
  (hjoining : sides.relation.joiningColumn? = some joining)
  (hkind : sides.kind = .oneHasOneOwning)
include hentity hrelation hkind

lemma expand_claimOn (target : Value) : (claimOn sides target).expand sides.entity =
    .ok (.onRelation sides.relation.name
      (.onColumn sides.target.primary (.compare .equal target))) := by
  have hcovers : (claimOn sides target).coversKey sides.entity = true := by
    have hmem : sides.relation ∈ sides.entity.relations.filter (·.kind = .oneHasOneOwning) :=
      List.mem_filter.mpr ⟨hentity.mem_relations.mpr hrelation, decide_eq_true hkind⟩
    refine List.any_eq_true.mpr ⟨[sides.relation.name],
      List.mem_cons_of_mem _ (List.mem_append_right _ (List.mem_map_of_mem hmem)), ?_⟩
    simp [claimOn, UniqueWhere.withRelation, UniqueWhere.empty, UniqueWhere.get?]
  rw [UniqueWhere.expand, if_pos hcovers]
  rfl

include hjoining

/-- The row that claims a target is looked up by the joining column. -/
lemma Session.runs_claim
    (hprimary : sides.entity.columnName sides.entity.primary = .ok sides.entity.primaryColumn)
    (htarget : session.schema.targetEntity sides.relation = .ok sides.target)
    {target : Value} (hholds : store.HasColumn sides.entity.tableName joining.columnName)
    (hkey : ∀ row ∈ store.rows sides.entity.tableName, row.Has joining.columnName target →
      ∃ key, row.find? sides.entity.primaryColumn = some key) :
    server.Runs EffectRequest.SparesRows
      (session.selectField sides.entity (claimOn sides target) sides.entity.primary).run store
      (.ok (server.found store sides.entity.tableName joining.columnName target
        sides.entity.primaryColumn)) store :=
  Session.runs_selectField (expand_claimOn hentity hrelation hkind target)
    (Filter.toTree_onKey hrelation hjoining htarget) hprimary hholds hkey

end Claims

end Mutation

end EntityGraph
