import EntityGraph.Proofs.Program.Runs
import EntityGraph.Proofs.Schema.Instance
import EntityGraph.Proofs.Sql.Execution
/-!
# Programs on a relational database

A server answers each statement by what it means on the rows that are stored, and goes on with the
rows after it. A write that the constraints do not admit is refused and changes nothing. A program
on a server comes to one end at most.
-/
namespace EntityGraph

/-- What a database adds to the meaning of statements. -/
structure Server where
  /-- Puts the rows of a selection into the order in which they are returned. -/
  arrange : List Row → List Row
  perm : ∀ rows, (arrange rows).Perm rows
  /-- Sets of columns in which the rows of a table are unique. -/
  keys : String → List (List String)
  /-- The values of the columns of a table that an insertion leaves out. -/
  defaults : String → Row
  /-- Whether the constraints hold of the stored rows. -/
  admits : Store → Bool
  /-- The error of a write that is refused. -/
  refusal : Database.Error

/-- The name of a selected column. -/
def Sql.Expr.heading (expr : Sql.Expr) : String :=
  match expr.kind with
  | .column column => column.name
  | _ => "?column?"

/-- The rows that a selection from one table returns. -/
def Store.select? (arrange : List Row → List Row) (store : Store) :
    Sql.Select → Option Database.ResultSet
  | ⟨columns, [table], condition, [], limit, none⟩ => do
    let chosen ← store.chosen? table condition
    let rows := arrange ((store.rows table.name).filter chosen)
    let kept := match limit with
      | some count => rows.take count
      | none => rows
    let values ← kept.mapM fun row =>
      columns.mapM (Sql.Expr.value? [(table.referenceName, row)])
    some ⟨columns.map Sql.Expr.heading, values, none⟩
  | _ => none

/-- Whether rows were only added, and only to the given tables. -/
structure Store.Grows (store next : Store) (tables : String → Prop) : Prop where
  kept : ∀ table, store.rows table ⊆ next.rows table
  others : ∀ table, ¬ tables table → next.rows table = store.rows table

lemma Store.Grows.refl (store : Store) (tables : String → Prop) : store.Grows store tables :=
  ⟨fun _ => List.Subset.refl _, fun _ _ => rfl⟩

lemma Store.Grows.trans {store next last : Store} {tables : String → Prop}
    (h : store.Grows next tables) (hnext : next.Grows last tables) : store.Grows last tables :=
  ⟨fun table => List.Subset.trans (h.kept table) (hnext.kept table),
    fun table htable => (hnext.others table htable).trans (h.others table htable)⟩

namespace Server

variable (server : Server)

/-- Whether two rows of a table agree on one of its keys. -/
def Clash (table : String) (row other : Row) : Prop :=
  ∃ key ∈ server.keys table, ∀ column ∈ key, row.Agree column other column

instance {table : String} {row other : Row} : Decidable (server.Clash table row other) :=
  inferInstanceAs (Decidable (∃ key ∈ server.keys table, _))

/-- The row of an insertion, the given values in front of the others. -/
def newRow? (insert : Sql.Insert) : Option Row := do
  let values ← insert.values.mapM fun (column, expr) => (column.name, ·) <$> expr.value? []
  some (values ++ server.defaults insert.table.name)

/-- The end of a write, by whether its result is admitted. -/
def written {α : Type} (store next : Store) (reply : α) : Except Database.Error α × Store :=
  if server.admits next then (.ok reply, next) else (.error server.refusal, store)

/-- The rows that an insertion adds: one, or none where it passes over conflicts. -/
def insert? (insert : Sql.Insert) (store : Store) :
    Option (Except Database.Error (List Row) × Store) := do
  let row ← server.newRow? insert
  let rows := store.rows insert.table.name
  if ∃ other ∈ rows, server.Clash insert.table.name other row then
    some (if insert.skipsConflicts then .ok [] else .error server.refusal, store)
  else some (server.written store (store.withRows insert.table.name (rows ++ [row])) [row])

/-- Whether a stored row clashes with the row of an insertion. -/
def Blocks (store : Store) (insert : Sql.Insert) : Prop :=
  ∃ row, server.newRow? insert = some row ∧
    ∃ other ∈ store.rows insert.table.name, server.Clash insert.table.name other row

/-- The answer to a question, and the rows afterwards. The access rules restrict nothing; other
questions have no answer here. -/
def answer : (request : Effect.Request) → StateT Store Option (Effect.Reply request)
  | EffectRequest.query (.select select) => fun store => do
    let set ← store.select? server.arrange select
    some (.ok set, store)
  | EffectRequest.query (.delete delete) => fun store => do
    let (set, next) ← store.delete? delete
    some (server.written store next set)
  | EffectRequest.execute (.insert insert) => fun store => do
    let (rows, next) ← server.insert? insert store
    some (rows.map List.length, next)
  | EffectRequest.execute (.update update) => fun store => do
    let (count, next) ← store.update? update
    some (server.written store next count)
  | EffectRequest.execute (.delete delete) => fun store => do
    let (set, next) ← store.delete? delete
    some (server.written store next set.size)
  | EffectRequest.command _ => fun store => some (.ok (), store)
  | EffectRequest.predicate .. => fun store => some (.empty, store)
  | _ => fun _ => none

/-- The answers of a trace are those of the server, one after another. -/
inductive Serves : Store → List (Program.Exchange Effect) → Store → Prop
  | nil (store : Store) : Serves store [] store
  | cons {store middle next : Store} {exchange : Program.Exchange Effect}
      {rest : List (Program.Exchange Effect)}
      (head : server.answer exchange.request store = some (exchange.reply, middle))
      (tail : Serves middle rest next) : Serves store (exchange :: rest) next

/-- On the server the program comes to the end `a`, and asks for nothing but what is allowed. -/
def Runs {α : Type} (allowed : Effect.Request → Prop) (program : Program Effect α) (store : Store)
    (a : α) (next : Store) : Prop :=
  ∃ trace, program.Reaches trace (.done a) ∧ server.Serves store trace next ∧
    ∀ exchange ∈ trace, allowed exchange.request

variable {server} {α β ε : Type} {allowed : Effect.Request → Prop} {program : Program Effect α}
  {store middle next : Store} {a : α} {first second trace : List (Program.Exchange Effect)}

lemma serves_nil_iff : server.Serves store [] next ↔ next = store := by
  constructor
  · rintro ⟨⟩
    rfl
  · rintro rfl
    exact .nil _

lemma serves_append_iff : server.Serves store (first ++ second) next ↔
    ∃ middle, server.Serves store first middle ∧ server.Serves middle second next := by
  induction first generalizing store with
  | nil =>
    constructor
    · exact fun h => ⟨store, .nil store, h⟩
    · rintro ⟨middle, hfirst, hsecond⟩
      obtain rfl := serves_nil_iff.mp hfirst
      exact hsecond
  | cons exchange rest ih =>
    constructor
    · rintro (_ | ⟨head, tail⟩)
      obtain ⟨middle, hfirst, hsecond⟩ := ih.mp tail
      exact ⟨middle, .cons head hfirst, hsecond⟩
    · rintro ⟨middle, (_ | ⟨head, tail⟩), hsecond⟩
      exact .cons head (ih.mpr ⟨middle, tail, hsecond⟩)

/-- A program on a server comes to one end at most, and on one trace. -/
theorem Serves.unique {other : Store} {b : α} (hfirst : server.Serves store first next)
    (hsecond : server.Serves store second other) (hreaches : program.Reaches first (.done a))
    (hagain : program.Reaches second (.done b)) : first = second ∧ a = b ∧ next = other := by
  induction program generalizing store first second with
  | done c =>
    obtain ⟨rfl, ha⟩ := Program.done_reaches_iff.mp hreaches
    obtain ⟨rfl, hb⟩ := Program.done_reaches_iff.mp hagain
    rw [serves_nil_iff.mp hfirst, serves_nil_iff.mp hsecond]
    exact ⟨rfl, Program.done.inj (ha.trans hb.symm), rfl⟩
  | note event rest ih =>
    exact ih hfirst hsecond (Program.note_reaches_done_iff.mp hreaches)
      (Program.note_reaches_done_iff.mp hagain)
  | ask request answered ih =>
    obtain ⟨reply, rest, hrest, rfl⟩ := Program.ask_reaches_done_iff.mp hreaches
    obtain ⟨reply', rest', hrest', rfl⟩ := Program.ask_reaches_done_iff.mp hagain
    obtain _ | ⟨head, tail⟩ := hfirst
    obtain _ | ⟨head', tail'⟩ := hsecond
    cases head.symm.trans head'
    obtain ⟨rfl, rfl, rfl⟩ := ih reply tail tail' hrest hrest'
    exact ⟨rfl, rfl, rfl⟩

lemma Runs.unique {others : Effect.Request → Prop} {b : α} {other : Store}
    (h : server.Runs allowed program store a next)
    (hagain : server.Runs others program store b other) : a = b ∧ next = other := by
  obtain ⟨first, hreaches, hserves, -⟩ := h
  obtain ⟨second, hreaches', hserves', -⟩ := hagain
  exact (hserves.unique hserves' hreaches hreaches').2

/-- What is allowed may be more. -/
lemma Runs.mono {others : Effect.Request → Prop} (h : server.Runs allowed program store a next)
    (hmore : ∀ request, allowed request → others request) :
    server.Runs others program store a next := by
  obtain ⟨trace, hreaches, hserves, hallowed⟩ := h
  exact ⟨trace, hreaches, hserves, fun exchange hmem => hmore _ (hallowed exchange hmem)⟩

/-- A run that is known is the only one, whatever else is allowed. -/
lemma Runs.iff {others : Effect.Request → Prop} {b : α} {last : Store}
    (h : server.Runs allowed program store a next)
    (hmore : ∀ request, allowed request → others request) :
    server.Runs others program store b last ↔ b = a ∧ last = next := by
  constructor
  · intro hagain
    obtain ⟨rfl, rfl⟩ := h.unique hagain
    exact ⟨rfl, rfl⟩
  · rintro ⟨rfl, rfl⟩
    exact h.mono hmore

@[simp] lemma runs_done_iff {b : α} :
    server.Runs allowed (.done b) store a next ↔ a = b ∧ next = store := by
  constructor
  · rintro ⟨trace, hreaches, hserves, -⟩
    obtain ⟨rfl, hdone⟩ := Program.done_reaches_iff.mp hreaches
    exact ⟨Program.done.inj hdone, serves_nil_iff.mp hserves⟩
  · rintro ⟨rfl, rfl⟩
    exact ⟨[], .here _, .nil _, by simp⟩

/-- What is asked is allowed, and is answered by the server. -/
lemma runs_ask_iff {request : Effect.Request} {answered : Effect.Reply request → Program Effect α} :
    server.Runs allowed (.ask request answered) store a next ↔ allowed request ∧
      ∃ reply middle, server.answer request store = some (reply, middle) ∧
        server.Runs allowed (answered reply) middle a next := by
  constructor
  · rintro ⟨trace, hreaches, hserves, hallowed⟩
    obtain ⟨reply, rest, hrest, rfl⟩ := Program.ask_reaches_done_iff.mp hreaches
    obtain _ | ⟨head, tail⟩ := hserves
    exact ⟨hallowed _ List.mem_cons_self, reply, _, head, rest, hrest, tail,
      fun exchange hmem => hallowed exchange (List.mem_cons_of_mem _ hmem)⟩
  · rintro ⟨hrequest, reply, middle, head, rest, hrest, tail, hallowed⟩
    exact ⟨⟨request, reply⟩ :: rest, .ask hrest, .cons head tail,
      List.forall_mem_cons.mpr ⟨hrequest, hallowed⟩⟩

lemma runs_note_iff {event : Event} :
    server.Runs allowed (.note event program) store a next ↔
      server.Runs allowed program store a next :=
  exists_congr fun _ => and_congr_left' Program.note_reaches_done_iff

lemma runs_bind_iff {f : α → Program Effect β} {b : β} :
    server.Runs allowed (program >>= f) store b next ↔
      ∃ a middle, server.Runs allowed program store a middle ∧
        server.Runs allowed (f a) middle b next := by
  constructor
  · rintro ⟨trace, hreaches, hserves, hallowed⟩
    obtain ⟨first, a, second, hfirst, hsecond, rfl⟩ := Program.bind_reaches_done_iff.mp hreaches
    obtain ⟨middle, hbefore, hafter⟩ := serves_append_iff.mp hserves
    obtain ⟨hallowed, hrest⟩ := List.forall_mem_append.mp hallowed
    exact ⟨a, middle, ⟨first, hfirst, hbefore, hallowed⟩, second, hsecond, hafter, hrest⟩
  · rintro ⟨a, middle, ⟨first, hfirst, hbefore, hallowed⟩, second, hsecond, hafter, hrest⟩
    exact ⟨first ++ second, hfirst.bind hsecond, serves_append_iff.mpr ⟨middle, hbefore, hafter⟩,
      List.forall_mem_append.mpr ⟨hallowed, hrest⟩⟩

/-- A program with the traces of another one, and an end made of the end of that one. -/
lemma runs_iff_of_reaches_iff {other : Program Effect β} {P : β → Prop}
    (h : ∀ trace, program.Reaches trace (.done a) ↔
      ∃ b, other.Reaches trace (.done b) ∧ P b) :
    server.Runs allowed program store a next ↔
      ∃ b, server.Runs allowed other store b next ∧ P b := by
  constructor
  · rintro ⟨trace, hreaches, hserves⟩
    obtain ⟨b, hb, hP⟩ := (h trace).mp hreaches
    exact ⟨b, ⟨trace, hb, hserves⟩, hP⟩
  · rintro ⟨b, ⟨trace, hb, hserves⟩, hP⟩
    exact ⟨trace, (h trace).mpr ⟨b, hb, hP⟩, hserves⟩

/-- A program that asks one question, and an end made of the answer. -/
lemma runs_iff_of_one_question {request : Effect.Request} {P : Effect.Reply request → Prop}
    (h : ∀ trace, program.Reaches trace (.done a) ↔
      ∃ reply, trace = [⟨request, reply⟩] ∧ P reply) :
    server.Runs allowed program store a next ↔ allowed request ∧
      ∃ reply, server.answer request store = some (reply, next) ∧ P reply := by
  constructor
  · rintro ⟨trace, hreaches, hserves, hallowed⟩
    obtain ⟨reply, rfl, hP⟩ := (h trace).mp hreaches
    obtain _ | ⟨head, tail⟩ := hserves
    obtain rfl := serves_nil_iff.mp tail
    exact ⟨hallowed _ List.mem_cons_self, reply, head, hP⟩
  · rintro ⟨hrequest, reply, head, hP⟩
    exact ⟨[⟨request, reply⟩], (h _).mpr ⟨reply, rfl, hP⟩, .cons head (.nil next),
      fun exchange hmem => by rwa [List.mem_singleton.mp hmem]⟩

/-! ### Insertions -/

section Insertions

variable {insert : Sql.Insert} {rows : List Row} {tables : String → Prop}

lemma insert?_of_blocks (h : server.Blocks store insert) (hskips : insert.skipsConflicts = true) :
    server.insert? insert store = some (.ok [], store) := by
  obtain ⟨row, hrow, hclash⟩ := h
  rw [insert?, hrow]
  simp only [Option.bind_eq_bind, Option.bind_some]
  rw [if_pos hclash, if_pos hskips]

lemma Blocks.grows (h : server.Blocks store insert) (hgrows : store.Grows next tables) :
    server.Blocks next insert := by
  obtain ⟨row, hrow, other, hother, hclash⟩ := h
  exact ⟨row, hrow, other, hgrows.kept _ hother, hclash⟩

/-- An insertion that was not refused takes no row away, and leaves one that clashes with its row,
if that clashes with itself. -/
lemma blocks_of_insert? (h : server.insert? insert store = some (.ok rows, next))
    (hself : ∀ row, server.newRow? insert = some row → server.Clash insert.table.name row row)
    (htable : tables insert.table.name) :
    server.Blocks next insert ∧ store.Grows next tables := by
  obtain ⟨row, hrow, h⟩ := Option.bind_eq_some_iff.mp h
  dsimp only at h
  by_cases hclash : ∃ other ∈ store.rows insert.table.name,
      server.Clash insert.table.name other row
  · rw [if_pos hclash] at h
    by_cases hskips : insert.skipsConflicts = true
    · rw [if_pos hskips] at h
      cases h
      exact ⟨⟨row, hrow, hclash⟩, .refl _ _⟩
    · rw [if_neg hskips] at h
      cases h
  · rw [if_neg hclash, written] at h
    split at h
    · cases h
      refine ⟨⟨row, hrow, row, ?_, hself row hrow⟩, fun table => ?_, fun table hother => ?_⟩
      · rw [Store.rows_withRows, if_pos rfl]
        exact List.mem_append_right _ (List.mem_singleton_self row)
      · rw [Store.rows_withRows]
        split
        · rename_i heq
          rw [heq]
          exact List.subset_append_left _ _
        · exact List.Subset.refl _
      · rw [Store.rows_withRows, if_neg]
        rintro rfl
        exact hother htable
    · cases h

end Insertions

/-! ### Programs that may fail -/

section Failing

variable {action : ExceptT ε (Program Effect) α} {f : α → ExceptT ε (Program Effect) β}

/-- A run that succeeds goes through the first part. -/
lemma runs_run_bind_ok_iff {b : β} :
    server.Runs allowed (action >>= f).run store (.ok b) next ↔
      ∃ a middle, server.Runs allowed action.run store (.ok a) middle ∧
        server.Runs allowed (f a).run middle (.ok b) next := by
  rw [ExceptT.run_bind, runs_bind_iff]
  constructor
  · rintro ⟨e | a, middle, haction, hrest⟩
    · cases (runs_done_iff.mp hrest).1
    · exact ⟨a, middle, haction, hrest⟩
  · rintro ⟨a, middle, haction, hrest⟩
    exact ⟨.ok a, middle, haction, hrest⟩

end Failing

/-- What a server makes a program come to can be computed. -/
lemma exists_runs_of_run {test : α × Store → Bool}
    (h : (program.run server.answer (fun _ => pure ()) store).any test = true) :
    ∃ a next, server.Runs (fun _ => True) program store a next ∧ test (a, next) = true := by
  induction program generalizing store with
  | done a => exact ⟨a, store, runs_done_iff.mpr ⟨rfl, rfl⟩, h⟩
  | note event rest ih =>
    obtain ⟨a, next, hrun, htest⟩ := ih h
    exact ⟨a, next, runs_note_iff.mpr hrun, htest⟩
  | ask request answered ih =>
    obtain ⟨final, hrun, htest⟩ := (Option.any_eq_true _ _).mp h
    obtain ⟨⟨reply, middle⟩, hreply, hrest⟩ := Option.bind_eq_some_iff.mp hrun
    obtain ⟨a, next, hruns, htest⟩ := ih reply ((Option.any_eq_true _ _).mpr ⟨_, hrest, htest⟩)
    exact ⟨a, next, runs_ask_iff.mpr ⟨trivial, reply, middle, hreply, hruns⟩, htest⟩

end Server

end EntityGraph
