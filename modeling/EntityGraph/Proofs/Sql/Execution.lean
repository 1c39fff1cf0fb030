import EntityGraph.Mutation.Session
import EntityGraph.Proofs.Sql.Evaluation
/-!
The effect of statements on the rows of a database, and of actions that send them. The database
answers every deletion, update and command, and the access rules restrict nothing; questions of
other kinds have no answer here.
-/
namespace EntityGraph

variable {α β : Type}

/-- Puts a value into every column of a name. -/
def Row.assign (column : String) (value : Value) (row : Row) : Row :=
  row.map fun (name, old) => (name, if name = column then value else old)

namespace Store

variable (store : Store)

/-- The rows of a table that a statement is about, if its condition has a truth value on each. -/
def chosen? (table : Sql.TableRef) (condition : Option Sql.ConditionTree) : Option (Row → Bool) :=
  if ∀ row ∈ store.rows table.name,
      (Sql.conditionTruth? store condition [(table.referenceName, row)]).isSome then
    some fun row => Sql.conditionTruth? store condition [(table.referenceName, row)] = some .holds
  else none

def withRows (name : String) (rows : List Row) : Store :=
  ⟨fun other => if other = name then rows else store.rows other⟩

lemma rows_withRows (name : String) (rows : List Row) (other : String) :
    (store.withRows name rows).rows other = if other = name then rows else store.rows other := rfl

/-- Some columns of some rows, as a statement returns them. -/
def returned? (columns : List Sql.ColumnRef) (rows : List Row) : Option Database.ResultSet := do
  let values ← rows.mapM fun row => columns.mapM fun column => row.find? column.name
  some ⟨columns.map (·.name), values, none⟩

def delete? (delete : Sql.Delete) : Option (Database.ResultSet × Store) := do
  let chosen ← store.chosen? delete.table delete.condition
  let rows := store.rows delete.table.name
  let set ← returned? delete.returning (rows.filter chosen)
  some (set, store.withRows delete.table.name (rows.filter (!chosen ·)))

/-- A row after an update; the new values are those of the expressions on the old row. -/
def assigned? (table : Sql.TableRef) (values : List (Sql.ColumnRef × Sql.Expr)) (row : Row) :
    Option Row :=
  values.foldlM (fun result (column, expr) => do
    let value ← expr.value? [(table.referenceName, row)]
    some (result.assign column.name value)) row

def update? (update : Sql.Update) : Option (Nat × Store) := do
  let chosen ← store.chosen? update.table update.condition
  let rows := store.rows update.table.name
  let updated ← rows.mapM fun row =>
    if chosen row then assigned? update.table update.values row else some row
  some ((rows.filter chosen).length, store.withRows update.table.name updated)

def answer : (request : Effect.Request) → StateT Store Option (Effect.Reply request)
  | EffectRequest.query (.delete delete) => fun store => do
    let (set, next) ← store.delete? delete
    some (.ok set, next)
  | EffectRequest.execute (.update update) => fun store => do
    let (count, next) ← store.update? update
    some (.ok count, next)
  | EffectRequest.command _ => fun store => some (.ok (), store)
  | EffectRequest.predicate .. => fun store => some (.empty, store)
  | _ => fun _ => none

end Store

theorem Program.run_bind {I : Interface} {m : Type → Type} [Monad m] [LawfulMonad m]
    (answer : (request : I.Request) → m (I.Reply request)) (take : Event → m Unit)
    (program : Program I α) (next : α → Program I β) :
    (program >>= next).run answer take =
      program.run answer take >>= fun a => (next a).run answer take := by
  induction program with
  | done a => simp [run]
  | note event rest ih => simp [run, ih]
  | ask request rest ih => simp [run, ih]

namespace Mutation

/-- What an action comes to on a database, and the database afterwards. -/
def outcome (action : Action Effect α) (store : Store) : Option (Except Failure α × Store) :=
  action.run.run Store.answer (fun _ => pure ()) store

variable {store next : Store} {a : α}

lemma outcome_bind {action : Action Effect α} (h : outcome action store = some (.ok a, next))
    (rest : α → Action Effect β) : outcome (action >>= rest) store = outcome (rest a) next := by
  rw [outcome, ExceptT.run_bind, Program.run_bind]
  show (action.run.run Store.answer (fun _ => pure ()) store).bind _ = _
  rw [outcome] at h
  rw [h]
  rfl

namespace Session

variable (session : Session)

lemma outcome_logged (text : String) :
    outcome (session.logged text) store = some (.ok (), store) := by
  rw [logged]
  split <;> rfl

lemma outcome_command (text : String) :
    outcome (session.command text) store = some (.ok (), store) := by
  rw [command, outcome_bind (session.outcome_logged text)]
  rfl

lemma outcome_delete {delete : Sql.Delete} {set : Database.ResultSet}
    (h : store.delete? delete = some (set, next)) :
    outcome (session.query (.delete delete)) store = some (.ok set, next) := by
  rw [query, outcome_bind (session.outcome_logged _)]
  show ((store.delete? delete).bind fun (set, next) => some (Except.ok set, next)).bind _ = _
  rw [h]
  rfl

lemma outcome_update {update : Sql.Update} {count : Nat}
    (h : store.update? update = some (count, next)) :
    outcome (session.execute (.update update)) store = some (.ok count, next) := by
  rw [execute, outcome_bind (session.outcome_logged _)]
  show ((store.update? update).bind fun (count, next) => some (Except.ok count, next)).bind _ = _
  rw [h]
  rfl

lemma outcome_permitted {entity : Entity} {filter : Filter} {tree : Sql.ConditionTree}
    (h : filter.toTree session.schema entity = .ok tree) (operation : AccessOperation)
    (fields : List String) :
    outcome (session.permitted entity filter operation fields) store = some (.ok tree, store) := by
  show outcome
    (liftExcept (((filter.andWith .empty).toTree session.schema entity).mapError .schema)) store = _
  rw [Filter.andWith_empty, h]
  rfl

end Session

end Mutation

end EntityGraph
