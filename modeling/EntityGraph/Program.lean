import EntityGraph.Event
/-!
Programs as trees: a program is done, reports an event and goes on, or asks its surroundings a
question and goes on with the answer. Interpreting one interface in another replaces every question
by a program that answers it.
-/
namespace EntityGraph

/-- The questions that a program may ask, and the answers to each. -/
structure Interface where
  Request : Type
  Reply : Request → Type

inductive Program (I : Interface) (α : Type) where
  | done (result : α)
  | note (event : Event) (next : Program I α)
  | ask (request : I.Request) (next : I.Reply request → Program I α)

namespace Program

variable {I J : Interface} {α β γ : Type}

def bind (program : Program I α) (next : α → Program I β) : Program I β :=
  match program with
  | .done a => next a
  | .note event rest => .note event (rest.bind next)
  | .ask request rest => .ask request fun reply => (rest reply).bind next

instance : Monad (Program I) where
  pure := .done
  bind := bind

@[simp] theorem done_bind (a : α) (next : α → Program I β) : (Program.done a >>= next) = next a :=
  rfl

@[simp] theorem pure_eq_done (a : α) : (pure a : Program I α) = .done a := rfl

@[simp] theorem note_bind (event : Event) (rest : Program I α) (next : α → Program I β) :
    (Program.note event rest >>= next) = .note event (rest >>= next) := rfl

@[simp] theorem ask_bind (request : I.Request) (rest : I.Reply request → Program I α)
    (next : α → Program I β) :
    (Program.ask request rest >>= next) = .ask request fun reply => rest reply >>= next := rfl

theorem bind_done (program : Program I α) : (program >>= Program.done) = program := by
  induction program with
  | done a => rfl
  | note event rest ih => simp [ih]
  | ask request rest ih => simp [ih]

theorem bind_assoc (program : Program I α) (f : α → Program I β) (g : β → Program I γ) :
    ((program >>= f) >>= g) = program >>= fun a => f a >>= g := by
  induction program with
  | done a => rfl
  | note event rest ih => simp [ih]
  | ask request rest ih => simp [ih]

instance : LawfulMonad (Program I) := LawfulMonad.mk' _
  bind_done (fun _ _ => rfl) bind_assoc

def request (request : I.Request) : Program I (I.Reply request) := .ask request .done

def report (event : Event) : Program I Unit := .note event (.done ())

def reportAll (events : List Event) : Program I Unit :=
  events.foldr (fun event rest => .note event rest) (.done ())

/-- Runs a program in a monad that can answer its questions and take its reports. -/
def run {m : Type → Type} [Monad m] (answer : (request : I.Request) → m (I.Reply request))
    (take : Event → m Unit) : Program I α → m α
  | .done a => pure a
  | .note event rest => do
    take event
    rest.run answer take
  | .ask request rest => do
    let reply ← answer request
    (rest reply).run answer take

/-- Answers every question by a program of another interface. -/
def interpret (answer : (request : I.Request) → Program J (I.Reply request)) :
    Program I α → Program J α
  | .done a => .done a
  | .note event rest => .note event (rest.interpret answer)
  | .ask request rest => (answer request).bind fun reply => (rest reply).interpret answer

/-- Runs programs one after another. -/
def sequence : List (Program I α) → Program I (List α)
  | [] => .done []
  | program :: rest => do
    let a ← program
    let results ← sequence rest
    .done (a :: results)

end Program

end EntityGraph
