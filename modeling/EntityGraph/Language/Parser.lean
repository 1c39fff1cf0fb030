import EntityGraph.Language.Fault
/-!
Parsers over tokens. A parser returns a value and the tokens that it left, never more than it was
given, so that repetition ends with the tokens.
-/
namespace EntityGraph.Language

/-- A value read from the front of `tokens`. -/
structure Parsed (α : Type) (tokens : List Token) where
  value : α
  rest : List Token
  length_rest_le : rest.length ≤ tokens.length

def Parser (α : Type) : Type := (tokens : List Token) → Except Fault (Parsed α tokens)

namespace Parser

variable {α β : Type}

def succeed (a : α) : Parser α := fun tokens => .ok ⟨a, tokens, Nat.le_refl _⟩

def andThen (first : Parser α) (next : α → Parser β) : Parser β := fun tokens =>
  match first tokens with
  | .error fault => .error fault
  | .ok ⟨a, middle, hm⟩ =>
    match next a middle with
    | .error fault => .error fault
    | .ok ⟨b, rest, hr⟩ => .ok ⟨b, rest, Nat.le_trans hr hm⟩

instance : Monad Parser where
  pure := succeed
  bind := andThen

def fail (fault : Fault) : Parser α := fun _ => .error fault

def ofExcept : Except Fault α → Parser α
  | .ok a => succeed a
  | .error fault => fail fault

/-- Fails at the next token. -/
def expected (what : Expectation) : Parser α := fun tokens =>
  .error (.misplaced (.expected what tokens.head?))

/-- The next token, which stays. -/
def peek : Parser (Option Token) := fun tokens => .ok ⟨tokens.head?, tokens, Nat.le_refl _⟩

/-- Whether the next token is of a kind; it stays. -/
def comes (kind : TokenKind) : Parser Bool := do return (← peek).any (·.kind == kind)

def skip : Parser Unit := fun tokens => .ok ⟨(), tokens.drop 1, by simp⟩

/-- Takes a token of the kind, or nothing. -/
def accept (kind : TokenKind) : Parser Bool := do
  if ← comes kind then
    skip
    return true
  else return false

/-- Takes a token of the kind and gives its text. -/
def expect (kind : TokenKind) : Parser String := fun
  | [] => .error (.misplaced (.expected (.kind kind) none))
  | token :: rest =>
    if token.kind = kind then .ok ⟨token.text, rest, by simp⟩
    else .error (.misplaced (.expected (.kind kind) (some token)))

/-- Goes on from `b` for as long as a separator stands before the next step. -/
def iterate (separator : TokenKind) (step : β → Parser β) (b : β) : Parser β := fun tokens =>
  match tokens with
  | [] => .ok ⟨b, [], Nat.le_refl _⟩
  | token :: rest =>
    if token.kind = separator then
      match step b rest with
      | .error fault => .error fault
      | .ok ⟨next, middle, hm⟩ =>
        match iterate separator step next middle with
        | .error fault => .error fault
        | .ok ⟨last, final, hf⟩ =>
          .ok ⟨last, final, Nat.le_trans hf (Nat.le_succ_of_le hm)⟩
    else .ok ⟨b, token :: rest, Nat.le_refl _⟩
termination_by tokens => tokens.length
decreasing_by exact Nat.lt_succ_of_le hm

/-- Any number of items, a separator before each. -/
def following (separator : TokenKind) (item : Parser α) : Parser (List α) :=
  iterate separator (fun items => do return items ++ [← item]) []

/-- The first item and all others, a separator between every two. -/
def separated (separator : TokenKind) (item : Parser α) : Parser (α × List α) := do
  return (← item, ← following separator item)

/-- Reads a whole text by a rule. -/
def run (rule : Parser α) (text : String) : Except ExpressionError α :=
  match tokenize text.toList with
  | ⟨tokens, []⟩ =>
    match rule tokens with
    | .error fault => .error (fault.within text)
    | .ok ⟨a, [], _⟩ => .ok a
    | .ok ⟨_, token :: _, _⟩ => .error (.misplaced text (.redundant token))
  | ⟨_, errors⟩ => .error (.unmatched text errors)

end Parser

end EntityGraph.Language
