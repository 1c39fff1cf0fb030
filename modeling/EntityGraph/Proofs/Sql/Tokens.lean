import EntityGraph.Proofs.Number.Digits
import EntityGraph.Proofs.Sql.Rendering
/-!
# The tokens of written SQL

Text is read from left to right, and each token goes on as long as it can. What stands in front of a
blank, a closing parenthesis or a comma is therefore read by itself, so the tokens of a text written
piece by piece are those of its pieces.
-/
namespace EntityGraph.Sql

inductive Token where
  /-- A keyword or a number. -/
  | word (text : String)
  /-- A quoted name, without its quotes. -/
  | name (text : String)
  | placeholder (number : Nat)
  | operator (text : String)
  | symbol (c : Char)
deriving DecidableEq

/-- A token of which the end has not been reached. -/
inductive Pending where
  | nothing
  | word (chars : List Char)
  | placeholder (digits : List Char)
  | operator (chars : List Char)
  | symbol (c : Char)
  | quoted (chars : List Char)
  /-- Behind a quote, which ends the name or stands in it if another one follows. -/
  | closed (chars : List Char)

def isWordChar (c : Char) : Bool := c.isAlphanum || c = '_'

def isOperatorChar (c : Char) : Bool := c = '<' || c = '>' || c = '='

namespace Pending

def ofChar (c : Char) : Pending :=
  if c = ' ' then nothing
  else if c = '"' then quoted []
  else if c = '$' then placeholder []
  else if isOperatorChar c then operator [c]
  else if isWordChar c then word [c]
  else symbol c

/-- The token with one more character, if it goes on with it. -/
def extend? : Pending → Char → Option Pending
  | word chars, c => if isWordChar c then some (word (chars ++ [c])) else none
  | placeholder digits, c => if c.isDigit then some (placeholder (digits ++ [c])) else none
  | operator chars, c => if isOperatorChar c then some (operator (chars ++ [c])) else none
  | quoted chars, c => some (if c = '"' then closed chars else quoted (chars ++ [c]))
  | closed chars, c => if c = '"' then some (quoted (chars ++ ['"'])) else none
  | nothing, _ | symbol _, _ => none

/-- What the text so far has been read as; a quote or a dollar sign alone stays a symbol. -/
def tokens : Pending → List Token
  | nothing => []
  | word chars => [.word (.ofList chars)]
  | placeholder [] => [.symbol '$']
  | placeholder digits => [.placeholder (Number.ofDigits digits)]
  | operator chars => [.operator (.ofList chars)]
  | symbol c => [.symbol c]
  | quoted chars => [.symbol '"', .word (.ofList chars)]
  | closed chars => [.name (.ofList chars)]

def lex : Pending → List Char → List Token
  | pending, [] => pending.tokens
  | pending, c :: rest =>
    match pending.extend? c with
    | some longer => lex longer rest
    | none => pending.tokens ++ lex (ofChar c) rest

end Pending

def tokenize (text : List Char) : List Token := Pending.nothing.lex text

def isBreak (c : Char) : Bool := c = ' ' || c = ')' || c = ','

/-- Text in front of which every token but an open name ends. -/
def Breaks (text : List Char) : Prop := ∀ c ∈ text.head?, isBreak c

/-- Text that is there, and in front of which every token but an open name ends. -/
def Cuts (text : String) : Prop := text.toList.head?.any isBreak

section

variable {text more : List Char} {tokens others : List Token}

namespace Pending

/-- A name that is not at its end takes whatever follows. -/
def IsOpen : Pending → Prop
  | quoted _ => True
  | _ => False

lemma extend?_eq_none {pending : Pending} (hopen : ¬ pending.IsOpen) {c : Char}
    (hc : isBreak c) : pending.extend? c = none := by
  obtain (rfl | rfl) | rfl : (c = ' ' ∨ c = ')') ∨ c = ',' := by simpa [isBreak] using hc
  all_goals
    cases pending with
    | quoted => exact absurd trivial hopen
    | _ => rfl

/-- Where a token ends, the rest of the text is read by itself. -/
lemma lex_of_extend?_eq_none {pending : Pending}
    (h : ∀ c ∈ text.head?, pending.extend? c = none) :
    pending.lex text = pending.tokens ++ tokenize text := by
  cases text with
  | nil => exact (List.append_nil _).symm
  | cons c rest =>
    rw [lex, h c rfl]
    rfl

lemma lex_of_breaks {pending : Pending} (hopen : ¬ pending.IsOpen) (h : Breaks text) :
    pending.lex text = pending.tokens ++ tokenize text :=
  lex_of_extend?_eq_none fun c hc => extend?_eq_none hopen (h c hc)

lemma lex_symbol (c : Char) (text : List Char) :
    (symbol c).lex text = .symbol c :: tokenize text :=
  lex_of_extend?_eq_none fun _ _ => rfl

/-- The characters of a name with its quotes doubled are read as the name. -/
lemma lex_doubleQuotes (chars name : List Char) :
    (quoted chars).lex (doubleQuotes name ++ '"' :: text) = (closed (chars ++ name)).lex text := by
  induction name generalizing chars with
  | nil => simp [doubleQuotes, lex, extend?]
  | cons c rest ih =>
    -- A quote in the name closes it, and the quote behind that one opens it again.
    by_cases hc : c = '"'
    · simpa [doubleQuotes, hc, lex, extend?] using ih (chars ++ ['"'])
    · simpa [doubleQuotes, hc, lex, extend?] using ih (chars ++ [c])

lemma lex_digits {digits : List Char} (h : ∀ c ∈ digits, c.isDigit) (earlier : List Char) :
    (placeholder earlier).lex (digits ++ text) = (placeholder (earlier ++ digits)).lex text := by
  induction digits generalizing earlier with
  | nil => simp
  | cons c rest ih =>
    rw [List.forall_mem_cons] at h
    simpa [lex, extend?, h.1] using ih h.2 (earlier ++ [c])

end Pending

/-- The text has these tokens whatever follows it. -/
def Opens (text : List Char) (tokens : List Token) : Prop :=
  ∀ rest, tokenize (text ++ rest) = tokens ++ tokenize rest

/-- The text has these tokens in front of everything that ends a token. -/
def Spells (text : List Char) (tokens : List Token) : Prop :=
  ∀ rest, Breaks rest → tokenize (text ++ rest) = tokens ++ tokenize rest

lemma Opens.append (h : Opens text tokens) (hmore : Spells more others) :
    Spells (text ++ more) (tokens ++ others) := fun rest hrest => by
  rw [List.append_assoc, h, hmore rest hrest, List.append_assoc]

lemma Spells.append (h : Spells text tokens)
    (hbreaks : ∀ rest, Breaks rest → Breaks (more ++ rest)) (hmore : Spells more others) :
    Spells (text ++ more) (tokens ++ others) := fun rest hrest => by
  rw [List.append_assoc, h _ (hbreaks rest hrest), hmore rest hrest, List.append_assoc]

/-- A text that ends in a token that is not at its end yet. -/
lemma spells_of_lex {pending : Pending} (hopen : ¬ pending.IsOpen)
    (h : ∀ rest, tokenize (text ++ rest) = tokens ++ pending.lex rest) :
    Spells text (tokens ++ pending.tokens) := fun rest hrest => by
  rw [h, Pending.lex_of_breaks hopen hrest, List.append_assoc]

lemma spells_quoted (name : String) : Spells (quoted name) [.name name] := by
  have hlex (rest : List Char) :
      tokenize (quoted name ++ rest) = [] ++ (Pending.closed name.toList).lex rest := by
    rw [quoted_append]
    exact Pending.lex_doubleQuotes [] name.toList
  simpa [Pending.tokens] using spells_of_lex id hlex

example : tokenize "\"a\"\"b\" <> $12".toList =
    [.name "a\"b", .operator "<>", .placeholder 12] := by decide +kernel

lemma spells_placeholder (number : Nat) :
    Spells ('$' :: (toString number).toList) [.placeholder number] := by
  have hdigits : (toString number).toList = Nat.toDigits 10 number := Nat.toList_repr
  have hlex (rest : List Char) : tokenize ('$' :: Nat.toDigits 10 number ++ rest) =
      [] ++ (Pending.placeholder (Nat.toDigits 10 number)).lex rest :=
    Pending.lex_digits (fun c => Number.isDigit_of_mem_toDigits) []
  have htokens : (Pending.placeholder (Nat.toDigits 10 number)).tokens = [.placeholder number] := by
    rw [Pending.tokens, Number.ofDigits_toDigits]
    exact Nat.toDigits_ne_nil
  rw [hdigits, ← htokens]
  exact spells_of_lex id hlex

end

/-! ### Pieces -/

section

variable {tokens others : List Token} {count : Nat} {pieces following : List Piece}
  {text : String}

/-- The tokens of the pieces behind `count` parameters. -/
def Writes (count : Nat) (pieces : List Piece) (tokens : List Token) : Prop :=
  Spells (pieceChars count pieces) tokens

lemma pieceChars_append (count : Nat) (pieces following : List Piece) :
    pieceChars count (pieces ++ following) =
      pieceChars count pieces ++ pieceChars (count + (pieceParams pieces).length) following := by
  induction pieces generalizing count with
  | nil => rfl
  | cons piece rest ih =>
    cases piece with
    | text => simp [pieceChars, ih]
    | name => simp [pieceChars, ih]
    | param => simp [pieceChars, ih, Nat.add_assoc, Nat.add_comm 1]

lemma writes_text (h : Spells text.toList tokens) : Writes count [.text text] tokens := by
  simpa [Writes, pieceChars] using h

lemma writes_name (count : Nat) (name : String) : Writes count [.name [name]] [.name name] := by
  simpa [Writes, pieceChars, quotedPath] using spells_quoted name

lemma writes_param (count : Nat) (value : Value) :
    Writes count [.param value] [.placeholder (count + 1)] := by
  simpa [Writes, pieceChars] using spells_placeholder (count + 1)

lemma Writes.opened {token : Token} (hpieces : Writes count pieces tokens)
    (h : Opens text.toList [token]) : Writes count (.text text :: pieces) (token :: tokens) :=
  h.append hpieces

/-- Pieces followed by a text in front of which their last token ends. -/
lemma Writes.append (h : Writes count pieces tokens) (hcuts : Cuts text)
    (hfollowing : Writes (count + (pieceParams pieces).length) (.text text :: following) others) :
    Writes count (pieces ++ .text text :: following) (tokens ++ others) := by
  have hbreaks (rest : List Char) : Breaks (text.toList ++ rest) := by
    rw [Cuts] at hcuts
    cases htext : text.toList with
    | nil => simp [htext] at hcuts
    | cons c tail => simpa [Breaks, htext] using hcuts
  rw [Writes, pieceChars_append]
  refine Spells.append h (fun rest _ => ?_) hfollowing
  rw [pieceChars, List.append_assoc]
  exact hbreaks _

lemma writes_nil (count : Nat) : Writes count [] [] := fun _ _ => rfl

lemma Writes.parenthesized (h : Writes count pieces tokens) :
    Writes count (parenthesized pieces) (.symbol '(' :: tokens ++ [.symbol ')']) := by
  have hopen : Opens "(".toList [.symbol '('] := fun rest => Pending.lex_symbol '(' rest
  have hclose : Opens ")".toList [.symbol ')'] := fun rest => Pending.lex_symbol ')' rest
  have hclosed : Writes count (pieces ++ [.text ")"]) (tokens ++ [.symbol ')']) :=
    h.append rfl ((writes_nil _).opened hclose)
  exact hclosed.opened hopen

end

end EntityGraph.Sql
