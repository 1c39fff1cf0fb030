import EntityGraph.Language.Token
import EntityGraph.Text.Blank
/-!
Cutting a text into tokens. Every token is as long as its class allows, blanks only separate, and a
run of characters that begin no token is reported once.
-/
namespace EntityGraph.Language

def isWordStart (c : Char) : Bool := c.isAlpha || c == '_'

def isWordChar (c : Char) : Bool := c.isAlphanum || c == '_'

def keywords : List (List Char × TokenKind) :=
  [(['a', 'n', 'd'], .and), (['o', 'r'], .or), (['n', 'o', 't'], .not),
   (['n', 'u', 'l', 'l'], .null), (['t', 'r', 'u', 'e'], .true), (['f', 'a', 'l', 's', 'e'], .false)]

/-- A word is a keyword, else a name; its first letter tells entities from fields. -/
def wordKind (word : List Char) : TokenKind :=
  match keywords.lookup word with
  | some kind => kind
  | none => if word.head?.any Char.isUpper then .entityIdentifier else .identifier

/-- Whether a text could be written where a field is named. -/
def isIdentifier (text : List Char) : Bool :=
  text.head?.any (fun c => c.isLower || c == '_') && text.all isWordChar &&
    wordKind text == .identifier

/-- Whether a text could be written where an entity is named. -/
def isEntityIdentifier (text : List Char) : Bool :=
  text.head?.any Char.isUpper && text.all isWordChar

/-- How many characters of a string there are behind its opening quote, the closing one included. -/
def stringLength? : List Char → Option Nat
  | [] => none
  | '\'' :: _ => some 1
  | ['\\'] => none
  | '\\' :: _ :: rest => (stringLength? rest).map (· + 2)
  | _ :: rest => (stringLength? rest).map (· + 1)

def digitCount (text : List Char) : Nat := (text.takeWhile Char.isDigit).length

/-- A point and at least one digit, or nothing. -/
def fractionLength : List Char → Nat
  | '.' :: rest => if digitCount rest = 0 then 0 else digitCount rest + 1
  | _ => 0

def signLength : List Char → Nat
  | '+' :: _ => 1
  | '-' :: _ => 1
  | _ => 0

/-- A mark, a sign or none, and at least one digit, or nothing. -/
def exponentLength : List Char → Nat
  | c :: rest =>
    let sign := signLength rest
    let digits := digitCount (rest.drop sign)
    if (c = 'e' ∨ c = 'E') ∧ digits ≠ 0 then digits + sign + 1 else 0
  | [] => 0

/-- The length of the number that a text begins with: a minus or none, digits, and then a fraction
and an exponent where they are complete. -/
def numberLength (text : List Char) : Nat :=
  let minus := if text.head? = some '-' then 1 else 0
  let whole := minus + digitCount (text.drop minus)
  let mantissa := whole + fractionLength (text.drop whole)
  mantissa + exponentLength (text.drop mantissa)

/-- The kind of the token that begins with `c`, and how many characters of `rest` belong to it. -/
def lexeme? (c : Char) (rest : List Char) : Option (TokenKind × Nat) :=
  let beforeEqual := rest.head? = some '='
  match c with
  | '$' => some (.dollar, 0)
  | '.' => some (.dot, 0)
  | ',' => some (.comma, 0)
  | '(' => some (.leftParenthesis, 0)
  | ')' => some (.rightParenthesis, 0)
  | '[' => some (.leftBracket, 0)
  | ']' => some (.rightBracket, 0)
  | '=' => some (.equals, 0)
  | '!' => if beforeEqual then some (.notEquals, 1) else none
  | '<' => some (if beforeEqual then (.lowerEqual, 1) else (.lower, 0))
  | '>' => some (if beforeEqual then (.greaterEqual, 1) else (.greater, 0))
  | '\'' => (stringLength? rest).map fun length => (.string, length)
  | '-' =>
    if rest.head?.any Char.isDigit then some (.number, numberLength (c :: rest) - 1) else none
  | _ =>
    if c.isDigit then some (.number, numberLength (c :: rest) - 1)
    else if isWordStart c then
      let tail := rest.takeWhile isWordChar
      some (wordKind (c :: tail), tail.length)
    else none

/-- A stretch of the input. -/
inductive Piece where
  | blank (c : Char)
  | token (kind : TokenKind) (image : List Char)
  | unmatched (text : List Char)
deriving DecidableEq

def Piece.chars : Piece → List Char
  | blank c => [c]
  | token _ image => image
  | unmatched text => text

/-- The pieces of a text in their order. A string without its closing quote takes all the rest. -/
def pieces : List Char → List Piece
  | [] => []
  | c :: rest =>
    if Text.isBlank c then .blank c :: pieces rest
    else
      match lexeme? c rest with
      | some (kind, extra) => .token kind (c :: rest.take extra) :: pieces (rest.drop extra)
      | none => if c = '\'' then [.unmatched (c :: rest)] else .unmatched [c] :: pieces rest
termination_by text => text.length
decreasing_by
  · exact Nat.lt_succ_self _
  · exact Nat.lt_succ_of_le (List.length_drop ▸ Nat.sub_le _ _)
  · exact Nat.lt_succ_self _

/-- The pieces make up the text. -/
theorem flatMap_chars_pieces (text : List Char) : (pieces text).flatMap Piece.chars = text := by
  fun_induction pieces text <;> simp_all [Piece.chars]

/-- Neighbouring unmatched pieces as one. -/
def joinUnmatched : List Piece → List Piece
  | [] => []
  | .unmatched text :: rest =>
    match joinUnmatched rest with
    | .unmatched more :: others => .unmatched (text ++ more) :: others
    | others => .unmatched text :: others
  | piece :: rest => piece :: joinUnmatched rest

@[simp] theorem flatMap_chars_joinUnmatched (ps : List Piece) :
    (joinUnmatched ps).flatMap Piece.chars = ps.flatMap Piece.chars := by
  fun_induction joinUnmatched ps <;> simp_all [Piece.chars]

/-- Characters that begin no token. -/
structure Unmatched where
  start : Nat
  text : List Char
deriving DecidableEq

def Unmatched.message (unmatched : Unmatched) : String :=
  s!"unexpected character(s) '{String.ofList unmatched.text}' at offset {unmatched.start}, " ++
    s!"skipped {unmatched.text.length} character(s)."

/-- The tokens of a text and what lies between them beside blanks. -/
structure Lexed where
  tokens : List Token
  errors : List Unmatched

/-- Gives every piece its place, `offset` being that of the first. -/
def Lexed.ofPieces (offset : Nat) : List Piece → Lexed
  | [] => ⟨[], []⟩
  | piece :: rest =>
    let lexed := ofPieces (offset + byteLength piece.chars) rest
    match piece with
    | .blank _ => lexed
    | .token kind image => { lexed with tokens := ⟨kind, image, offset⟩ :: lexed.tokens }
    | .unmatched text => { lexed with errors := ⟨offset, text⟩ :: lexed.errors }

def tokenize (text : List Char) : Lexed := .ofPieces 0 (joinUnmatched (pieces text))

end EntityGraph.Language
