/-!
Tokens of the query language: what a token is, its own text, and the bytes of the input that it
covers.
-/
namespace EntityGraph.Language

inductive TokenKind where
  | identifier
  | entityIdentifier
  | dollar
  | dot
  | comma
  | leftParenthesis
  | rightParenthesis
  | leftBracket
  | rightBracket
  | equals
  | notEquals
  | lower
  | lowerEqual
  | greater
  | greaterEqual
  | and
  | or
  | not
  | null
  | true
  | false
  | string
  | number
deriving DecidableEq

/-- The kind as messages name it. -/
def TokenKind.description : TokenKind → String
  | identifier => "an identifier"
  | entityIdentifier => "an entity identifier"
  | dollar => "'$'"
  | dot => "'.'"
  | comma => "','"
  | leftParenthesis => "'('"
  | rightParenthesis => "')'"
  | leftBracket => "'['"
  | rightBracket => "']'"
  | equals => "'='"
  | notEquals => "'!='"
  | lower => "'<'"
  | lowerEqual => "'<='"
  | greater => "'>'"
  | greaterEqual => "'>='"
  | and => "'and'"
  | or => "'or'"
  | not => "'not'"
  | null => "'null'"
  | true => "'true'"
  | false => "'false'"
  | string => "a string"
  | number => "a number"

/-- How many bytes a text takes in UTF-8. -/
def byteLength : List Char → Nat
  | [] => 0
  | c :: rest => c.utf8Size + byteLength rest

@[simp] theorem byteLength_append (a b : List Char) :
    byteLength (a ++ b) = byteLength a + byteLength b := by
  induction a with
  | nil => simp [byteLength]
  | cons c rest ih => simp [byteLength, ih, Nat.add_assoc]

/-- A token; `start` counts the bytes of the input before it. -/
structure Token where
  kind : TokenKind
  image : List Char
  start : Nat
deriving DecidableEq

namespace Token

/-- The first byte behind the token. -/
def stop (token : Token) : Nat := token.start + byteLength token.image

def text (token : Token) : String := String.ofList token.image

end Token

/-!
### String literals

A backslash gives the next character a meaning of its own or takes its meaning away.
-/

/-- The character that a backslash and `c` stand for. -/
def escaped (c : Char) : Char :=
  match c with
  | 'b' => '\x08'
  | 'f' => '\x0c'
  | 'n' => '\n'
  | 'r' => '\r'
  | 't' => '\t'
  | 'v' => '\x0b'
  | c => c

/-- A backslash at the end stands for itself. -/
def resolveEscapes : List Char → List Char
  | '\\' :: c :: rest => escaped c :: resolveEscapes rest
  | c :: rest => c :: resolveEscapes rest
  | [] => []

/-- What stands between two quotes at the ends. -/
def betweenQuotes? : List Char → Option (List Char)
  | '\'' :: rest => if rest.getLast? = some '\'' then some rest.dropLast else none
  | _ => none

/-- The text of a string literal; a text without both quotes is taken whole. -/
def unescape (image : List Char) : List Char :=
  resolveEscapes ((betweenQuotes? image).getD image)

/-- The literal that writes a text. -/
def quote (text : List Char) : List Char :=
  '\'' :: (text.flatMap fun c => if c = '\\' ∨ c = '\'' then ['\\', c] else [c]) ++ ['\'']

example : unescape "'a\\tb\\\\d'".toList = "a\tb\\d".toList := by decide +kernel
example : unescape ['\''] = ['\''] ∧ unescape ['a', '\\'] = ['a', '\\'] := by decide +kernel

end EntityGraph.Language
