import EntityGraph.InputError
import EntityGraph.Language.Environment
import EntityGraph.Language.Lexer
/-!
Why a text is no expression, and the message for it.
-/
namespace EntityGraph.Language

/-- What a token was expected to be. -/
inductive Expectation where
  | kind (kind : TokenKind)
  | comparison
  | value
deriving DecidableEq

def Expectation.description : Expectation → String
  | kind k => k.description
  | comparison => "a comparison operator"
  | value => "a string, a number or a literal"

/-- Tokens that the grammar does not allow here. -/
inductive Misplaced where
  | expected (what : Expectation) (found : Option Token)
  | redundant (found : Token)
deriving DecidableEq

def Misplaced.message : Misplaced → String
  | expected what (some token) =>
    s!"Expecting {what.description} but found '{token.text}' at offset {token.start}."
  | expected what none =>
    s!"Expecting {what.description} but reached the end of the input."
  | redundant token =>
    "Redundant input, expecting the end of the input but found " ++
      s!"'{token.text}' at offset {token.start}."

/-- An expression that follows the grammar and still means nothing. -/
inductive Unbound where
  | restrictedField (field : String)
  | reducedList (field : String)
  | orderedNull
  | direction
  | variableKind (kind : String)
  | fieldName (variableName : String)
  | entityName (variableName : String)
deriving DecidableEq

/-- The message within the expression `input`. -/
def Unbound.message (input : String) : Unbound → String
  | restrictedField field =>
    s!"Cannot parse '{input}': the last field '{field}' is being reduced or filtered, which, " ++
      "grammatically, makes it a relation but a single field is expected."
  | reducedList field =>
    s!"Cannot parse '{input}': the last field '{field}' is being reduced, which, grammatically, " ++
      "makes it a has-one relation but a has-many relation is expected."
  | orderedNull =>
    "The null keyword as a right hand operand can only be tested for (in)equality."
  | direction => "The only valid order directions are `asc` and `desc`."
  | variableKind kind => s!"A variable can resolve to a literal, string or a number, not {kind}"
  | fieldName name => s!"The value ${name} is not a valid field identifier."
  | entityName name => s!"The value of the variable ${name} is not a valid entity identifier."

inductive Fault where
  | misplaced (fault : Misplaced)
  | unbound (fault : Unbound)
  | environment (e : EnvironmentError)
  | input (e : InputError)
deriving DecidableEq

/-- A text that is not read as an expression. -/
inductive ExpressionError where
  | unmatched (input : String) (errors : List Unmatched)
  | misplaced (input : String) (fault : Misplaced)
  | unbound (input : String) (fault : Unbound)
  | environment (e : EnvironmentError)
  | input (e : InputError)
deriving DecidableEq

/-- A fault within a whole text. -/
def Fault.within (text : String) : Fault → ExpressionError
  | misplaced f => .misplaced text f
  | unbound f => .unbound text f
  | environment e => .environment e
  | input e => .input e

def ExpressionError.message : ExpressionError → String
  | unmatched text errors =>
    s!"Failed to tokenize '{text}'.\n\n" ++ "\n".intercalate (errors.map Unmatched.message)
  | misplaced text f => s!"Failed to parse '{text}'.\n\n{f.message}"
  | unbound text f => f.message text
  | environment e => e.message
  | input e => e.message

end EntityGraph.Language
