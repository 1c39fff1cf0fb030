import EntityGraph.Language.Expression
import EntityGraph.Language.Parser
import EntityGraph.Language.Token
/-!
The grammar of the query language, one parser a rule. Variables are replaced by their values while
reading, so every rule depends on an environment.
-/
namespace EntityGraph.Language

open EntityGraph.Language.Parser

/-- The operands as one filter; a single operand stays as it is. -/
def combine (join : List Filter → Filter) : Filter × List Filter → Filter
  | (operand, []) => operand
  | (first, others) => join (first :: others)

/-- What compares a column with an operand; without an operand it is null. -/
def comparison? : TokenKind → Option Comparison
  | .equals => some .equal
  | .notEquals => some .notEqual
  | .lower => some .less
  | .lowerEqual => some .lessOrEqual
  | .greater => some .greater
  | .greaterEqual => some .greaterOrEqual
  | _ => none

/-- The test for null, which only equality and its opposite have. -/
def nullTest? : Comparison → Option Condition
  | .equal => some (.null true)
  | .notEqual => some (.null false)
  | _ => none

/-- Values that may stand where a literal could be written. -/
def isPrimary : Value → Bool
  | .string _ => true
  | .int _ => true
  | .float _ => true
  | .literal _ => true
  | _ => false

/-- A dollar and a word. -/
def variableName : Parser String := do
  let _ ← expect .dollar
  if ← comes .entityIdentifier then expect .entityIdentifier else expect .identifier

namespace Environment

variable (env : Environment)

def resolved (name : String) : Parser Value :=
  ofExcept ((env.resolve name).mapError .environment)

/-- A field, or a variable that holds the name of one. -/
def fieldName : Parser String := do
  if ← comes .dollar then
    let name ← variableName
    match ← env.resolved name with
    | .string field =>
      if isIdentifier field.toList then return field
      else fail (.unbound (.fieldName name))
    | _ => fail (.unbound (.fieldName name))
  else expect .identifier

/-- An entity, or a variable that holds the name of one. -/
def entityName : Parser String := do
  if ← comes .dollar then
    let name ← variableName
    match ← env.resolved name with
    | .string entity =>
      if isEntityIdentifier entity.toList then return entity
      else fail (.unbound (.entityName name))
    | _ => fail (.unbound (.entityName name))
  else expect .entityIdentifier

/-- Fields with dots between them. -/
def fieldPath : Parser (List String) := do
  let (first, others) ← separated .dot env.fieldName
  return first :: others

/-- A string, a number, a bare word, or a variable that holds one of these. -/
def primaryValue : Parser Value := do
  match ← peek with
  | none => expected .value
  | some token =>
    match token.kind with
    | .string =>
      skip
      return .string (String.ofList (unescape token.image))
    | .number =>
      match Value.ofNumber? token.text with
      | .ok value =>
        skip
        return value
      | .error e => fail (.input (.conversion e))
    | .identifier =>
      skip
      return .literal token.text
    | .entityIdentifier =>
      skip
      return .literal token.text
    | .dollar =>
      let value ← env.resolved (← variableName)
      if isPrimary value then return value
      else fail (.unbound (.variableKind value.kindName))
    | _ => expected .value

/-- The right hand side of a comparison; null is no value. -/
def operand : Parser (Option Value) := do
  if ← accept .null then return none
  else if ← accept .true then return some (.boolean true)
  else if ← accept .false then return some (.boolean false)
  else return some (← env.primaryValue)

/-- A comparison and its right hand side. -/
def condition : Parser Condition := do
  match (← peek).bind fun token => comparison? token.kind with
  | none => expected .comparison
  | some comparison =>
    skip
    match ← env.operand with
    | some value => return .compare comparison value
    | none =>
      match nullTest? comparison with
      | some condition => return condition
      | none => fail (.unbound .orderedNull)

def fieldWhere : Parser Filter := do
  let path ← env.fieldPath
  return .atPath (← env.condition) path

def negation : Parser Filter := do
  if ← accept .not then return .negation (← env.fieldWhere) else env.fieldWhere

def conjunction : Parser Filter := combine .all <$> separated .and env.negation

def disjunction : Parser Filter := combine .any <$> separated .or env.conjunction

/-- What follows an opening bracket. -/
def clause : Parser Filter := do
  let filter ← env.disjunction
  let _ ← expect .rightBracket
  return filter

/-- Clauses in brackets, one at least, that hold together. -/
def filter : Parser Filter := do
  let _ ← expect .leftBracket
  combine .all <$> separated .leftBracket env.clause

def optionalFilter : Parser (Option Filter) := do
  if ← comes .leftBracket then return some (← env.filter) else return none

/-- One more leaf of a unique where. -/
def leaf (which : UniqueWhere) : Parser UniqueWhere := do
  let path ← env.fieldPath
  let _ ← expect .equals
  let value ← env.primaryValue
  match which.assign path value with
  | (.ok (), which) => return which
  | (.error e, _) => fail (.input e)

/-- Leaves in parentheses, one at least. -/
def uniqueWhere : Parser UniqueWhere := do
  let _ ← expect .leftParenthesis
  let which ← iterate .comma env.leaf (← env.leaf .empty)
  let _ ← expect .rightParenthesis
  return which

/-- A relation, perhaps reduced to a single row, perhaps filtered. -/
def step : Parser (Step Filter UniqueWhere) := do
  let field ← env.fieldName
  let reducedBy ←
    if ← comes .leftParenthesis then some <$> env.uniqueWhere else pure none
  return ⟨field, ← env.optionalFilter, reducedBy⟩

/-- Relations with dots between them. -/
def steps : Parser (Step Filter UniqueWhere × List (Step Filter UniqueWhere)) :=
  separated .dot env.step

/-- The steps before the last one, and the last one. -/
def path : Parser (List (Step Filter UniqueWhere) × Step Filter UniqueWhere) := do
  let (first, others) ← env.steps
  return ((first :: others).dropLast, others.getLastD first)

def relativeSingleEntity : Parser (List (Step Filter UniqueWhere)) := do
  let (first, others) ← env.steps
  return first :: others

def relativeSingleField : Parser (RelativeField Filter UniqueWhere) := do
  let (path, last) ← env.path
  if last.reducedBy.isSome || last.filter.isSome then fail (.unbound (.restrictedField last.field))
  else return ⟨path, last.field⟩

def relativeEntityList : Parser (RelativeList Filter UniqueWhere) := do
  let (path, last) ← env.path
  if last.reducedBy.isSome then fail (.unbound (.reducedList last.field))
  else return ⟨path, last.field, last.filter⟩

def qualifiedEntityList : Parser (EntityList Filter UniqueWhere) := do
  return ⟨← env.entityName, ← env.optionalFilter, ← following .dot env.step⟩

def qualifiedFieldList : Parser (FieldList Filter UniqueWhere) := do
  let entity ← env.entityName
  let filter ← env.optionalFilter
  let _ ← expect .dot
  let relative ← env.relativeSingleField
  return ⟨entity, filter, relative.path, relative.field⟩

/-- A dot and a path, or nothing. -/
def optionalPath : Parser (List (Step Filter UniqueWhere)) := do
  if ← accept .dot then env.relativeSingleEntity else return []

def qualifiedSingleEntity : Parser (SingleEntity Filter UniqueWhere) := do
  return ⟨← env.entityName, ← env.uniqueWhere, ← env.optionalFilter, ← env.optionalPath⟩

def unfilteredList : Parser (UnfilteredList Filter UniqueWhere) := do
  return ⟨← env.entityName, ← env.optionalPath⟩

/-- A path and a direction, which is ascending where none is given. -/
def orderTerm : Parser OrderTerm := do
  let path ← env.fieldPath
  if ← comes .identifier then
    match SortOrder.ofText? (← expect .identifier) with
    | some order => return ⟨path, order⟩
    | none => fail (.unbound .direction)
  else return ⟨path, .ascending⟩

def orderBy : Parser OrderBy := do
  let (first, others) ← separated .comma env.orderTerm
  return first :: others

end Environment

end EntityGraph.Language
