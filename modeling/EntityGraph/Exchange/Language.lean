import EntityGraph.Exchange.Filter
import EntityGraph.Exchange.Mutation
import EntityGraph.Language.Sugar
/-!
The query language in exchange documents: tokens, environments, expressions with and without
sugar, and selections.
-/
namespace EntityGraph.Exchange

open EntityGraph.Language

def tokenKindName : TokenKind → String
  | .identifier => "Identifier"
  | .entityIdentifier => "EntityIdentifier"
  | .dollar => "DollarSign"
  | .dot => "Dot"
  | .comma => "Comma"
  | .leftParenthesis => "LeftParenthesis"
  | .rightParenthesis => "RightParenthesis"
  | .leftBracket => "LeftBracket"
  | .rightBracket => "RightBracket"
  | .equals => "Equals"
  | .notEquals => "NotEquals"
  | .lower => "LowerThan"
  | .lowerEqual => "LowerEqual"
  | .greater => "GreaterThan"
  | .greaterEqual => "GreaterEqual"
  | .and => "And"
  | .or => "Or"
  | .not => "Not"
  | .null => "Null"
  | .true => "True"
  | .false => "False"
  | .string => "StringLiteral"
  | .number => "NumberLiteral"

def ofToken (token : Token) : Json :=
  .array [.string (tokenKindName token.kind), .string token.kind.description, .string token.text,
    natural token.start, natural token.stop]

def ofUnmatched (unmatched : Unmatched) : Json :=
  .object [("offset", natural unmatched.start),
    ("unexpected", .string (String.ofList unmatched.text)), ("text", .string unmatched.message)]

def ofLexed (lexed : Lexed) : Json :=
  .object [("tokens", listed ofToken lexed.tokens), ("errors", listed ofUnmatched lexed.errors)]

/-! Errors -/

def environmentErrorKind : EnvironmentError → String
  | .undefinedVariable _ => "Environment.UndefinedVariable"
  | .ambiguousDimension .. => "Environment.AmbiguousDimension"
  | .undefinedDimension _ => "Environment.UndefinedDimension"

def ofEnvironmentError (e : EnvironmentError) : Json := ofError (environmentErrorKind e) e.message

def expressionErrorKind : ExpressionError → String
  | .unmatched .. => "Lexical"
  | .misplaced .. => "Syntax"
  | .unbound .. => "Binding"
  | .environment e => environmentErrorKind e
  | .input e => inputErrorKind e

def ofExpressionError (e : ExpressionError) : Json := ofError (expressionErrorKind e) e.message

/-! Environments -/

def namesOf (json : Json) : Reading (Table Value) := tableOf value json

def dimensionsOf (json : Json) : Reading (Table (List Value)) := tableOf valueList json

/-- The environment of a request; what is missing is empty. -/
def environment (json : Json) : Reading Environment :=
  orElse "env" json .empty fun json => do
    let names ← orElse "names" json [] namesOf
    let dimensions ← orElse "dimensions" json [] dimensionsOf
    return (Environment.empty.withNames names).withDimensions dimensions

/-! Expressions -/

def ofFilter? : Option Filter → Json := nullable ofFilter

def ofUnique? : Option UniqueWhere → Json := nullable ofUnique

def stepMembers (step : Step Filter UniqueWhere) : Table Json :=
  [("field", .string step.field), ("filter", ofFilter? step.filter),
   ("reducedBy", ofUnique? step.reducedBy)]

def ofStep (step : Step Filter UniqueWhere) : Json := .object (stepMembers step)

def ofSteps (path : List (Step Filter UniqueWhere)) : Json := listed ofStep path

def ofTree : (entry : EntryPoint) → entry.Tree → Json
  | .qualifiedEntityList => fun list =>
    .object [("entityName", .string list.entity), ("filter", ofFilter? list.filter),
      ("path", ofSteps list.path)]
  | .qualifiedFieldList => fun list =>
    .object [("entityName", .string list.entity), ("filter", ofFilter? list.filter),
      ("path", ofSteps list.path), ("field", .string list.field)]
  | .qualifiedSingleEntity => fun single =>
    .object [("entityName", .string single.entity), ("uniqueWhere", ofUnique single.uniqueWhere),
      ("filter", ofFilter? single.filter), ("path", ofSteps single.path)]
  | .unconstrainedQualifiedEntityList => fun list =>
    .object [("entityName", .string list.entity), ("path", ofSteps list.path)]
  | .relativeSingleField => fun field =>
    .object [("path", ofSteps field.path), ("field", .string field.field)]
  | .relativeSingleEntity => fun path => .object [("path", ofSteps path)]
  | .relativeEntityList => fun list =>
    .object [("path", ofSteps list.path),
      ("hasMany", .object [("field", .string list.field), ("filter", ofFilter? list.filter)])]
  | .uniqueWhere => ofUnique
  | .filter => ofFilter
  | .orderBy => ofOrderBy

/-! Sugar -/

def sugared {α : Type} (read : Json → Reading α) : Json → Reading (Sugared α)
  | .string text => .ok (.text text)
  | json => .structured <$> read json

def sugaredFilter : Json → Reading SugaredFilter := sugared filter

def sugaredUnique : Json → Reading SugaredUnique := sugared uniqueWhere

def sugaredStep (json : Json) : Reading SugaredStep := do
  return ⟨← text "field" json, ← optional "filter" json sugaredFilter,
    ← optional "reducedBy" json sugaredUnique⟩

def sugaredPath (json : Json) : Reading (List SugaredStep) := listOf sugaredStep json

/-- The path of a structure, which may be missing. -/
def pathOf (json : Json) : Reading (List SugaredStep) := orElse "path" json [] sugaredPath

def filterOf (json : Json) : Reading (Option SugaredFilter) := optional "filter" json sugaredFilter

def connectOf (json : Json) : Reading (Option SugaredUnique) :=
  optional "connectTo" json sugaredUnique

def entityList (json : Json) : Reading (EntityList SugaredFilter SugaredUnique) := do
  return ⟨← text "entityName" json, ← filterOf json, ← pathOf json⟩

def fieldList (json : Json) : Reading (FieldList SugaredFilter SugaredUnique) := do
  return ⟨← text "entityName" json, ← filterOf json, ← pathOf json, ← text "field" json⟩

def singleEntity (json : Json) : Reading (SingleEntity SugaredFilter SugaredUnique) := do
  return ⟨← text "entityName" json, ← required "uniqueWhere" json sugaredUnique, ← filterOf json,
    ← pathOf json⟩

def unfilteredList (json : Json) : Reading (UnfilteredList SugaredFilter SugaredUnique) := do
  return ⟨← text "entityName" json, ← pathOf json⟩

def relativeField (json : Json) : Reading (RelativeField SugaredFilter SugaredUnique) := do
  return ⟨← pathOf json, ← text "field" json⟩

def relativeList (json : Json) : Reading (RelativeList SugaredFilter SugaredUnique) := do
  let path ← pathOf json
  let relation ← member "hasMany" json
  return ⟨path, ← text "field" relation, ← filterOf relation⟩

/-- The options of a request, none of which has to be given. -/
def linkOptions (json : Json) : Reading LinkOptions := do
  let given := (given? "params" json).getD (.object [])
  return ⟨← connectOf given, flag "isNonbearing" given⟩

def listOptions (json : Json) : Reading ListOptions := do
  let given := (given? "params" json).getD (.object [])
  return ⟨← optional "orderBy" given (sugared orderBy), ← optional "offset" given asNat,
    ← optional "limit" given asNat, ← connectOf given, flag "isNonbearing" given⟩

def defaultValue (json : Json) : Reading Default := do
  match ← single json with
  | ("value", given) => return .value (← value given)
  | ("variable", name) => return .variableName (← asText name)
  | (key, _) => .error s!"unknown default {key}"

/-! Selections -/

def ofLink (link : LinkedStep) : Json :=
  .object (stepMembers link.toStep ++
    [("connectTo", ofUnique? link.connectTo), ("isNonbearing", .bool link.isNonbearing)])

def ofLinks (links : List LinkedStep) : Json := listed ofLink links

def pageMembers (page : Page) : Table Json :=
  [("orderBy", nullable ofOrderBy page.orderBy), ("offset", nullable natural page.offset),
   ("limit", nullable natural page.limit)]

def ofEntityList (selection : EntityListSelection) : Json :=
  .object ([("entityName", .string selection.entity), ("filter", ofFilter? selection.filter),
    ("path", ofLinks selection.path), ("connectTo", ofUnique? selection.connectTo)] ++
    pageMembers selection.page)

def ofFieldList (selection : FieldListSelection) : Json :=
  .object ([("entityName", .string selection.entity), ("filter", ofFilter? selection.filter),
    ("path", ofLinks selection.path), ("field", .string selection.field)] ++
    pageMembers selection.page)

def ofSingleEntity (selection : SingleEntitySelection) : Json :=
  .object [("entityName", .string selection.entity),
    ("uniqueWhere", ofUnique selection.uniqueWhere), ("filter", ofFilter? selection.filter),
    ("path", ofLinks selection.path), ("connectTo", ofUnique? selection.connectTo)]

def ofUnfilteredList (selection : UnfilteredListSelection) : Json :=
  .object [("entityName", .string selection.entity), ("path", ofLinks selection.path),
    ("connectTo", ofUnique? selection.connectTo)]

def ofRelativeEntity (links : List LinkedStep) : Json := .object [("path", ofLinks links)]

def ofRelativeField (selection : RelativeFieldSelection) : Json :=
  .object [("path", ofLinks selection.path), ("field", .string selection.field),
    ("isNonbearing", .bool selection.isNonbearing), ("defaultValue", ofValue? selection.default)]

def ofRelativeList (selection : RelativeListSelection) : Json :=
  .object [("path", ofLinks selection.path),
    ("hasMany", .object ([("field", .string selection.field),
      ("filter", ofFilter? selection.filter), ("connectTo", ofUnique? selection.connectTo),
      ("isNonbearing", .bool selection.isNonbearing)] ++ pageMembers selection.page))]

end EntityGraph.Exchange
