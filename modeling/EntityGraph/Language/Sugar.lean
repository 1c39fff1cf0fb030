import EntityGraph.Language.EntryPoint
import EntityGraph.Language.Selection
/-!
Sugar: wherever a structure is expected, the text that reads as one may stand. Removing the sugar
reads the texts and adds the options, those of a relation to the last step of the path only.
-/
namespace EntityGraph.Language

/-- A structure, or the text that it is read from. -/
inductive Sugared (α : Type) where
  | text (text : String)
  | structured (value : α)

abbrev SugaredFilter := Sugared Filter

abbrev SugaredUnique := Sugared UniqueWhere

abbrev SugaredStep := Step SugaredFilter SugaredUnique

/-- A value for a missing field, or the variable that holds it. -/
inductive Default where
  | value (value : Value)
  | variableName (name : String)

/-- Options of a relation. -/
structure LinkOptions where
  connectTo : Option SugaredUnique
  isNonbearing : Bool

/-- Options of a list of rows. -/
structure ListOptions where
  orderBy : Option (Sugared OrderBy)
  offset : Option Nat
  limit : Option Nat
  connectTo : Option SugaredUnique
  isNonbearing : Bool

abbrev Desugared := Except ExpressionError

namespace Environment

variable (env : Environment)

def desugarUnique : SugaredUnique → Desugared UniqueWhere
  | .text text => parse env .uniqueWhere text
  | .structured which => .ok which

def desugarFilter : SugaredFilter → Desugared Filter
  | .text text => parse env .filter text
  | .structured filter => .ok filter

def desugarOrderBy : Sugared OrderBy → Desugared OrderBy
  | .text text => parse env .orderBy text
  | .structured order => .ok order

/-- The options of a step that is not the last one. -/
def interior : LinkOptions := ⟨none, false⟩

def desugarStep (options : LinkOptions) (step : SugaredStep) : Desugared LinkedStep := do
  return ⟨⟨step.field, ← step.filter.mapM env.desugarFilter,
      ← step.reducedBy.mapM env.desugarUnique⟩,
    ← options.connectTo.mapM env.desugarUnique, options.isNonbearing⟩

/-- A written path, step by step. Only its last step, if there is one, takes the options. -/
def desugarPath (options : LinkOptions) : List SugaredStep → Desugared (List LinkedStep)
  | [] => .ok []
  | [last] => do return [← env.desugarStep options last]
  | step :: rest => do return (← env.desugarStep interior step) :: (← desugarPath options rest)

/-- A path that has been read from a text. Only its last step takes the options. -/
def augmentPath (options : LinkOptions) : List (Step Filter UniqueWhere) →
    Desugared (List LinkedStep)
  | [] => .ok []
  | [last] => do return [⟨last, ← options.connectTo.mapM env.desugarUnique, options.isNonbearing⟩]
  | step :: rest => do return .plain step :: (← augmentPath options rest)

def page (options : ListOptions) : Desugared Page := do
  return ⟨← options.orderBy.mapM env.desugarOrderBy, options.offset, options.limit⟩

def default : Option Default → Desugared (Option Value)
  | none => .ok none
  | some (.value value) => .ok (some value)
  | some (.variableName name) => (some <$> env.resolve name).mapError .environment

/-! Each form reads its text or desugars its structure; the options are added to the parts. -/

def entityList (list : Sugared (EntityList SugaredFilter SugaredUnique)) (options : ListOptions) :
    Desugared EntityListSelection := do
  let (entity, filter, path) ←
    match list with
    | .text text => do
      let list : EntityList Filter UniqueWhere ← parse env .qualifiedEntityList text
      pure (list.entity, list.filter, ← env.augmentPath interior list.path)
    | .structured list => do
      pure (list.entity, ← list.filter.mapM env.desugarFilter, ← env.desugarPath interior list.path)
  return ⟨entity, filter, path, ← env.page options, ← options.connectTo.mapM env.desugarUnique⟩

def fieldList (list : Sugared (FieldList SugaredFilter SugaredUnique)) (options : ListOptions) :
    Desugared FieldListSelection := do
  let (entity, filter, path, field) ←
    match list with
    | .text text => do
      let list : FieldList Filter UniqueWhere ← parse env .qualifiedFieldList text
      pure (list.entity, list.filter, ← env.augmentPath interior list.path, list.field)
    | .structured list => do
      pure (list.entity, ← list.filter.mapM env.desugarFilter, ← env.desugarPath interior list.path,
        list.field)
  return ⟨entity, filter, path, field, ← env.page options⟩

def singleEntity (single : Sugared (SingleEntity SugaredFilter SugaredUnique))
    (connectTo : Option SugaredUnique) : Desugared SingleEntitySelection := do
  let (entity, uniqueWhere, filter, path) ←
    match single with
    | .text text => do
      let single : SingleEntity Filter UniqueWhere ← parse env .qualifiedSingleEntity text
      pure (single.entity, single.uniqueWhere, single.filter,
        ← env.augmentPath interior single.path)
    | .structured single => do
      pure (single.entity, ← env.desugarUnique single.uniqueWhere,
        ← single.filter.mapM env.desugarFilter, ← env.desugarPath interior single.path)
  return ⟨entity, uniqueWhere, filter, path, ← connectTo.mapM env.desugarUnique⟩

def unfiltered (list : Sugared (UnfilteredList SugaredFilter SugaredUnique))
    (connectTo : Option SugaredUnique) : Desugared UnfilteredListSelection := do
  let (entity, path) ←
    match list with
    | .text text => do
      let list : UnfilteredList Filter UniqueWhere ← parse env .unconstrainedQualifiedEntityList text
      pure (list.entity, ← env.augmentPath interior list.path)
    | .structured list => do pure (list.entity, ← env.desugarPath interior list.path)
  return ⟨entity, path, ← connectTo.mapM env.desugarUnique⟩

def relativeEntity (path : Sugared (List SugaredStep)) (options : LinkOptions) :
    Desugared (List LinkedStep) :=
  match path with
  | .text text => do
    let path : List (Step Filter UniqueWhere) ← parse env .relativeSingleEntity text
    env.augmentPath options path
  | .structured path => env.desugarPath options path

def relativeField (field : Sugared (RelativeField SugaredFilter SugaredUnique))
    (isNonbearing : Bool) (default : Option Default) : Desugared RelativeFieldSelection := do
  let (path, name) ←
    match field with
    | .text text => do
      let field : RelativeField Filter UniqueWhere ← parse env .relativeSingleField text
      pure (← env.augmentPath interior field.path, field.field)
    | .structured field => do pure (← env.desugarPath interior field.path, field.field)
  return ⟨path, name, isNonbearing, ← env.default default⟩

def relativeList (list : Sugared (RelativeList SugaredFilter SugaredUnique))
    (options : ListOptions) : Desugared RelativeListSelection := do
  let (path, field, filter) ←
    match list with
    | .text text => do
      let list : RelativeList Filter UniqueWhere ← parse env .relativeEntityList text
      pure (← env.augmentPath interior list.path, list.field, list.filter)
    | .structured list => do
      pure (← env.desugarPath interior list.path, list.field,
        ← list.filter.mapM env.desugarFilter)
  return ⟨path, field, filter, ← options.connectTo.mapM env.desugarUnique, options.isNonbearing,
    ← env.page options⟩

end Environment

end EntityGraph.Language
