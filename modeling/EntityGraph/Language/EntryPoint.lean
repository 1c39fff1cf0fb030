import EntityGraph.Language.Grammar
/-!
Entry points: the rules by which a whole text can be read, and what each of them reads.
-/
namespace EntityGraph.Language

inductive EntryPoint where
  | qualifiedEntityList
  | qualifiedFieldList
  | qualifiedSingleEntity
  | unconstrainedQualifiedEntityList
  | relativeSingleField
  | relativeSingleEntity
  | relativeEntityList
  | uniqueWhere
  | filter
  | orderBy
deriving DecidableEq

namespace EntryPoint

def all : List EntryPoint :=
  [qualifiedEntityList, qualifiedFieldList, qualifiedSingleEntity,
   unconstrainedQualifiedEntityList, relativeSingleField, relativeSingleEntity,
   relativeEntityList, uniqueWhere, filter, orderBy]

def name : EntryPoint → String
  | qualifiedEntityList => "qualifiedEntityList"
  | qualifiedFieldList => "qualifiedFieldList"
  | qualifiedSingleEntity => "qualifiedSingleEntity"
  | unconstrainedQualifiedEntityList => "unconstrainedQualifiedEntityList"
  | relativeSingleField => "relativeSingleField"
  | relativeSingleEntity => "relativeSingleEntity"
  | relativeEntityList => "relativeEntityList"
  | uniqueWhere => "uniqueWhere"
  | filter => "filter"
  | orderBy => "orderBy"

def ofName? (name : String) : Option EntryPoint := all.find? (·.name == name)

/-- What an entry point reads. -/
def Tree : EntryPoint → Type
  | qualifiedEntityList => EntityList Filter UniqueWhere
  | qualifiedFieldList => FieldList Filter UniqueWhere
  | qualifiedSingleEntity => SingleEntity Filter UniqueWhere
  | unconstrainedQualifiedEntityList => UnfilteredList Filter UniqueWhere
  | relativeSingleField => RelativeField Filter UniqueWhere
  | relativeSingleEntity => List (Step Filter UniqueWhere)
  | relativeEntityList => RelativeList Filter UniqueWhere
  | uniqueWhere => UniqueWhere
  | filter => Filter
  | orderBy => OrderBy

def rule (env : Environment) : (entry : EntryPoint) → Parser entry.Tree
  | qualifiedEntityList => env.qualifiedEntityList
  | qualifiedFieldList => env.qualifiedFieldList
  | qualifiedSingleEntity => env.qualifiedSingleEntity
  | unconstrainedQualifiedEntityList => env.unfilteredList
  | relativeSingleField => env.relativeSingleField
  | relativeSingleEntity => env.relativeSingleEntity
  | relativeEntityList => env.relativeEntityList
  | uniqueWhere => env.uniqueWhere
  | filter => env.filter
  | orderBy => env.orderBy

end EntryPoint

/-- Reads a text from an entry point. -/
def parse (env : Environment) (entry : EntryPoint) (text : String) :
    Except ExpressionError entry.Tree :=
  (entry.rule env).run text

end EntityGraph.Language
