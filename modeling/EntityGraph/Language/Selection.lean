import EntityGraph.Language.Expression
import EntityGraph.Value
/-!
Selections: expressions with everything resolved, together with the options that the language has
no notation for.
-/
namespace EntityGraph.Language

/-- The order of the rows of a list, and which of them are asked for. -/
structure Page where
  orderBy : Option OrderBy
  offset : Option Nat
  limit : Option Nat

/-- A step and the row that it is connected to. A nonbearing step does not keep its owner alive. -/
structure LinkedStep extends Step Filter UniqueWhere where
  connectTo : Option UniqueWhere
  isNonbearing : Bool

/-- A step without options. -/
def LinkedStep.plain (step : Step Filter UniqueWhere) : LinkedStep := ⟨step, none, false⟩

structure EntityListSelection where
  entity : String
  filter : Option Filter
  path : List LinkedStep
  page : Page
  connectTo : Option UniqueWhere

structure FieldListSelection where
  entity : String
  filter : Option Filter
  path : List LinkedStep
  field : String
  page : Page

structure SingleEntitySelection where
  entity : String
  uniqueWhere : UniqueWhere
  filter : Option Filter
  path : List LinkedStep
  connectTo : Option UniqueWhere

structure UnfilteredListSelection where
  entity : String
  path : List LinkedStep
  connectTo : Option UniqueWhere

structure RelativeFieldSelection where
  path : List LinkedStep
  field : String
  isNonbearing : Bool
  default : Option Value

structure RelativeListSelection where
  path : List LinkedStep
  field : String
  filter : Option Filter
  connectTo : Option UniqueWhere
  isNonbearing : Bool
  page : Page

end EntityGraph.Language
