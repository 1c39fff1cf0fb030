import EntityGraph.OrderBy
import EntityGraph.UniqueWhere
/-!
The shapes of expressions: paths over has-one relations, and what stands at their two ends. The
shapes leave open what a filter and a unique where are, because they can be written as text too.
-/
namespace EntityGraph.Language

variable (F U : Type)

/-- A relation on a path. A reduction makes a single row of a has-many relation. -/
structure Step where
  field : String
  filter : Option F
  reducedBy : Option U

/-- The rows of an entity, led along a path. -/
structure EntityList where
  entity : String
  filter : Option F
  path : List (Step F U)

/-- A field of the rows at the end of a path. -/
structure FieldList where
  entity : String
  filter : Option F
  path : List (Step F U)
  field : String

/-- One row of an entity, led along a path. -/
structure SingleEntity where
  entity : String
  uniqueWhere : U
  filter : Option F
  path : List (Step F U)

structure UnfilteredList where
  entity : String
  path : List (Step F U)

/-- A field, seen from a row. -/
structure RelativeField where
  path : List (Step F U)
  field : String

/-- The rows of a has-many relation, seen from a row. -/
structure RelativeList where
  path : List (Step F U)
  field : String
  filter : Option F

end EntityGraph.Language
