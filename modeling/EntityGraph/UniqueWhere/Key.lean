import EntityGraph.UniqueWhere
/-!
Unique wheres and the keys of an entity. A unique where may select a row once it covers the primary
key or another unique key; further fields narrow the selection.
-/
namespace EntityGraph

/-- A unique where that covers no unique key of its entity. -/
structure NonUniqueWhere where
  entity : String
  fields : List String
deriving DecidableEq

def NonUniqueWhere.message (e : NonUniqueWhere) : String :=
  s!"Unique where on `{e.entity}` does not cover a unique key: " ++ ", ".intercalate e.fields

namespace UniqueWhere

def coversKey (which : UniqueWhere) (entity : Entity) : Bool :=
  entity.uniqueKeys.any fun key => key.all fun field => (which.get? field).isSome

/-- The filter of a unique where that covers a key. -/
def expand (which : UniqueWhere) (entity : Entity) : Except NonUniqueWhere Filter :=
  if which.coversKey entity then .ok which.toFilter else .error ⟨entity.name, which.keys⟩

end UniqueWhere

end EntityGraph
