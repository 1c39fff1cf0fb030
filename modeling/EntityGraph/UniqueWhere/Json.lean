import EntityGraph.Filter.Json
import EntityGraph.UniqueWhere
/-!
Unique wheres as JSON objects: a column member holds a value, a relation member another object.
-/
namespace EntityGraph.UniqueWhere

mutual
/-- The object of a unique where, values being written by `encode`. -/
def toJsonWith (encode : Value → Json) : UniqueWhere → Json
  | ⟨nodes⟩ => .object (nodesToJsonWith encode nodes)
termination_by structural which => which

def nodesToJsonWith (encode : Value → Json) : List (String × UniqueNode) → Table Json
  | [] => []
  | (name, .value value) :: rest => (name, encode value) :: nodesToJsonWith encode rest
  | (name, .relation nested) :: rest =>
    (name, toJsonWith encode nested) :: nodesToJsonWith encode rest
termination_by structural nodes => nodes
end

def toJson (which : UniqueWhere) : Json := which.toJsonWith Value.toJson

/-- The object in which every two values stay apart. -/
def toTaggedJson (which : UniqueWhere) : Json := which.toJsonWith Value.toTaggedJson

mutual
def ofJson (schema : Schema) (entity : Entity) : Json → Except InputError UniqueWhere
  | .object members => addMembers schema entity .empty members
  | _ => .error (.malformed entity.name (.expected .uniqueObject))
termination_by structural json => json

/-- Adds the members of an object to a unique where, in their order. -/
def addMembers (schema : Schema) (entity : Entity) (which : UniqueWhere) :
    List (String × Json) → Except InputError UniqueWhere
  | [] => .ok which
  | (key, argument) :: rest =>
    match entity.field key with
    | .error e => .error (.schema e)
    | .ok (.column _) =>
      match Value.ofJson argument with
      | .error e => .error (.conversion e)
      | .ok value => addMembers schema entity (which.withValue key value) rest
    | .ok (.relation relation) =>
      match schema.targetEntity relation with
      | .error e => .error (.schema e)
      | .ok target => do
        let nested ← ofJson schema target argument
        addMembers schema entity (which.withRelation key nested) rest
termination_by structural members => members
end

end EntityGraph.UniqueWhere
