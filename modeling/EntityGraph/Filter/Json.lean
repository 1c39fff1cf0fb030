import EntityGraph.Filter
/-!
Filters as JSON objects. `and`, `or` and `not` are members beside the fields; reading resolves
every other member against the entity.
-/
namespace EntityGraph

namespace Filter

/-- A part is written unless it is empty. -/
def partToJson (key : String) (operands : List Json) : Table Json :=
  if operands.isEmpty then [] else [(key, .array operands)]

mutual
/-- The object of a filter, values being written by `encode`. A field named like a part takes the
place of that part. -/
def toJsonWith (encode : Value → Json) : Filter → Json
  | ⟨and, or, not, fields⟩ =>
    let parts := partToJson "and" (allToJsonWith encode and) ++
      partToJson "or" (allToJsonWith encode or) ++ negationToJsonWith encode not
    .object (fieldsToJsonWith encode parts fields)
termination_by structural filter => filter

def allToJsonWith (encode : Value → Json) : List Filter → List Json
  | [] => []
  | filter :: rest => toJsonWith encode filter :: allToJsonWith encode rest
termination_by structural filters => filters

def negationToJsonWith (encode : Value → Json) : Option Filter → Table Json
  | none => []
  | some filter => [("not", toJsonWith encode filter)]
termination_by structural filter => filter

def fieldsToJsonWith (encode : Value → Json) (members : Table Json) :
    List (String × FieldFilter) → Table Json
  | [] => members
  | (name, .condition condition) :: rest =>
    fieldsToJsonWith encode (members.put name (condition.toJsonWith encode)) rest
  | (name, .relation filter) :: rest =>
    fieldsToJsonWith encode (members.put name (toJsonWith encode filter)) rest
termination_by structural fields => fields
end

def toJson (filter : Filter) : Json := filter.toJsonWith Value.toJson

/-- The object in which every two values stay apart. -/
def toTaggedJson (filter : Filter) : Json := filter.toJsonWith Value.toTaggedJson

mutual
def ofJson (schema : Schema) (entity : Entity) : Json → Except InputError Filter
  | .object members => addMembers schema entity .empty members
  | _ => .error (.malformed entity.name (.expected .filterObject))
termination_by structural json => json

/-- Adds the members of an object to a filter, in their order. -/
def addMembers (schema : Schema) (entity : Entity) (filter : Filter) :
    List (String × Json) → Except InputError Filter
  | [] => .ok filter
  | (key, argument) :: rest =>
    if key = "and" then
      match argument with
      | .array items => do
        let operands ← allOfJson schema entity items
        addMembers schema entity { filter with and := operands } rest
      | _ => .error (.malformed key (.expected .filters))
    else if key = "or" then
      match argument with
      | .array items => do
        let operands ← allOfJson schema entity items
        addMembers schema entity { filter with or := operands } rest
      | _ => .error (.malformed key (.expected .filters))
    else if key = "not" then do
      let operand ← ofJson schema entity argument
      addMembers schema entity { filter with not := some operand } rest
    else
      match entity.field key with
      | .error e => .error (.schema e)
      | .ok (.column _) => do
        let condition ← Condition.ofJson argument
        let fields := Table.insert key (.condition condition) filter.fields
        addMembers schema entity { filter with fields } rest
      | .ok (.relation relation) =>
        match schema.targetEntity relation with
        | .error e => .error (.schema e)
        | .ok target => do
          let nested ← ofJson schema target argument
          let fields := Table.insert key (.relation nested) filter.fields
          addMembers schema entity { filter with fields } rest
termination_by structural members => members

def allOfJson (schema : Schema) (entity : Entity) : List Json → Except InputError (List Filter)
  | [] => .ok []
  | item :: rest => do
    let filter ← ofJson schema entity item
    let filters ← allOfJson schema entity rest
    .ok (filter :: filters)
termination_by structural items => items
end

end Filter

end EntityGraph
