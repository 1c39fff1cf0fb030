import EntityGraph.Language.Fault
import EntityGraph.Marker.Placeholder
/-!
Markers: which fields and relations of an entity are needed. Markers stand under their placeholders,
and a second marker under one placeholder is merged into the first.
-/
namespace EntityGraph

inductive Marker.Kind where
  | field
  | reference
  | connection
deriving DecidableEq

def Marker.Kind.name : Marker.Kind → String
  | field => "field"
  | reference => "reference"
  | connection => "connection"

structure FieldMarker where
  field : String
  default : Option Value
  isNonbearing : Bool

/-- A has-one relation that is connected to a fixed row. -/
structure ConnectionMarker where
  field : String
  target : UniqueWhere
  isNonbearing : Bool

mutual
inductive Marker where
  | field (marker : FieldMarker)
  | connection (marker : ConnectionMarker)
  | reference (marker : ReferenceMarker)

/-- A relation and every way in which it is asked for, each under its placeholder. -/
structure ReferenceMarker where
  field : String
  references : List (String × Reference)

/-- One way to ask for a relation, and what is needed of the rows that it leads to. -/
structure Reference where
  constraints : Marker.Constraints
  placeholder : String
  fields : List (String × Marker)
  initialEntityCount : Int
end

/-- Why a marker cannot be made or merged. -/
inductive MarkerError where
  | expression (e : Language.ExpressionError)
  | twoKinds (placeholder : String) (present incoming : Marker.Kind)
  | twoTargets (field : String)
  | twoFields (present incoming : String)
  | negativeCount
  | severalForOne
  | reducedByMany
deriving DecidableEq

def MarkerError.message : MarkerError → String
  | expression e => e.message
  | twoKinds placeholder present incoming =>
    s!"Cannot use '{placeholder}' both as a {present.name} and as a {incoming.name}."
  | twoTargets field => s!"The relation '{field}' is connected to two different entities."
  | twoFields present incoming => s!"Cannot merge references to '{present}' and '{incoming}'."
  | negativeCount =>
    "The preferred 'initialEntityCount' for a relation must be a non-negative integer!"
  | severalForOne => "A ToOne reference cannot prefer more than one entity!"
  | reducedByMany => "A hasMany relation can only be reduced to a hasOne by exactly one field."

namespace Marker

/-- The name under which a marker stands. References of one relation stand together. -/
def placeholder : Marker → String
  | .field marker => marker.field
  | .connection marker => marker.field
  | .reference marker => marker.field

def kind : Marker → Kind
  | .field _ => .field
  | .connection _ => .connection
  | .reference _ => .reference

/-- The two cannot stand under one placeholder. -/
def clash (present incoming : Marker) : MarkerError :=
  .twoKinds present.placeholder present.kind incoming.kind

/-- Adds a marker, `mergeInto` being what merges it into one that is already there. -/
def insertBy (mergeInto : Marker → Except MarkerError Marker) (marker : Marker)
    (fields : Table Marker) : Except MarkerError (Table Marker) :=
  match fields.find? marker.placeholder with
  | none => .ok (fields.put marker.placeholder marker)
  | some present => do return fields.put marker.placeholder (← mergeInto present)

mutual
/-- Both markers as one. It bears as soon as one of the two does, and the first default stays. -/
def merge : (present incoming : Marker) → Except MarkerError Marker
  | .field present, .field incoming =>
    .ok (.field ⟨present.field, present.default <|> incoming.default,
      present.isNonbearing && incoming.isNonbearing⟩)
  | .connection present, .connection incoming =>
    if present.target.equal incoming.target then
      .ok (.connection { present with
        isNonbearing := present.isNonbearing && incoming.isNonbearing })
    else .error (.twoTargets present.field)
  | .reference present, .reference ⟨name, references⟩ =>
    if present.field = name then do
      return .reference ⟨name, ← mergeReferences present.references references⟩
    else .error (.twoFields present.field name)
  | present, incoming => .error (present.clash incoming)
termination_by structural _ incoming => incoming

/-- References under one placeholder share their fields and keep the larger count. -/
def mergeReferences : (present incoming : List (String × Reference)) →
    Except MarkerError (List (String × Reference))
  | present, [] => .ok present
  | present, (name, ⟨constraints, placeholder, fields, count⟩) :: rest =>
    match Table.find? name present with
    | none =>
      mergeReferences (Table.put name ⟨constraints, placeholder, fields, count⟩ present) rest
    | some found => do
      let fields ← mergeFields found.fields fields
      let count := max found.initialEntityCount count
      mergeReferences
        (Table.put name { found with fields, initialEntityCount := count } present) rest
termination_by structural _ incoming => incoming

/-- Adds every incoming marker in its turn. -/
def mergeFields : (present incoming : List (String × Marker)) →
    Except MarkerError (List (String × Marker))
  | present, [] => .ok present
  | present, (_, marker) :: rest => do
    mergeFields (← insertBy (fun found => merge found marker) marker present) rest
termination_by structural _ incoming => incoming
end

/-- Adds a marker to the markers of an entity. -/
def insert (fields : Table Marker) (marker : Marker) : Except MarkerError (Table Marker) :=
  insertBy (fun present => merge present marker) marker fields

end Marker

namespace ReferenceMarker

/-- References of a relation, each of them reduced by one field or not at all. -/
def ofReferences (field : String) (references : Table Reference) :
    Except MarkerError ReferenceMarker :=
  if references.any fun (_, reference) =>
      reference.constraints.reducedBy.any fun which => which.size ≠ 1 then
    .error .reducedByMany
  else .ok ⟨field, references⟩

/-- A single reference; unless something else is preferred, one row is fetched up front. -/
def single (field : String) (constraints : Marker.Constraints) (fields : Table Marker)
    (initialEntityCount : Option Int) : Except MarkerError ReferenceMarker :=
  let count := initialEntityCount.getD 1
  if count < 0 then .error .negativeCount
  else if constraints.count = .upToOne ∧ 1 < count then .error .severalForOne
  else
    let placeholder := constraints.placeholder field
    ofReferences field [(placeholder, ⟨constraints, placeholder, fields, count⟩)]

def merge (present incoming : ReferenceMarker) : Except MarkerError ReferenceMarker :=
  if present.field = incoming.field then do
    return ⟨present.field, ← Marker.mergeReferences present.references incoming.references⟩
  else .error (.twoFields present.field incoming.field)

end ReferenceMarker

/-- The top of a tree of markers. A named tree is known by its identifier, any other by its id. -/
structure MarkerTree where
  id : Nat
  identifier : Option String
  fields : Table Marker

def MarkerTree.placeholder (tree : MarkerTree) : String :=
  Marker.treePlaceholder (tree.identifier.getD (toString tree.id))

end EntityGraph
