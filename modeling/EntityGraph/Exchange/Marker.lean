import EntityGraph.Exchange.Language
import EntityGraph.Marker.Request
/-!
Markers in exchange documents: requests are read, and markers are written with all they hold.
-/
namespace EntityGraph.Exchange

open Marker (ExpectedCount)

def markerErrorKind : MarkerError → String
  | .expression e => expressionErrorKind e
  | _ => "Binding"

def ofMarkerError (e : MarkerError) : Json := ofError (markerErrorKind e) e.message

/-- How many rows a request expects; where it does not say, any number. -/
def expectedCount (json : Json) : Reading ExpectedCount :=
  orElse "count" json .possiblyMany <| word fun
    | "upToOne" => some .upToOne
    | "possiblyMany" => some .possiblyMany
    | _ => none

def fieldMarker (json : Json) : Reading FieldMarker := do
  return ⟨← text "name" json, ← orElse "default" json none presentValue, flag "isNonbearing" json⟩

/-- A request whose nested requests are read already. -/
def referenceRequestWith (nested : List MarkerRequest) (json : Json) : Reading ReferenceRequest := do
  return ⟨← text "name" json, ← expectedCount json, nested, ← filterOf json,
    ← optional "reducedBy" json sugaredUnique, ← optional "initialEntityCount" json asInteger⟩

mutual
def markerRequest : Json → Reading MarkerRequest
  | .object [("field", json)] => .field <$> fieldMarker json
  | .object [("connection", json)] => do
    return .connection (← text "name" json) (← required "target" json sugaredUnique)
      (flag "isNonbearing" json)
  | .object [("reference", .object members)] => do
    let nested ← requestMembers members
    .reference <$> referenceRequestWith nested (.object members)
  | _ => .error "malformed marker"
termination_by structural json => json

/-- The requests of the member `fields`. -/
def requestMembers : Table Json → Reading (List MarkerRequest)
  | [] => .ok []
  | ("fields", .array items) :: _ => markerRequests items
  | _ :: rest => requestMembers rest
termination_by structural members => members

def markerRequests : List Json → Reading (List MarkerRequest)
  | [] => .ok []
  | item :: rest => do
    let head ← markerRequest item
    let tail ← markerRequests rest
    .ok (head :: tail)
termination_by structural items => items
end

def referenceRequest : Json → Reading ReferenceRequest
  | .object members => do referenceRequestWith (← requestMembers members) (.object members)
  | _ => .error "malformed reference"

def ofExpectedCount : ExpectedCount → Json
  | .upToOne => .string "upToOne"
  | .possiblyMany => .string "possiblyMany"

mutual
def ofMarker : Marker → Json
  | .field marker =>
    .object [("field", .object [("name", .string marker.field),
      ("default", ofValue? marker.default), ("isNonbearing", .bool marker.isNonbearing)])]
  | .connection marker =>
    .object [("connection", .object [("name", .string marker.field),
      ("target", ofUnique marker.target), ("isNonbearing", .bool marker.isNonbearing)])]
  | .reference marker => .object [("reference", ofReferenceMarker marker)]
termination_by structural marker => marker

def ofReferenceMarker : ReferenceMarker → Json
  | ⟨name, references⟩ =>
    .object [("name", .string name), ("placeholder", .string name),
      ("references", .array (ofReferences references))]
termination_by structural marker => marker

def ofReferences : List (String × Reference) → List Json
  | [] => []
  | (name, ⟨constraints, placeholder, fields, count⟩) :: rest =>
    .array [.string name, .object [("placeholder", .string placeholder),
      ("count", ofExpectedCount constraints.count), ("filter", ofFilter? constraints.filter),
      ("reducedBy", ofUnique? constraints.reducedBy), ("initialEntityCount", .integer count),
      ("fields", .array (ofMarkers fields))]] :: ofReferences rest
termination_by structural references => references

def ofMarkers : List (String × Marker) → List Json
  | [] => []
  | (name, marker) :: rest => .array [.string name, ofMarker marker] :: ofMarkers rest
termination_by structural markers => markers
end

def ofFields (fields : Table Marker) : Json := .array (ofMarkers fields)

end EntityGraph.Exchange
