import EntityGraph.Language.Sugar
import EntityGraph.Marker
/-!
Requests for markers, in which filters and unique wheres may still be text. A request is met by
reading its texts from the inside out.
-/
namespace EntityGraph

open EntityGraph.Language (Environment SugaredFilter SugaredUnique)

mutual
inductive MarkerRequest where
  | field (marker : FieldMarker)
  | connection (field : String) (target : SugaredUnique) (isNonbearing : Bool)
  | reference (request : ReferenceRequest)

structure ReferenceRequest where
  field : String
  count : Marker.ExpectedCount
  fields : List MarkerRequest
  filter : Option SugaredFilter
  reducedBy : Option SugaredUnique
  initialEntityCount : Option Int
end

namespace MarkerRequest

variable (env : Environment)

mutual
def toMarker : MarkerRequest → Except MarkerError Marker
  | .field marker => .ok (.field marker)
  | .connection name target isNonbearing => do
    let target ← (env.desugarUnique target).mapError .expression
    return .connection ⟨name, target, isNonbearing⟩
  | .reference request => .reference <$> toReference request
termination_by structural request => request

/-- The fields are made first, then the filter, then the reduction. -/
def toReference : ReferenceRequest → Except MarkerError ReferenceMarker
  | ⟨name, count, fields, filter, reducedBy, initialEntityCount⟩ => do
    let fields ← toFields [] fields
    let filter ← (filter.mapM env.desugarFilter).mapError .expression
    let reducedBy ← (reducedBy.mapM env.desugarUnique).mapError .expression
    ReferenceMarker.single name ⟨count, filter, reducedBy⟩ fields initialEntityCount
termination_by structural request => request

/-- Adds the markers of the requests in their order. -/
def toFields (present : Table Marker) : List MarkerRequest → Except MarkerError (Table Marker)
  | [] => .ok present
  | request :: rest => do
    let marker ← toMarker request
    toFields (← Marker.insert present marker) rest
termination_by structural requests => requests
end

end MarkerRequest

end EntityGraph
