import EntityGraph.Digest.Sha256
import EntityGraph.Filter.Json
import EntityGraph.Json
import EntityGraph.Json.Writer
import EntityGraph.UniqueWhere.Json
/-!
Placeholders: the names under which the data of markers is fetched. A reference that is filtered or
reduced has a digest of both in its name, so equal restrictions share one name.
-/
namespace EntityGraph.Marker

/-- How many rows a reference leads to. -/
inductive ExpectedCount where
  | upToOne
  | possiblyMany
deriving DecidableEq

structure Constraints where
  count : ExpectedCount
  filter : Option Filter
  reducedBy : Option UniqueWhere

namespace Constraints

/-- The document that tells restrictions apart; the expected count has no part in it. -/
def toJson (constraints : Constraints) : Json :=
  .object [
    ("filter", constraints.filter.elim .null Filter.toTaggedJson),
    ("reducedBy", constraints.reducedBy.elim .null UniqueWhere.toTaggedJson)]

/-- Sixteen digits of the digest of the canonical document. -/
def digest (constraints : Constraints) : String :=
  String.ofList ((Digest.sha256Hex constraints.toJson.canonical.text).take 16)

/-- The name of a reference through `field`. -/
def placeholder (constraints : Constraints) (field : String) : String :=
  if constraints.filter.isNone && constraints.reducedBy.isNone then field
  else s!"{field}_{constraints.digest}"

end Constraints

/-- The name of the tree with this identifier. -/
def treePlaceholder (identifier : String) : String := s!"root_{identifier}"

end EntityGraph.Marker
