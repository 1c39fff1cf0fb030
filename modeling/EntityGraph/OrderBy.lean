import EntityGraph.Json
/-!
Sort orders: paths over relations to a column, each ascending or descending.
-/
namespace EntityGraph

inductive SortOrder where
  | ascending
  | descending
deriving DecidableEq

namespace SortOrder

def text : SortOrder → String
  | ascending => "asc"
  | descending => "desc"

def ofText? : String → Option SortOrder
  | "asc" => some ascending
  | "desc" => some descending
  | _ => none

@[simp] theorem ofText?_text (order : SortOrder) : ofText? order.text = some order := by
  cases order <;> rfl

theorem ofText?_eq_some_iff {text : String} {order : SortOrder} :
    ofText? text = some order ↔ text = order.text := by
  constructor
  · intro h
    unfold ofText? at h
    split at h <;> cases h <;> rfl
  · rintro rfl
    exact ofText?_text order

end SortOrder

structure OrderTerm where
  path : List String
  order : SortOrder
deriving DecidableEq

/-- The nested object form of a term: every step holds the next, the last one the direction. -/
def OrderTerm.toJson (term : OrderTerm) : Json :=
  term.path.foldr (fun step json => .object [(step, json)]) (.string term.order.text)

abbrev OrderBy := List OrderTerm

end EntityGraph
