import EntityGraph.Exchange.Value
import EntityGraph.OrderBy
import EntityGraph.UniqueWhere
/-!
Conditions, filters, unique wheres and sort orders in exchange documents.
-/
namespace EntityGraph.Exchange

mutual
def condition : Json → Reading Condition
  | .object [(name, argument)] =>
    match Condition.Operator.ofName? name with
    | some .and =>
      match argument with
      | .array operands => .and <$> conditions operands
      | _ => .error "expected conditions"
    | some .or =>
      match argument with
      | .array operands => .or <$> conditions operands
      | _ => .error "expected conditions"
    | some .not => .not <$> condition argument
    | some (.compare comparison) => .compare comparison <$> value argument
    | some .oneOf => .oneOf <$> valueList argument
    | some .noneOf => .noneOf <$> valueList argument
    | some .isNull => .isNull <$> asFlag argument
    | some .null => .null <$> asFlag argument
    | some .never => .ok .never
    | some .always => .ok .always
    | none => .error s!"unknown condition {name}"
  | _ => .error "malformed condition"
termination_by structural json => json

def conditions : List Json → Reading (List Condition)
  | [] => .ok []
  | item :: rest => do
    let head ← condition item
    let tail ← conditions rest
    .ok (head :: tail)
termination_by structural items => items
end

def ofCondition (condition : Condition) : Json := condition.toJsonWith ofValue

mutual
def filter : Json → Reading Filter
  | .object members => filterParts .empty members
  | _ => .error "malformed filter"
termination_by structural json => json

/-- Adds the given parts to a filter. -/
def filterParts (parts : Filter) : Table Json → Reading Filter
  | [] => .ok parts
  | ("and", .array operands) :: rest => do
    let operands ← filters operands
    filterParts { parts with and := operands } rest
  | ("or", .array operands) :: rest => do
    let operands ← filters operands
    filterParts { parts with or := operands } rest
  | ("not", operand) :: rest => do
    let operand ← optionalFilter operand
    filterParts { parts with not := operand } rest
  | ("fields", .object fields) :: rest => do
    let fields ← fieldFilters fields
    filterParts { parts with fields := Table.ofPairsSorted fields } rest
  | (_, .null) :: rest => filterParts parts rest
  | (key, _) :: _ => .error s!"malformed part {key}"
termination_by structural members => members

def filters : List Json → Reading (List Filter)
  | [] => .ok []
  | item :: rest => do
    let head ← filter item
    let tail ← filters rest
    .ok (head :: tail)
termination_by structural items => items

def optionalFilter : Json → Reading (Option Filter)
  | .null => .ok none
  | .object members => some <$> filterParts .empty members
  | _ => .error "malformed filter"
termination_by structural json => json

def fieldFilters : Table Json → Reading (Table FieldFilter)
  | [] => .ok []
  | (name, .object [("cond", json)]) :: rest => do
    let head ← condition json
    let tail ← fieldFilters rest
    .ok ((name, .condition head) :: tail)
  | (name, .object [("rel", json)]) :: rest => do
    let head ← filter json
    let tail ← fieldFilters rest
    .ok ((name, .relation head) :: tail)
  | (name, _) :: _ => .error s!"malformed filter of {name}"
termination_by structural members => members
end

def ofPart (key : String) (items : List Json) : Table Json :=
  if items.isEmpty then [] else [(key, .array items)]

mutual
def ofFilter : Filter → Json
  | ⟨and, or, not, fields⟩ =>
    .object (ofPart "and" (ofFilters and) ++ ofPart "or" (ofFilters or) ++ ofNegation not ++
      if fields.isEmpty then [] else [("fields", .object (ofFieldFilters fields))])
termination_by structural filter => filter

def ofFilters : List Filter → List Json
  | [] => []
  | filter :: rest => ofFilter filter :: ofFilters rest
termination_by structural filters => filters

def ofNegation : Option Filter → Table Json
  | none => []
  | some filter => [("not", ofFilter filter)]
termination_by structural filter => filter

def ofFieldFilters : List (String × FieldFilter) → Table Json
  | [] => []
  | (name, .condition condition) :: rest =>
    (name, .object [("cond", ofCondition condition)]) :: ofFieldFilters rest
  | (name, .relation filter) :: rest =>
    (name, .object [("rel", ofFilter filter)]) :: ofFieldFilters rest
termination_by structural fields => fields
end

mutual
def uniqueWhere : Json → Reading UniqueWhere
  | .object members => do
    let nodes ← uniqueNodes members
    .ok ⟨Table.ofPairsSorted nodes⟩
  | _ => .error "malformed unique where"
termination_by structural json => json

def uniqueNodes : Table Json → Reading (Table UniqueNode)
  | [] => .ok []
  | (name, .object [("value", json)]) :: rest => do
    let head ← value json
    let tail ← uniqueNodes rest
    .ok ((name, .value head) :: tail)
  | (name, .object [("rel", json)]) :: rest => do
    let head ← uniqueWhere json
    let tail ← uniqueNodes rest
    .ok ((name, .relation head) :: tail)
  | (name, _) :: _ => .error s!"malformed node {name}"
termination_by structural members => members
end

mutual
def ofUnique : UniqueWhere → Json
  | ⟨nodes⟩ => .object (ofUniqueNodes nodes)
termination_by structural which => which

def ofUniqueNodes : List (String × UniqueNode) → Table Json
  | [] => []
  | (name, .value value) :: rest => (name, .object [("value", ofValue value)]) :: ofUniqueNodes rest
  | (name, .relation nested) :: rest =>
    (name, .object [("rel", ofUnique nested)]) :: ofUniqueNodes rest
termination_by structural nodes => nodes
end

def orderTerm (json : Json) : Reading OrderTerm := do
  return ⟨← required "path" json asTexts, ← required "order" json (word SortOrder.ofText?)⟩

def orderBy (json : Json) : Reading OrderBy := listOf orderTerm json

def ofOrderBy (terms : OrderBy) : Json :=
  listed (fun (term : OrderTerm) =>
    .object [("path", .strings term.path), ("order", .string term.order.text)]) terms

end EntityGraph.Exchange
