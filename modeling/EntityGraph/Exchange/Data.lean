import EntityGraph.Data
import EntityGraph.Exchange.Filter
/-!
Input data in exchange documents: pairs of a field and its input, in order.
-/
namespace EntityGraph.Exchange

mutual
def data : Json → Reading Data
  | .array fields => do
    let fields ← fieldInputs fields
    .ok (.ofPairs fields)
  | _ => .error "malformed data"
termination_by structural json => json

def fieldInputs : List Json → Reading (Table FieldInput)
  | [] => .ok []
  | .array [.string field, json] :: rest => do
    let head ← fieldInput json
    let tail ← fieldInputs rest
    .ok ((field, head) :: tail)
  | _ :: _ => .error "malformed field"
termination_by structural fields => fields

def fieldInput : Json → Reading FieldInput
  | .object [("value", json)] => .value <$> value json
  | .object [("one", json)] => .one <$> toOneInput json
  | .object [("many", .array items)] => .many <$> toManyItems items
  | _ => .error "malformed field input"
termination_by structural json => json

def toOneInput : Json → Reading ToOneInput
  | .object [("connect", json)] => .connect <$> uniqueWhere json
  | .object [("create", json)] => .create <$> data json
  | .object [("update", json)] => .update <$> data json
  | .object [("upsert", .object [(a, first), (b, second)])] => do
    let first ← data first
    let second ← data second
    if a = "create" && b = "update" then .ok (.upsert first second)
    else if a = "update" && b = "create" then .ok (.upsert second first)
    else .error "malformed upsert"
  | .object [("disconnect", _)] => .ok .disconnect
  | .object [("delete", _)] => .ok .delete
  | _ => .error "malformed operation"
termination_by structural json => json

def toManyItems : List Json → Reading (List ToManyItem)
  | [] => .ok []
  | .object members :: rest => do
    let label ← optional "alias" (.object members) asText
    let input ← itemInput members
    let tail ← toManyItems rest
    .ok (⟨label, input⟩ :: tail)
  | _ :: _ => .error "malformed item"
termination_by structural items => items

/-- The member of an item that holds its input. -/
def itemInput : Table Json → Reading ToManyInput
  | [] => .error "missing input"
  | ("input", json) :: _ => toManyInput json
  | _ :: rest => itemInput rest
termination_by structural members => members

def toManyInput : Json → Reading ToManyInput
  | .object [("connect", json)] => .connect <$> uniqueWhere json
  | .object [("create", json)] => .create <$> data json
  | .object [("update", .object members)] => do
    .ok (.update (← required "by" (.object members) uniqueWhere) (← dataAt "data" members))
  | .object [("upsert", .object members)] => do
    .ok (.upsert (← required "by" (.object members) uniqueWhere) (← dataAt "update" members)
      (← dataAt "create" members))
  | .object [("disconnect", json)] => .disconnect <$> uniqueWhere json
  | .object [("delete", json)] => .delete <$> uniqueWhere json
  | _ => .error "malformed operation"
termination_by structural json => json

def dataAt (key : String) : Table Json → Reading Data
  | [] => .error s!"missing {key}"
  | (other, json) :: rest => if other = key then data json else dataAt key rest
termination_by structural members => members
end

mutual
def ofData : Data → Json
  | ⟨fields⟩ => .array (ofFieldInputs fields)
termination_by structural data => data

def ofFieldInputs : List (String × FieldInput) → List Json
  | [] => []
  | (field, input) :: rest => .array [.string field, ofFieldInput input] :: ofFieldInputs rest
termination_by structural fields => fields

def ofFieldInput : FieldInput → Json
  | .value value => .object [("value", ofValue value)]
  | .one input => .object [("one", ofToOne input)]
  | .many items => .object [("many", .array (ofToManyItems items))]
termination_by structural input => input

def ofToOne : ToOneInput → Json
  | .connect which => .object [("connect", ofUnique which)]
  | .create data => .object [("create", ofData data)]
  | .update data => .object [("update", ofData data)]
  | .upsert create update =>
    .object [("upsert", .object [("create", ofData create), ("update", ofData update)])]
  | .disconnect => .object [("disconnect", .bool true)]
  | .delete => .object [("delete", .bool true)]
termination_by structural input => input

def ofToManyItems : List ToManyItem → List Json
  | [] => []
  | ⟨label, input⟩ :: rest =>
    .object [("alias", .ofText? label), ("input", ofToMany input)] :: ofToManyItems rest
termination_by structural items => items

def ofToMany : ToManyInput → Json
  | .connect which => .object [("connect", ofUnique which)]
  | .create data => .object [("create", ofData data)]
  | .update which data =>
    .object [("update", .object [("by", ofUnique which), ("data", ofData data)])]
  | .upsert which update create =>
    .object [("upsert", .object [("by", ofUnique which), ("update", ofData update),
      ("create", ofData create)])]
  | .disconnect which => .object [("disconnect", ofUnique which)]
  | .delete which => .object [("delete", ofUnique which)]
termination_by structural input => input
end

end EntityGraph.Exchange
