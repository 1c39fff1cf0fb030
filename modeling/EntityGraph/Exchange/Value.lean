import EntityGraph.Exchange.Reading
import EntityGraph.Value.Json
/-!
Values in exchange documents: the tagged form, in which every two values stay apart.
-/
namespace EntityGraph.Exchange

/-- A value of a kind that has a tag. -/
def taggedValue (kind : String) (json : Json) : Reading Value := do
  let text ← asText json
  match kind with
  | "literal" => return .literal text
  | "uuid" =>
    match Uuid.ofText? text with
    | some id => return .uuid id
    | none => .error s!"malformed uuid {text}"
  | "float" =>
    match Decimal.ofText? text with
    | some d => return .float d
    | none => .error s!"malformed decimal {text}"
  | _ => .error s!"unknown kind of value {kind}"

mutual
def value : Json → Reading Value
  | .null => .ok .null
  | .bool flag => .ok (.boolean flag)
  | .string text => .ok (.string text)
  | .number (.integer n) => .ok (.ofInt n)
  | .number (.double _) => .error "a decimal needs its tag"
  | .array items => .list <$> values items
  | .object [(kind, json)] => taggedValue kind json
  | .object _ => .error "malformed value"
termination_by structural json => json

def values : List Json → Reading (List Value)
  | [] => .ok []
  | item :: rest => do
    let head ← value item
    let tail ← values rest
    .ok (head :: tail)
termination_by structural items => items
end

def valueList (json : Json) : Reading (List Value) := do values (← asList json)

def ofValue (value : Value) : Json := value.toTaggedJson

def ofValues (values : List Value) : Json := listed ofValue values

/-- A value that may be absent, which is not the same as null. -/
def ofValue? : Option Value → Json
  | some value => .object [("some", ofValue value)]
  | none => .null

end EntityGraph.Exchange
