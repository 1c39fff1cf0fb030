import EntityGraph.Json
/-!
Reading exchange documents: JSON in which other programs hand structures of this library over. A
member that is null counts as missing unless its place says otherwise.
-/
namespace EntityGraph.Exchange

/-- What was read, or what is wrong with the document. -/
abbrev Reading := Except String

def asText : Json → Reading String
  | .string text => .ok text
  | _ => .error "expected a string"

def asList : Json → Reading (List Json)
  | .array items => .ok items
  | _ => .error "expected a list"

def asMembers : Json → Reading (Table Json)
  | .object members => .ok members
  | _ => .error "expected an object"

def asInteger : Json → Reading Int
  | .number (.integer n) => .ok n
  | _ => .error "expected an integer"

def asNat (json : Json) : Reading Nat := Int.toNat <$> asInteger json

def asFlag : Json → Reading Bool
  | .bool flag => .ok flag
  | _ => .error "expected a boolean"

def listOf {α : Type} (read : Json → Reading α) (json : Json) : Reading (List α) := do
  (← asList json).mapM read

def asTexts (json : Json) : Reading (List String) := listOf asText json

def pairOf {α β : Type} (first : Json → Reading α) (second : Json → Reading β) :
    Json → Reading (α × β)
  | .array [a, b] => do return (← first a, ← second b)
  | _ => .error "expected a pair"

/-- The values of an object under their keys. -/
def tableOf {α : Type} (read : Json → Reading α) (json : Json) : Reading (Table α) := do
  (← asMembers json).mapM fun (key, member) => return (key, ← read member)

/-- The only member of an object. -/
def single : Json → Reading (String × Json)
  | .object [member] => .ok member
  | _ => .error "expected one member"

/-- A member that may be null. -/
def member (key : String) (json : Json) : Reading Json :=
  match json.member? key with
  | some found => .ok found
  | none => .error s!"missing {key}"

/-- A member that is neither missing nor null. -/
def given? (key : String) (json : Json) : Option Json :=
  match json.member? key with
  | some .null => none
  | found => found

def required {α : Type} (key : String) (json : Json) (read : Json → Reading α) : Reading α := do
  read (← member key json)

def text (key : String) (json : Json) : Reading String := required key json asText

def optional {α : Type} (key : String) (json : Json) (read : Json → Reading α) :
    Reading (Option α) :=
  match given? key json with
  | some found => some <$> read found
  | none => .ok none

def orElse {α : Type} (key : String) (json : Json) (default : α) (read : Json → Reading α) :
    Reading α :=
  match given? key json with
  | some found => read found
  | none => .ok default

def flag (key : String) (json : Json) : Bool :=
  match json.member? key with
  | some (.bool flag) => flag
  | _ => false

/-- Reads a word by a partial function from words. -/
def word {α : Type} (ofName? : String → Option α) (json : Json) : Reading α := do
  let name ← asText json
  match ofName? name with
  | some a => return a
  | none => .error s!"unknown word {name}"

def natural (n : Nat) : Json := .integer n

def nullable {α : Type} (write : α → Json) : Option α → Json
  | some a => write a
  | none => .null

/-- A table as a list of pairs, where order matters. -/
def pairs {α : Type} (write : α → Json) (table : Table α) : Json :=
  .array (table.map fun (key, entry) => .array [.string key, write entry])

def listed {α : Type} (write : α → Json) (items : List α) : Json := .array (items.map write)

end EntityGraph.Exchange
