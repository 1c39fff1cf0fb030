import EntityGraph.Table
import EntityGraph.Value
/-!
Environments: what the variables of an expression stand for. Names hold one value each and
dimensions hold lists; a variable takes a name first, then a dimension of exactly one value.
-/
namespace EntityGraph.Language

inductive EnvironmentError where
  | undefinedVariable (name : String)
  | ambiguousDimension (name : String) (count : Nat)
  | undefinedDimension (name : String)
deriving DecidableEq

def EnvironmentError.message : EnvironmentError → String
  | undefinedVariable name => s!"Undefined variable ${name}."
  | ambiguousDimension name count =>
    s!"The variable ${name} resolved to a dimension which exists but contains {count} values. " ++
      "It has to contain exactly one. Perhaps you forgot to set the 'maxItems' prop of your " ++
      "DimensionsSwitcher?"
  | undefinedDimension name => s!"Undefined dimension '{name}'"

/-- Both tables are in ascending order of their keys. -/
structure Environment where
  names : Table Value
  dimensions : Table (List Value)

namespace Environment

def empty : Environment := ⟨[], []⟩

/-- Given names hide those of the same spelling. -/
def withNames (env : Environment) (names : Table Value) : Environment :=
  { env with names := names.foldl (fun table (name, value) => table.insert name value) env.names }

def withDimensions (env : Environment) (dimensions : Table (List Value)) : Environment :=
  { env with
    dimensions := dimensions.foldl (fun table (name, values) => table.insert name values)
      env.dimensions }

def value (env : Environment) (name : String) : Except EnvironmentError Value :=
  match env.names.find? name with
  | some value => .ok value
  | none => .error (.undefinedVariable name)

def dimension (env : Environment) (name : String) : Except EnvironmentError (List Value) :=
  match env.dimensions.find? name with
  | some values => .ok values
  | none => .error (.undefinedDimension name)

/-- The value of a variable. -/
def resolve (env : Environment) (name : String) : Except EnvironmentError Value :=
  match env.names.find? name, env.dimensions.find? name with
  | some value, _ => .ok value
  | none, some [value] => .ok value
  | none, some values => .error (.ambiguousDimension name values.length)
  | none, none => .error (.undefinedVariable name)

end Environment

end EntityGraph.Language
