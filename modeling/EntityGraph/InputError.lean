import EntityGraph.Value
import EntityGraph.Schema
/-!
What can be wrong with an input object, and the message for it.
-/
namespace EntityGraph

/-- What stands where something else was expected. -/
inductive Expected where
  | filterObject
  | uniqueObject
  | dataObject
  | conditionObject
  | relationObject
  | oneOperation
  | filters
  | conditions
  | values
  | relationInputs
  | flag
deriving DecidableEq

def Expected.text : Expected → String
  | filterObject => "a where object"
  | uniqueObject => "a unique where object"
  | dataObject => "a data object"
  | conditionObject => "an object"
  | relationObject => "a relation input object"
  | oneOperation => "exactly one operation"
  | filters => "a list"
  | conditions => "a list of conditions"
  | values => "a list of values"
  | relationInputs => "a list of relation inputs"
  | flag => "a boolean"

inductive Malformation where
  | expected (what : Expected)
  | missing (key : String)
  | unknownOperation (name : String)
  | other (message : String)
deriving DecidableEq

def Malformation.message : Malformation → String
  | expected what => s!"expected {what.text}"
  | missing key => s!"missing `{key}`"
  | unknownOperation name => s!"unknown operation `{name}`"
  | other message => message

inductive InputError where
  | severalOperators
  | unknownOperator (name : String)
  | duplicateUnique (path : List String)
  | scalarAndRelation (path : List String)
  | malformed (place : String) (fault : Malformation)
  | schema (e : SchemaError)
  | conversion (e : ConversionError)
deriving DecidableEq

def InputError.message : InputError → String
  | severalOperators =>
    "Only single field is allowed. If you want to combine multiple conditions, use \"and\" or \"or\""
  | unknownOperator name => s!"Unknown condition operator `{name}`"
  | duplicateUnique path => "Duplicate '" ++ ".".intercalate path ++ "' field"
  | scalarAndRelation path =>
    "Malformed expression: cannot simultaneously treat the '" ++ ".".intercalate path ++
      "' field as a scalar as well as a relation."
  | malformed place fault => s!"Invalid input at `{place}`: {fault.message}"
  | schema e => e.message
  | conversion e => e.message

end EntityGraph
