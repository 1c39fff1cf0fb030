import EntityGraph.Comparison
import EntityGraph.InputError
import EntityGraph.Value.Json
/-!
Conditions on one column. A node carries exactly one operator, and in JSON it is an object with
that operator as its only member.
-/
namespace EntityGraph

inductive Condition where
  | and (operands : List Condition)
  | or (operands : List Condition)
  | not (operand : Condition)
  | compare (comparison : Comparison) (value : Value)
  | oneOf (values : List Value)
  | noneOf (values : List Value)
  | isNull (flag : Bool)
  /-- The spelling of `isNull` that comparisons with `null` in expressions have. -/
  | null (flag : Bool)
  | never
  | always

namespace Condition

inductive Operator where
  | and
  | or
  | not
  | compare (comparison : Comparison)
  | oneOf
  | noneOf
  | isNull
  | null
  | never
  | always
deriving DecidableEq

namespace Operator

def name : Operator → String
  | and => "and"
  | or => "or"
  | not => "not"
  | compare .equal => "eq"
  | compare .notEqual => "notEq"
  | compare .less => "lt"
  | compare .lessOrEqual => "lte"
  | compare .greater => "gt"
  | compare .greaterOrEqual => "gte"
  | oneOf => "in"
  | noneOf => "notIn"
  | isNull => "isNull"
  | null => "null"
  | never => "never"
  | always => "always"

def all : List Operator :=
  [and, or, not, compare .equal, compare .notEqual, compare .less, compare .lessOrEqual,
   compare .greater, compare .greaterOrEqual, oneOf, noneOf, isNull, null, never, always]

def ofName? (name : String) : Option Operator := all.find? fun operator => operator.name = name

@[simp] theorem ofName?_name (operator : Operator) : ofName? operator.name = some operator := by
  cases operator with
  | compare comparison => cases comparison <;> decide
  | _ => decide

end Operator

def operator : Condition → Operator
  | and _ => .and
  | or _ => .or
  | not _ => .not
  | compare comparison _ => .compare comparison
  | oneOf _ => .oneOf
  | noneOf _ => .noneOf
  | isNull _ => .isNull
  | null _ => .null
  | never => .never
  | always => .always

mutual
/-- The object of a condition, values being written by `encode`. -/
def toJsonWith (encode : Value → Json) : Condition → Json
  | and operands => .object [("and", .array (allToJsonWith encode operands))]
  | or operands => .object [("or", .array (allToJsonWith encode operands))]
  | not operand => .object [("not", toJsonWith encode operand)]
  | compare comparison value => .object [((Operator.compare comparison).name, encode value)]
  | oneOf values => .object [("in", .array (values.map encode))]
  | noneOf values => .object [("notIn", .array (values.map encode))]
  | isNull flag => .object [("isNull", .bool flag)]
  | null flag => .object [("null", .bool flag)]
  | never => .object [("never", .bool true)]
  | always => .object [("always", .bool true)]
termination_by structural condition => condition

def allToJsonWith (encode : Value → Json) : List Condition → List Json
  | [] => []
  | condition :: rest => toJsonWith encode condition :: allToJsonWith encode rest
termination_by structural conditions => conditions
end

def toJson (condition : Condition) : Json := condition.toJsonWith Value.toJson

def valueOfJson (json : Json) : Except InputError Value :=
  (Value.ofJson json).mapError .conversion

def valuesOfJson (operator : Operator) : Json → Except InputError (List Value)
  | .array items => (Value.allOfJson items).mapError .conversion
  | _ => .error (.malformed operator.name (.expected .values))

def flagOfJson (operator : Operator) : Json → Except InputError Bool
  | .bool flag => .ok flag
  | _ => .error (.malformed operator.name (.expected .flag))

mutual
/-- Reads the object of a condition; an empty object restricts nothing. -/
def ofJson : Json → Except InputError Condition
  | .object [] => .ok .always
  | .object [(name, argument)] =>
    match Operator.ofName? name with
    | none => .error (.unknownOperator name)
    | some .and =>
      match argument with
      | .array items => .and <$> allOfJson items
      | _ => .error (.malformed "and" (.expected .conditions))
    | some .or =>
      match argument with
      | .array items => .or <$> allOfJson items
      | _ => .error (.malformed "or" (.expected .conditions))
    | some .not => .not <$> ofJson argument
    | some (.compare comparison) => .compare comparison <$> valueOfJson argument
    | some .oneOf => .oneOf <$> valuesOfJson .oneOf argument
    | some .noneOf => .noneOf <$> valuesOfJson .noneOf argument
    | some .isNull => .isNull <$> flagOfJson .isNull argument
    | some .null => .null <$> flagOfJson .null argument
    | some .never => .ok .never
    | some .always => .ok .always
  | .object (_ :: _ :: _) => .error .severalOperators
  | _ => .error (.malformed "condition" (.expected .conditionObject))
termination_by structural json => json

def allOfJson : List Json → Except InputError (List Condition)
  | [] => .ok []
  | item :: rest => do
    let condition ← ofJson item
    let conditions ← allOfJson rest
    .ok (condition :: conditions)
termination_by structural items => items
end

end Condition

end EntityGraph
