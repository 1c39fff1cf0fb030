import EntityGraph.Filter
import EntityGraph.Value.Order
/-!
Unique wheres: values at the ends of field paths that together address one row. Assigning a value
at a path creates the relations on the way.
-/
namespace EntityGraph

mutual
/-- The nodes are kept in ascending order of their names. -/
structure UniqueWhere where
  nodes : List (String × UniqueNode)

inductive UniqueNode where
  | value (value : Value)
  | relation (nested : UniqueWhere)
end

namespace UniqueWhere

def empty : UniqueWhere := ⟨[]⟩

def single (field : String) (value : Value) : UniqueWhere := ⟨[(field, .value value)]⟩

def withValue (which : UniqueWhere) (field : String) (value : Value) : UniqueWhere :=
  ⟨Table.insert field (.value value) which.nodes⟩

def withRelation (which : UniqueWhere) (field : String) (nested : UniqueWhere) : UniqueWhere :=
  ⟨Table.insert field (.relation nested) which.nodes⟩

def get? (which : UniqueWhere) (field : String) : Option UniqueNode :=
  Table.find? field which.nodes

/-- The value stored directly under a field. -/
def value? (which : UniqueWhere) (field : String) : Option Value :=
  match which.get? field with
  | some (.value value) => some value
  | _ => none

def keys (which : UniqueWhere) : List String := Table.keys which.nodes

def size (which : UniqueWhere) : Nat := which.nodes.length

def isEmpty (which : UniqueWhere) : Bool := which.nodes.isEmpty

/-- Assigns below `walked`, the steps taken so far: the outcome, and the where afterwards. -/
def assignBelow (walked : List String) (value : Value) :
    List String → UniqueWhere → Except InputError Unit × UniqueWhere
  | [], which => (.ok (), which)
  | [leaf], which =>
    match which.get? leaf with
    | some _ => (.error (.duplicateUnique (walked ++ [leaf])), which)
    | none => (.ok (), which.withValue leaf value)
  | step :: rest, which =>
    match which.get? step with
    | some (.value _) => (.error (.scalarAndRelation (walked ++ [step])), which)
    | some (.relation nested) =>
      let (outcome, nested) := assignBelow (walked ++ [step]) value rest nested
      (outcome, which.withRelation step nested)
    | none =>
      let (outcome, nested) := assignBelow (walked ++ [step]) value rest empty
      (outcome, which.withRelation step nested)

/-- Assigns a value at a path. It is an error to assign a leaf twice or to go through a value. -/
def assign (which : UniqueWhere) (path : List String) (value : Value) :
    Except InputError Unit × UniqueWhere :=
  assignBelow [] value path which

mutual
/-- The filter that asks for equality at every leaf. -/
def toFilter : UniqueWhere → Filter
  | ⟨nodes⟩ => .ofFields (nodesToFields nodes)
termination_by structural which => which

def nodesToFields : List (String × UniqueNode) → Table FieldFilter
  | [] => []
  | (name, .value value) :: rest =>
    (name, .condition (.compare .equal value)) :: nodesToFields rest
  | (name, .relation nested) :: rest => (name, .relation (toFilter nested)) :: nodesToFields rest
termination_by structural nodes => nodes
end

mutual
/-- Whether two unique wheres have the same leaves with the same values. -/
def equal : UniqueWhere → UniqueWhere → Bool
  | ⟨nodes⟩, ⟨others⟩ => equalNodes nodes others
termination_by structural which => which

def equalNodes : List (String × UniqueNode) → List (String × UniqueNode) → Bool
  | [], [] => true
  | (a, .value v) :: rest, (b, .value w) :: others => a = b && v.equal w && equalNodes rest others
  | (a, .relation v) :: rest, (b, .relation w) :: others =>
    a = b && equal v w && equalNodes rest others
  | _, _ => false
termination_by structural nodes => nodes
end

end UniqueWhere

end EntityGraph
