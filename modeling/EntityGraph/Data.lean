import EntityGraph.UniqueWhere
/-!
Input data of one row: column values and operations on related rows, in input order. Data nests
wherever an operation creates or updates a related row.
-/
namespace EntityGraph

/-- What can be asked of a related row. -/
inductive RelationOperation where
  | connect
  | create
  | update
  | upsert
  | disconnect
  | delete
deriving DecidableEq

namespace RelationOperation

def name : RelationOperation → String
  | connect => "connect"
  | create => "create"
  | update => "update"
  | upsert => "upsert"
  | disconnect => "disconnect"
  | delete => "delete"

def all : List RelationOperation := [connect, create, update, upsert, disconnect, delete]

def ofName? (name : String) : Option RelationOperation :=
  all.find? fun operation => operation.name = name

@[simp] theorem ofName?_name (operation : RelationOperation) :
    ofName? operation.name = some operation := by
  cases operation <;> decide

end RelationOperation

mutual
structure Data where
  fields : List (String × FieldInput)

inductive FieldInput where
  /-- A column value; on an owning has-one relation, a key of the target that is known to exist. -/
  | value (value : Value)
  | one (input : ToOneInput)
  | many (items : List ToManyItem)

/-- An operation on the row at the end of a has-one relation. -/
inductive ToOneInput where
  | connect (which : UniqueWhere)
  | create (data : Data)
  | update (data : Data)
  | upsert (create update : Data)
  | disconnect
  | delete

structure ToManyItem where
  label : Option String
  input : ToManyInput

/-- An operation on one of the rows at the end of a to-many relation. -/
inductive ToManyInput where
  | connect (which : UniqueWhere)
  | create (data : Data)
  | update (which : UniqueWhere) (data : Data)
  | upsert (which : UniqueWhere) (update create : Data)
  | disconnect (which : UniqueWhere)
  | delete (which : UniqueWhere)
end

namespace ToOneInput

def operation : ToOneInput → RelationOperation
  | connect _ => .connect
  | create _ => .create
  | update _ => .update
  | upsert .. => .upsert
  | disconnect => .disconnect
  | delete => .delete

end ToOneInput

namespace ToManyInput

def operation : ToManyInput → RelationOperation
  | connect _ => .connect
  | create _ => .create
  | update .. => .update
  | upsert .. => .upsert
  | disconnect _ => .disconnect
  | delete _ => .delete

end ToManyInput

namespace Data

def empty : Data := ⟨[]⟩

def get? (data : Data) (field : String) : Option FieldInput := Table.find? field data.fields

def size (data : Data) : Nat := data.fields.length

def isEmpty (data : Data) : Bool := data.fields.isEmpty

/-- Sets a field, in place of an input it may have had. -/
def set (data : Data) (field : String) (input : FieldInput) : Data :=
  ⟨Table.put field input data.fields⟩

def withValue (data : Data) (field : String) (value : Value) : Data := data.set field (.value value)

def withOne (data : Data) (field : String) (input : ToOneInput) : Data :=
  data.set field (.one input)

def ofPairs (pairs : List (String × FieldInput)) : Data := ⟨Table.ofPairs pairs⟩

end Data

end EntityGraph
