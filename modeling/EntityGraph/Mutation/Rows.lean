import EntityGraph.Mutation.Collect
import EntityGraph.Schema
/-!
Operations on single rows, as the inputs of relations ask for them. A write may bring related
writes with it, and reports the results of all of them.
-/
namespace EntityGraph.Mutation

inductive RowRequest where
  /-- Inserts a row with what its data asks for; the result of the row itself comes first. -/
  | insert (entity : Entity) (data : Data)
  | update (entity : Entity) (which : UniqueWhere) (data : Data)
  | delete (entity : Entity) (which : UniqueWhere)
  /-- The value behind a field, unless the row is missing or the value is null. -/
  | selectField (entity : Entity) (which : UniqueWhere) (field : String)
  | primaryValue (entity : Entity) (which : UniqueWhere)
  /-- Links two rows through the junction table of an owning many-to-many relation. -/
  | connect (owner : Entity) (relation : Relation) (ownerKey inversedKey : Value)
  | disconnect (owner : Entity) (relation : Relation) (ownerKey inversedKey : Value)

def RowRequest.Reply : RowRequest → Type
  | selectField .. => Except Failure (Option Value)
  | primaryValue .. => Except Failure (Option Value)
  | _ => Except Failure (List Result)

def Rows : Interface := ⟨RowRequest, RowRequest.Reply⟩

namespace Rows

def insert (entity : Entity) (data : Data) : Action Rows (List Result) :=
  Program.ask (.insert entity data) Program.done

def update (entity : Entity) (which : UniqueWhere) (data : Data) : Action Rows (List Result) :=
  Program.ask (.update entity which data) Program.done

def delete (entity : Entity) (which : UniqueWhere) : Action Rows (List Result) :=
  Program.ask (.delete entity which) Program.done

def selectField (entity : Entity) (which : UniqueWhere) (field : String) :
    Action Rows (Option Value) :=
  Program.ask (.selectField entity which field) Program.done

def primaryValue (entity : Entity) (which : UniqueWhere) : Action Rows (Option Value) :=
  Program.ask (.primaryValue entity which) Program.done

def connect (owner : Entity) (relation : Relation) (ownerKey inversedKey : Value) :
    Action Rows (List Result) :=
  Program.ask (.connect owner relation ownerKey inversedKey) Program.done

def disconnect (owner : Entity) (relation : Relation) (ownerKey inversedKey : Value) :
    Action Rows (List Result) :=
  Program.ask (.disconnect owner relation ownerKey inversedKey) Program.done

end Rows

/-- The unique where that selects a row by its primary key. -/
def byPrimary (entity : Entity) (primary : Value) : UniqueWhere := .single entity.primary primary

end EntityGraph.Mutation
