import EntityGraph.Data
import EntityGraph.UniqueWhere.Json
/-!
Reading input data from JSON objects. The kind of a field decides how its member is read: a value
for a column, one operation for a has-one relation, a list of operations for the others.
-/
namespace EntityGraph.Data

def labelKey : String := "alias"

/-- The unique where under a key of an operation's argument. -/
def whichOfMember (schema : Schema) (target : Entity) (place key : String) (argument : Json) :
    Except InputError UniqueWhere :=
  match argument.member? key with
  | some found => UniqueWhere.ofJson schema target found
  | none => .error (.malformed place (.missing key))

mutual
def ofJson (schema : Schema) (entity : Entity) : Json → Except InputError Data
  | .object members => addMembers schema entity .empty members
  | _ => .error (.malformed entity.name (.expected .dataObject))
termination_by structural json => json

/-- Adds the members of an object to the data, in their order. -/
def addMembers (schema : Schema) (entity : Entity) (data : Data) :
    List (String × Json) → Except InputError Data
  | [] => .ok data
  | (key, argument) :: rest =>
    match entity.field key with
    | .error e => .error (.schema e)
    | .ok (.column _) =>
      match Value.ofJson argument with
      | .error e => .error (.conversion e)
      | .ok value => addMembers schema entity (data.withValue key value) rest
    | .ok (.relation relation) =>
      match schema.targetEntity relation with
      | .error e => .error (.schema e)
      | .ok target =>
        if relation.kind.isHasOne then do
          let input ← toOneOfJson schema target key argument
          addMembers schema entity (data.set key (.one input)) rest
        else
          match argument with
          | .array items => do
            let items ← toManyOfJson schema target key items
            addMembers schema entity (data.set key (.many items)) rest
          | _ => .error (.malformed key (.expected .relationInputs))
termination_by structural members => members

/-- The data under a key of an operation's argument. -/
def dataOfMember (schema : Schema) (target : Entity) (place key : String) :
    List (String × Json) → Except InputError Data
  | [] => .error (.malformed place (.missing key))
  | (name, json) :: rest =>
    if name = key then ofJson schema target json
    else dataOfMember schema target place key rest
termination_by structural members => members

def toOneOfJson (schema : Schema) (target : Entity) (place : String) :
    Json → Except InputError ToOneInput
  | .object members => toOneOfMembers schema target place members
  | _ => .error (.malformed place (.expected .relationObject))
termination_by structural json => json

/-- The only operation of an object, whose label is passed over. -/
def toOneOfMembers (schema : Schema) (target : Entity) (place : String) :
    List (String × Json) → Except InputError ToOneInput
  | [] => .error (.malformed place (.expected .oneOperation))
  | (name, argument) :: rest =>
    if name = labelKey then toOneOfMembers schema target place rest
    else if rest.any fun (other, _) => other ≠ labelKey then
      .error (.malformed place (.expected .oneOperation))
    else
      match RelationOperation.ofName? name with
      | none => .error (.malformed place (.unknownOperation name))
      | some .connect => .connect <$> UniqueWhere.ofJson schema target argument
      | some .create => .create <$> ofJson schema target argument
      | some .update => .update <$> ofJson schema target argument
      | some .upsert =>
        match argument with
        | .object members => do
          let create ← dataOfMember schema target place "create" members
          let update ← dataOfMember schema target place "update" members
          .ok (.upsert create update)
        | _ => .error (.malformed place (.missing "create"))
      | some .disconnect => .ok .disconnect
      | some .delete => .ok .delete
termination_by structural members => members

def toManyOfJson (schema : Schema) (target : Entity) (place : String) :
    List Json → Except InputError (List ToManyItem)
  | [] => .ok []
  | .object members :: rest => do
    let input ← toManyOfMembers schema target place members
    let label := (Table.find? labelKey members).bind Json.asText?
    let items ← toManyOfJson schema target place rest
    .ok (⟨label, input⟩ :: items)
  | _ :: _ => .error (.malformed place (.expected .relationObject))
termination_by structural items => items

/-- The only operation of an object, whose label is passed over. -/
def toManyOfMembers (schema : Schema) (target : Entity) (place : String) :
    List (String × Json) → Except InputError ToManyInput
  | [] => .error (.malformed place (.expected .oneOperation))
  | (name, argument) :: rest =>
    if name = labelKey then toManyOfMembers schema target place rest
    else if rest.any fun (other, _) => other ≠ labelKey then
      .error (.malformed place (.expected .oneOperation))
    else
      match RelationOperation.ofName? name with
      | none => .error (.malformed place (.unknownOperation name))
      | some .connect => .connect <$> UniqueWhere.ofJson schema target argument
      | some .create => .create <$> ofJson schema target argument
      | some .update => do
        let which ← whichOfMember schema target place "by" argument
        match argument with
        | .object members => .update which <$> dataOfMember schema target place "data" members
        | _ => .error (.malformed place (.missing "data"))
      | some .upsert => do
        let which ← whichOfMember schema target place "by" argument
        match argument with
        | .object members => do
          let update ← dataOfMember schema target place "update" members
          let create ← dataOfMember schema target place "create" members
          .ok (.upsert which update create)
        | _ => .error (.malformed place (.missing "update"))
      | some .disconnect => .disconnect <$> UniqueWhere.ofJson schema target argument
      | some .delete => .delete <$> UniqueWhere.ofJson schema target argument
termination_by structural members => members
end

end EntityGraph.Data
