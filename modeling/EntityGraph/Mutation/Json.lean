import EntityGraph.Mutation.Failure
import EntityGraph.Mutation.Response
/-!
Results and responses as JSON. A response lists its errors only.
-/
namespace EntityGraph.Mutation

def pathToJson (path : Path) : Json := .array (path.map PathSegment.toJson)

def valuesToJson (values : Table Value) : Json :=
  .object (values.map fun (field, value) => (field, value.toJson))

def Outcome.toMembers : Outcome → Table Json
  | created entity primary values =>
    [("entity", .string entity), ("primary", primary.toJson), ("values", valuesToJson values)]
  | updated entity primary values =>
    [("entity", .string entity), ("primary", primary.toJson), ("values", valuesToJson values)]
  | deleted entity primary => [("entity", .string entity), ("primary", primary.toJson)]
  | linked entity relation owner inversed =>
    [("entity", .string entity), ("relation", .string relation), ("owner", owner.toJson),
     ("inversed", inversed.toJson)]
  | notFound which => [("where", which.toJson)]
  | idle reason => [("reason", .string reason.name)]
  | violation constraint => [("constraint", .string constraint.name)]
  | denied => []
  | nonUniqueWhere _ => [("kind", .string "nonUniqueWhere")]

def Result.toJson (result : Result) : Json :=
  let modification := match result.outcome.modification? with
    | some kind => [("type", .string kind.name)]
    | none => []
  let message := match result.outcome.message? with
    | some text => [("message", .string text)]
    | none => []
  .object ([("result", .string result.outcome.kind.name), ("path", pathToJson result.path)] ++
    modification ++ result.outcome.toMembers ++ message)

def ResponseError.toJson (e : ResponseError) : Json :=
  .object [("type", .string e.kind.name), ("message", .ofText? e.message),
    ("path", pathToJson e.path)]

def Response.toJson (response : Response) : Json :=
  .object [("ok", .bool response.isOk), ("errors", .array (response.errors.map ResponseError.toJson))]

/-- All that a client gets to see of a fatal failure. -/
def Failure.toJson (failure : Failure) : Json := .string failure.message

end EntityGraph.Mutation
