import EntityGraph.Event
import EntityGraph.Exchange.Filter
import EntityGraph.Mutation.FieldValues
import EntityGraph.Mutation.Rows
/-!
Results, failures and field values of mutations in exchange documents. A failure is given by its
cause and answered as its kind and its message.
-/
namespace EntityGraph.Exchange

open Mutation (ConstraintKind Failure FieldValue FieldValues IdleReason Outcome Path PathSegment
  Result Rows)

def pathSegment (json : Json) : Reading PathSegment := do
  match given? "field" json with
  | some field => .field <$> asText field
  | none => return .index (← required "index" json asNat) (← optional "alias" json asText)

def path (json : Json) : Reading Path := listOf pathSegment json

def ofPath (path : Path) : Json := listed PathSegment.toJson path

def idleReason? : String → Option IdleReason
  | "noData" => some .noData
  | "emptyRelation" => some .emptyRelation
  | "alreadyExists" => some .alreadyExists
  | _ => none

def constraintKind? : String → Option ConstraintKind
  | "notNull" => some .notNull
  | "uniqueKey" => some .uniqueKey
  | "foreignKey" => some .foreignKey
  | _ => none

def rowValues (json : Json) : Reading (Table Value) :=
  Table.ofPairs <$> listOf (pairOf asText value) json

def outcome (json : Json) : Reading Outcome := do
  let entity := text "entity" json
  let valueAt (key : String) := required key json value
  let valuesAt := required "values" json rowValues
  match ← text "kind" json with
  | "CreateOk" => return .created (← entity) (← valueAt "primary") (← valuesAt)
  | "UpdateOk" => return .updated (← entity) (← valueAt "primary") (← valuesAt)
  | "DeleteOk" => return .deleted (← entity) (← valueAt "primary")
  | "JunctionUpdateOk" =>
    return .linked (← entity) (← text "relation" json) (← valueAt "owner") (← valueAt "inversed")
  | "NotFound" => .notFound <$> required "where" json uniqueWhere
  | "NothingToDo" => .idle <$> required "reason" json (word idleReason?)
  | "ConstraintViolation" => .violation <$> required "constraint" json (word constraintKind?)
  | "NoResult" => return .denied
  | "InputError" => .nonUniqueWhere <$> optional "message" json asText
  | kind => .error s!"unknown result {kind}"

def result (json : Json) : Reading Result := do
  return ⟨← orElse "path" json [] path, ← outcome json⟩

def results (json : Json) : Reading (List Result) := listOf result json

def ofOutcome : Outcome → Table Json
  | .created entity primary values =>
    [("kind", .string "CreateOk"), ("entity", .string entity), ("primary", ofValue primary),
     ("values", pairs ofValue values)]
  | .updated entity primary values =>
    [("kind", .string "UpdateOk"), ("entity", .string entity), ("primary", ofValue primary),
     ("values", pairs ofValue values)]
  | .deleted entity primary =>
    [("kind", .string "DeleteOk"), ("entity", .string entity), ("primary", ofValue primary)]
  | .linked entity relation owner inversed =>
    [("kind", .string "JunctionUpdateOk"), ("entity", .string entity),
     ("relation", .string relation), ("owner", ofValue owner), ("inversed", ofValue inversed)]
  | .notFound which => [("kind", .string "NotFound"), ("where", ofUnique which)]
  | .idle reason => [("kind", .string "NothingToDo"), ("reason", .string reason.name)]
  | .violation constraint =>
    [("kind", .string "ConstraintViolation"), ("constraint", .string constraint.name)]
  | .denied => [("kind", .string "NoResult")]
  | .nonUniqueWhere message => [("kind", .string "InputError"), ("message", .ofText? message)]

def ofResult (result : Result) : Json :=
  .object (("path", ofPath result.path) :: ofOutcome result.outcome)

def ofResults (results : List Result) : Json := listed ofResult results

/-! Failures -/

def serverError (json : Json) : Reading Database.ServerError := do
  let textOr (key : String) := orElse key json "" asText
  return ⟨← textOr "code", ← textOr "message", ← textOr "severity",
    ← optional "detail" json asText, ← optional "column" json asText,
    ← optional "constraint" json asText, ← optional "table" json asText⟩

/-- A fault of the database by its name; any other name is the reason of a failed conversion. -/
def faultNamed : String → Database.Fault
  | "NotFound" => .noRecord
  | "ConnectionClosed" => .connectionClosed
  | "ColumnNotFound" => .unknownColumn "x"
  | reason => .conversion reason

/-- A failure by its cause; a cause of no known kind names a fault of the database. -/
def failure (json : Json) : Reading Failure := do
  match ← single json with
  | ("pg", e) => return .database (← serverError e).classified
  | ("conversion", .string "input") => return .input (.conversion ⟨"a", "b"⟩)
  | ("conversion", _) => return .database (.ofConversion ⟨"a", "b"⟩)
  | ("entityNotFound", name) => return .schema (.unknownEntity (← asText name))
  | ("malformed", fault) =>
    return .input (.malformed (← text "path" fault) (.other (← text "message" fault)))
  | ("noResult", _) => return .denied
  | ("nonUniqueWhere", which) =>
    return .nonUniqueWhere ⟨← text "entity" which, ← required "fields" which asTexts⟩
  | ("configuration", message) => .configuration <$> asText message
  | (_, name) => return .database (.ofFault (faultNamed (← asText name)))

/-- A success or a failure. -/
def attempted {α : Type} (read : Json → Reading α) (json : Json) : Reading (Except Failure α) := do
  match ← single json with
  | ("ok", found) => .ok <$> read found
  | ("err", cause) => .error <$> failure cause
  | (outcome, _) => throw s!"unknown outcome {outcome}"

def ofError (kind message : String) : Json :=
  .object [("error", .string kind), ("message", .string message)]

def schemaErrorKind : SchemaError → String
  | .unknownEntity _ => "Domain.EntityNotFound"
  | .unknownField .. => "Domain.FieldNotFound"
  | .notAColumn .. => "Domain.NotAColumn"
  | .notARelation .. => "Domain.NotARelation"
  | .invalidRelation .. => "Domain.InvalidRelation"
  | .invalidUnique .. => "Domain.InvalidUniqueConstraint"

def inputErrorKind : InputError → String
  | .severalOperators => "Input.MultipleConditionOperators"
  | .unknownOperator _ => "Input.UnknownConditionOperator"
  | .duplicateUnique _ => "Input.DuplicateUniqueField"
  | .scalarAndRelation _ => "Input.ScalarRelationConflict"
  | .malformed .. => "Input.Malformed"
  | .schema e => "Input." ++ schemaErrorKind e
  | .conversion _ => "Input.Conversion"

def faultKind : Database.Fault → String
  | .query _ => "QueryError"
  | .noRecord => "NotFound"
  | .uniqueViolation _ => "UniqueConstraintViolation"
  | .nullViolation _ => "NullConstraintViolation"
  | .foreignKeyViolation _ => "ForeignKeyConstraintViolation"
  | .unknownColumn _ => "ColumnNotFound"
  | .connectionClosed => "ConnectionClosed"
  | .transactionClosed _ => "TransactionAlreadyClosed"
  | .conversion _ => "ConversionError"

def failureKind : Failure → String
  | .database e => "Connector." ++ faultKind e.fault
  | .schema e => schemaErrorKind e
  | .input e => inputErrorKind e
  | .nonUniqueWhere _ => "NonUniqueWhere"
  | .denied => "NoResult"
  | .unsupported .. => "UnsupportedOperation"
  | .configuration _ => "Configuration"

def ofConversionError (e : ConversionError) : Json := ofError "Conversion" e.message

def ofSchemaError (e : SchemaError) : Json := ofError (schemaErrorKind e) e.message

def ofInputError (e : InputError) : Json := ofError (inputErrorKind e) e.message

def ofDatabaseError (e : Database.Error) : Json :=
  ofError ("Connector." ++ faultKind e.fault) e.message

def ofFailure (e : Failure) : Json := ofError (failureKind e) e.message

/-- What came out, or the error in its place. -/
def settled {ε α : Type} (onError : ε → Json) (onOk : α → Json) : Except ε α → Json
  | .ok a => onOk a
  | .error e => onError e

def ofAttempt (attempt : Except Failure (List Result)) : Json := settled ofFailure ofResults attempt

def ofEvent (event : Event) : Json :=
  .object (("level", .string event.severity.text) :: ("message", .string event.message) ::
    event.details.map fun (key, detail) => (key, .string detail))

def ofEvents (events : List Event) : Json := listed ofEvent events

/-! Field values with known outcomes -/

def known {α : Type} (outcome : Except Failure α) : Mutation.Action Rows α :=
  Mutation.liftExcept outcome

/-- A value that is present, possibly null. -/
def presentValue (json : Json) : Reading (Option Value) := some <$> required "some" json value

def fieldValue (json : Json) : Reading (FieldValue Rows) := do
  match ← single json with
  | ("value", found) => .value <$> value found
  | ("fail", cause) => return .deferred (known (.error (← failure cause)))
  | ("deferred", found) => do
    let after ← optional "after" found (attempted results)
    return .deferred (known (.ok ⟨← orElse "value" found none presentValue,
      ← orElse "results" found [] results, after.map known⟩))
  | (kind, _) => .error s!"unknown field value {kind}"

def fieldValues (json : Json) : Reading (FieldValues Rows) := listOf (pairOf asText fieldValue) json

end EntityGraph.Exchange
