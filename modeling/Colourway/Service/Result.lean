import Colourway.Failure
import Colourway.Service.Span

/-!
# Results of services

Every service call answers with a result: data when it succeeds, an error with a code, a message and
details when it does not.
-/

namespace Colourway

/-- What went wrong in a service call. -/
inductive ErrorCode where
  /-- References or calls are left. -/
  | unresolvedTokens
  /-- A colour expression was refused. -/
  | colourParse
  /-- A document could not be loaded. -/
  | loadFailed
  /-- An import list is malformed. -/
  | invalidImport
  /-- Any other error of compilation. -/
  | compileFailed
  /-- The output could not be written. -/
  | writeFailed
  /-- Some documents of a batch failed. -/
  | batchPartial
  /-- The key that was asked for does not exist. -/
  | keyNotFound
  deriving DecidableEq

/-- The text of a code. -/
def ErrorCode.text : ErrorCode → String
  | unresolvedTokens => "UNRESOLVED_TOKENS"
  | colourParse => "COLOUR_PARSE"
  | loadFailed => "LOAD_FAILED"
  | invalidImport => "INVALID_IMPORT"
  | compileFailed => "COMPILE_FAILED"
  | writeFailed => "WRITE_FAILED"
  | batchPartial => "BATCH_PARTIAL"
  | keyNotFound => "KEY_NOT_FOUND"

/-- The error of a failed call. -/
structure ServiceError where
  /-- What went wrong. -/
  code : ErrorCode
  /-- The message. -/
  message : Text
  /-- Details by name. -/
  detail : Fields := []

/-- Facts about a call beside its data. -/
structure ResultMeta where
  /-- Numbers of values by name. -/
  counts : Option (List (Text × Nat)) := none
  /-- The span of the call. -/
  telemetry : Option Span := none

/-- The answer of a service call. -/
structure ServiceResult where
  /-- Whether the call succeeded. -/
  ok : Bool
  /-- The name of the operation. -/
  op : Text
  /-- What the call produced, by name. -/
  data : Fields := []
  /-- Remarks that are no errors. -/
  warnings : List Text := []
  /-- The error, if the call failed. -/
  error : Option ServiceError := none
  /-- Facts about the call, if there are any. -/
  facts : Option ResultMeta := none

/-- A text or nothing, as a document. -/
def optionalText : Option Text → Document
  | some s => .text s
  | none => .null

/-- A theme error as the error of a service call. -/
def ThemeError.serviceError (e : ThemeError) : ServiceError :=
  match e with
  | .unresolved paths scope =>
    ⟨.unresolvedTokens, e.message,
      [("unresolved", .list (paths.map Document.text)), ("scope", optionalText scope)]⟩
  | .colour expression _ path =>
    ⟨.colourParse, e.message, [("expression", .text expression), ("path", optionalText path)]⟩
  | .load path _ => ⟨.loadFailed, e.message, [("path", .text path)]⟩
  | .imports _ => ⟨.invalidImport, e.message, []⟩
  | .other _ => ⟨.compileFailed, e.message, []⟩

/-- A failed result. -/
def ServiceResult.failed (op : Text) (e : ServiceError) : ServiceResult :=
  { ok := false, op := op, error := some e }

/-- The result with the span of its call. -/
def ServiceResult.withSpan (span : Span) (r : ServiceResult) : ServiceResult :=
  { r with facts := some { r.facts.getD {} with telemetry := some span } }

/-- The answer to a failure: an error becomes a failed result, a fault passes. -/
def ServiceResult.ofFailure (op : Text) : Failure → Except Failure ServiceResult
  | .error e => .ok (.failed op e.serviceError)
  | .fault f => .error (.fault f)

/-- Work that is answered by a result, whether it succeeds or reports an error. -/
def answering {α : Type} (op : Text) (work : Recorded α) (respond : α → Recorded ServiceResult) :
    Recorded ServiceResult := fun r =>
  match work r with
  | (.ok a, r) => respond a r
  | (.error e, r) => (ServiceResult.ofFailure op e, r)

end Colourway
