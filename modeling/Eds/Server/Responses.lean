import Eds.Drivers.Configuration
import Eds.Server.ImportAction
import Eds.Util.Gostruct

/-!
# The answers of the control plane

What the handler of an action returns is written in one of two ways: as JSON, for the inbox of a
request, or as a dictionary that is packed for a subject of the session.
-/

namespace Eds
namespace Server

open Util Drivers

def optText : Option String → Json
  | none => .null
  | some s => .str s

/-- `msgpack_dict`: the fields that are not omitted, under their keys. -/
def msgpackDict (fields : List (String × OmitEmpty × Json)) : List (String × Json) :=
  fields.filterMap fun (key, rule, v) => if omitted rule (.plain v) then none else some (key, v)

/-! ## Requests -/

structure InitBackfillRequest where
  backfill : Bool
  deriving DecidableEq

structure ConfigureRequest where
  url : String
  backfill : Bool
  deriving DecidableEq

/-! ## Written as JSON -/

structure InitBackfillResponse where
  success : Bool
  message : Option String
  sessionId : String
  jobId : String

def InitBackfillResponse.gojson (r : InitBackfillResponse) : Except String String :=
  encode (.struct
    [("success", .never, .plain (.bool r.success)), ("message", .ifNone, .plain (optText r.message)),
      ("sessionId", .never, .plain (.str r.sessionId)), ("jobId", .never, .plain (.str r.jobId))])

/-- The path of the log is not written. -/
structure ConfigureResponse where
  success : Bool
  message : Option String
  maskedUrl : Option String
  sessionId : String
  backfill : Bool
  logPath : Option String

def ConfigureResponse.gojson (r : ConfigureResponse) : Except String String :=
  encode (.struct
    [("success", .never, .plain (.bool r.success)), ("message", .ifNone, .plain (optText r.message)),
      ("maskedURL", .ifNone, .plain (optText r.maskedUrl)),
      ("sessionId", .never, .plain (.str r.sessionId)), ("backfill", .never, .plain (.bool r.backfill))])

def bracketed (parts : List String) : String := "[" ++ commas parts ++ "]"

def braced (parts : List String) : String := "\x7b" ++ commas parts ++ "\x7d"

structure DriverField where
  name : String
  type : String
  format : Option String
  default : Option String
  description : String
  required : Bool

def DriverField.gojson (f : DriverField) : Except String String :=
  encode (.struct
    [("name", .never, .plain (.str f.name)), ("type", .never, .plain (.str f.type)),
      ("format", .ifFalsy, .plain (optText f.format)), ("default", .ifNone, .plain (optText f.default)),
      ("description", .never, .plain (.str f.description)),
      ("required", .never, .plain (.bool f.required))])

structure DriverMetadata where
  scheme : String
  name : String
  description : String
  exampleUrl : String
  help : String
  supportsImport : Bool
  supportsMigration : Bool

def DriverMetadata.gojson (m : DriverMetadata) : Except String String :=
  encode (.struct
    [("scheme", .never, .plain (.str m.scheme)), ("name", .never, .plain (.str m.name)),
      ("description", .never, .plain (.str m.description)),
      ("exampleURL", .never, .plain (.str m.exampleUrl)), ("help", .never, .plain (.str m.help)),
      ("supportsImport", .never, .plain (.bool m.supportsImport)),
      ("supportsMigration", .never, .plain (.bool m.supportsMigration))])

structure DriverConfigurator where
  metadata : DriverMetadata
  fields : List DriverField

def DriverConfigurator.gojson (c : DriverConfigurator) : Except String String := do
  let metadata ← c.metadata.gojson
  let fields ← c.fields.mapM DriverField.gojson
  pure (braced ["\"metadata\":" ++ metadata, "\"fields\":" ++ bracketed fields])

structure DriverConfigResponse where
  drivers : List (String × DriverConfigurator)
  sessionId : String

/-- The drivers are a dictionary, which is written in the order of its keys. -/
def DriverConfigResponse.gojson (r : DriverConfigResponse) : Except String String := do
  let drivers ← r.drivers.mapM fun (name, c) => do
    let text ← c.gojson
    pure (name, text)
  let session ← marshal (.str r.sessionId)
  pure (braced
    ["\"drivers\":" ++ braced ((byKey drivers).map fun p => writtenField p.1 p.2),
      "\"sessionId\":" ++ session])

structure ValidateResponse where
  success : Bool
  message : String
  fieldErrors : List FieldError
  sessionId : String
  url : String

/-- The key of the message is `error`. -/
def fieldErrorJson (e : FieldError) : Except String String := do
  let field ← marshal (.str e.field)
  let message ← marshal (.str e.message)
  pure (braced ["\"field\":" ++ field, "\"error\":" ++ message])

def fieldErrorsJson : List FieldError → Except String (List String)
  | [] => pure []
  | errors => do
    let texts ← errors.mapM fieldErrorJson
    pure ["\"field_errors\":" ++ bracketed texts]

/-- The key of the message has three `s`. -/
def ValidateResponse.gojson (r : ValidateResponse) : Except String String := do
  let head ← encodeStruct
    [("success", .never, .plain (.bool r.success)), ("messsage", .ifFalsy, .plain (.str r.message))]
  let errors ← fieldErrorsJson r.fieldErrors
  let tail ← encodeStruct
    [("sessionId", .never, .plain (.str r.sessionId)), ("url", .ifFalsy, .plain (.str r.url))]
  pure (braced (head ++ errors ++ tail))

/-! ## Packed -/

structure SendLogsResponse where
  path : String
  sessionId : String

def SendLogsResponse.toMsgpack (r : SendLogsResponse) : List (String × Json) :=
  msgpackDict [("path", .never, .str r.path), ("sessionId", .never, .str r.sessionId)]

/-- A message that is empty is written, and none is not. -/
structure GenericResponse where
  success : Bool
  message : Option String
  sessionId : String
  action : String

def GenericResponse.toMsgpack (r : GenericResponse) : List (String × Json) :=
  msgpackDict
    [("success", .never, .bool r.success), ("message", .ifNone, optText r.message),
      ("sessionId", .never, .str r.sessionId), ("action", .never, .str r.action)]

/-- The response of an import, with the job that the action leaves empty. -/
structure JobResponse extends ImportResponse where
  jobId : String

def JobResponse.toMsgpack (r : JobResponse) : List (String × Json) :=
  msgpackDict
    [("success", .never, .bool r.success), ("message", .ifNone, optText r.message),
      ("sessionId", .never, .str r.sessionId), ("jobId", .never, .str r.jobId)]

structure UpgradeResponse where
  success : Bool
  message : String
  sessionId : String
  logPath : Option String
  version : String

def UpgradeResponse.toMsgpack (r : UpgradeResponse) : List (String × Json) :=
  msgpackDict
    [("success", .never, .bool r.success), ("message", .ifFalsy, .str r.message),
      ("sessionId", .never, .str r.sessionId), ("version", .never, .str r.version)]

end Server
end Eds
