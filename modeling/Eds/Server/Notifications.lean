import Eds.Effects.Traced
import Eds.Import.Recovery
import Eds.Server.Responses
import Eds.Util.Loads

/-!
# Notifications

A notification names an action.  `dispatch` calls the closure that handles it and sends what the
closure returns, as an answer to the message or on a subject of the session.  The closures and the
connection are parts of the world, which other notifications change meanwhile.
-/

namespace Eds
namespace Server
namespace Notifications

open Effects Effects.Prog Effects.Traced Util

variable {W : Type}

structure Notification where
  action : String
  data : List (String × Json)

def Notification.gojson (n : Notification) : Except String String :=
  encode (.struct [("action", .never, .plain (.str n.action)), ("data", .ifFalsy, .plain (.obj n.data))])

def getBool : Option Json → Bool
  | some (.bool b) => b
  | some (.str s) => s == "true"
  | _ => false

def Notification.flag (n : Notification) (key : String) : Bool := getBool (n.data.lookup key)

def Notification.text (n : Notification) (key : String) : Option String :=
  match n.data.lookup key with
  | some (.str s) => some s
  | _ => none

def Notification.object (n : Notification) (key : String) : Option (List (String × Json)) :=
  match n.data.lookup key with
  | some (.obj fields) => some fields
  | _ => none

inductive Action where
  | restart
  | ping
  | shutdown
  | pause
  | unpause
  | upgrade
  | sendlogs
  | configure
  | imports
  | driverconfig
  | validate

def Action.name : Action → String
  | restart => "restart"
  | ping => "ping"
  | shutdown => "shutdown"
  | pause => "pause"
  | unpause => "unpause"
  | upgrade => "upgrade"
  | sendlogs => "sendlogs"
  | configure => "configure"
  | imports => "import"
  | driverconfig => "driverconfig"
  | validate => "validate"

def Action.all : List Action :=
  [restart, ping, shutdown, pause, unpause, upgrade, sendlogs, configure, imports, driverconfig, validate]

def Action.named (name : String) : Option Action := Action.all.find? fun a => a.name == name

def Notification.kind (n : Notification) : Option Action := Action.named n.action

theorem Notification.kind_name {n : Notification} {a : Action} (h : n.kind = some a) :
    a.name = n.action := by
  have hfound := List.find?_some h
  simpa using hfound

/-! ## What happens -/

inductive Call where
  | restart
  | shutdown (message : String) (deleted : Bool)
  | pause
  | unpause
  | upgrade (version : String)
  | sendLogs
  | configure (req : ConfigureRequest)
  | backfillInit (req : InitBackfillRequest)
  | importAction (req : ImportRequest)
  | driverConfig
  | validate (driver : String) (config : List (String × Json))

inductive Reply where
  | restarted
  | shutDown
  | paused (err : Option Exn)
  | upgraded (r : UpgradeResponse)
  | logs (r : Option SendLogsResponse)
  | configured (r : ConfigureResponse)
  | initiated (r : InitBackfillResponse)
  | imported (r : JobResponse)
  | drivers (r : DriverConfigResponse)
  | validated (r : ValidateResponse)

inductive Payload where
  | raw (text : String)
  | packed (fields : List (String × Json))

/-- The last two kinds say whether what was sent went out. -/
inductive Obs where
  | called (c : Call)
  | returned (r : Reply)
  | spawned (req : ImportRequest)
  | responded (body : Except String String) (sent : Bool)
  | published (subject : String) (payload : Payload) (sent : Bool)

/-- The closures.  A pause that fails returns its error. -/
structure Handler (W : Type) where
  restart : Prog Exn W Unit
  shutdown : String → Bool → Prog Exn W Unit
  pause : Prog Exn W (Option Exn)
  unpause : Prog Exn W (Option Exn)
  upgrade : String → Prog Exn W UpgradeResponse
  sendLogs : Prog Exn W (Option SendLogsResponse)
  configure : ConfigureRequest → Prog Exn W ConfigureResponse
  backfillInit : InitBackfillRequest → Prog Exn W InitBackfillResponse
  importAction : ImportRequest → Prog Exn W JobResponse
  driverConfig : Prog Exn W DriverConfigResponse
  validate : String → List (String × Json) → Prog Exn W ValidateResponse

/-- The connection, and the inbox of the message. -/
structure Channel (W : Type) where
  sessionId : W → String
  publish : String → Payload → Prog Exn W Unit
  respond : String → Prog Exn W Unit

abbrev NoticeProg (W α : Type) := Prog Exn (Traced Unit W Obs) α

/-- `eds.client.<sessionID>.<action>-<mod>` -/
def subject (sid action mod : String) : String :=
  "eds.client." ++ sid ++ "." ++ action ++ "-" ++ mod

def status (sid action message : String) : GenericResponse :=
  { success := message == ""
    message := some message
    sessionId := sid
    action := action }

def outcome (sid action : String) (err : Option Exn) : GenericResponse :=
  { success := err.isNone
    message := err.map Exn.str
    sessionId := sid
    action := action }

def invalidUpgrade (text : String) : String :=
  "invalid upgrade notification. missing version for: " ++ text

section

variable (handler : Handler W) (channel : Channel W)

/-- What went out, or did not, is in the trace. -/
def recorded (o : Bool → Obs) (p : Prog Exn W Unit) : NoticeProg W Unit := do
  handle (outside p) fun e => do
    note (o false)
    raise e
  note (o true)

def publish (target : String) (payload : Payload) : NoticeProg W Unit :=
  recorded (.published target payload) (channel.publish target payload)

def respond (body : Except String String) : NoticeProg W Unit :=
  recorded (.responded body)
    (match body with
    | .ok text => channel.respond text
    | .error message => raise (.valueError message))

/-- `try`, with the error logged; whether it went well. -/
def attempt (p : NoticeProg W Unit) : NoticeProg W Bool :=
  tryExcept (do p; pure true) fun _ => pure false

def publishSimpleStatus (action message : String) : NoticeProg W Unit := do
  let sid ← outside (asks channel.sessionId)
  let _ ← attempt (publish channel (subject sid action "status") (.packed (status sid action message).toMsgpack))
  pure ()

def respondGenerically (action : String) (err : Option Exn) : NoticeProg W Unit := do
  let sid ← outside (asks channel.sessionId)
  let _ ← attempt (publish channel (subject sid action "response") (.packed (outcome sid action err).toMsgpack))
  pure ()

def publishSendLogsResponse (r : SendLogsResponse) : NoticeProg W Unit :=
  publish channel (subject r.sessionId "sendlogs" "response") (.packed r.toMsgpack)

def sendLogPath (logPath : Option String) (sid : String) : NoticeProg W Unit :=
  match logPath with
  | none => pure ()
  | some path => do
    let _ ← attempt (publishSendLogsResponse channel ⟨path, sid⟩)
    pure ()

/-- After an answer that went out. -/
def logsAfter (sent : Bool) (logPath : Option String) (sid : String) : NoticeProg W Unit :=
  if sent then sendLogPath channel logPath sid else pure ()

/-- `asyncio.to_thread` -/
def invoke {α : Type} (c : Call) (reply : α → Reply) (p : Prog Exn W α) : NoticeProg W α := do
  note (.called c)
  let a ← outside p
  note (.returned (reply a))
  pure a

def callSendLogs : NoticeProg W Unit := do
  let resp ← invoke .sendLogs .logs handler.sendLogs
  match resp with
  | none => pure ()
  | some r => do
    let _ ← attempt (publishSendLogsResponse channel r)
    pure ()

def configure (req : ConfigureRequest) : NoticeProg W Unit := do
  let resp ← invoke (.configure req) .configured (handler.configure req)
  let sent ← attempt (respond channel resp.gojson)
  logsAfter channel sent resp.logPath resp.sessionId

def upgrade (version : String) : NoticeProg W Unit := do
  let resp ← invoke (.upgrade version) .upgraded (handler.upgrade version)
  let sent ← attempt (publish channel (subject resp.sessionId "upgrade" "response") (.packed resp.toMsgpack))
  logsAfter channel sent resp.logPath resp.sessionId

/-- The long part of an import runs as a task of its own (`runImport`). -/
def startImport (backfill : Bool) (init : InitBackfillResponse) : NoticeProg W Unit :=
  if init.success then do
    publishSimpleStatus channel "import" ""
    note (.spawned ⟨backfill, init.jobId⟩)
  else pure ()

def importaction (backfill : Bool) : NoticeProg W Unit := do
  let init ← invoke (.backfillInit ⟨backfill⟩) .initiated (handler.backfillInit ⟨backfill⟩)
  let sent ← attempt (respond channel init.gojson)
  if sent then startImport channel backfill init else pure ()

def runImport (req : ImportRequest) : NoticeProg W Unit := do
  let resp ← invoke (.importAction req) .imported (handler.importAction req)
  let sent ← attempt (publish channel (subject resp.sessionId "import" "response") (.packed resp.toMsgpack))
  logsAfter channel sent resp.logPath resp.sessionId

def driverconfig : NoticeProg W Unit := do
  let resp ← invoke .driverConfig .drivers handler.driverConfig
  let _ ← attempt (respond channel resp.gojson)
  pure ()

def validate (driver : String) (config : List (String × Json)) : NoticeProg W Unit := do
  let resp ← invoke (.validate driver config) .validated (handler.validate driver config)
  let _ ← attempt (respond channel resp.gojson)
  pure ()

/-- The text of the notification, for the log. -/
def described (n : Notification) : NoticeProg W String :=
  match n.gojson with
  | .ok text => pure text
  | .error message => raise (.valueError message)

/-- A notification without what its action needs is logged, with its text. -/
def refused (n : Notification) : NoticeProg W Unit := do
  let _ ← described n
  pure ()

def ping (n : Notification) : NoticeProg W Unit :=
  match n.text "subject" with
  | some target => do
    let _ ← attempt (publish channel target (.raw "pong"))
    pure ()
  | none => refused n

def shutdown (n : Notification) : NoticeProg W Unit :=
  match n.text "message" with
  | some message => invoke (.shutdown message (n.flag "deleted")) (fun _ => .shutDown)
      (handler.shutdown message (n.flag "deleted"))
  | none => refused n

def upgradeTo (n : Notification) : NoticeProg W Unit :=
  match n.text "version" with
  | some version => do
    publishSimpleStatus channel "upgrade" ""
    upgrade handler channel version
  | none => do
    let text ← described n
    publishSimpleStatus channel "upgrade" (invalidUpgrade text)

def validateOf (n : Notification) : NoticeProg W Unit :=
  match n.text "driver", n.object "config" with
  | some driver, some config => validate handler channel driver config
  | _, _ => refused n

def dispatch (n : Notification) : NoticeProg W Unit :=
  match n.kind with
  | some .restart => do
    publishSimpleStatus channel "restart" ""
    invoke .restart (fun _ => .restarted) handler.restart
    respondGenerically channel n.action none
  | some .ping => ping channel n
  | some .shutdown => shutdown handler n
  | some .pause => do
    let err ← invoke .pause .paused handler.pause
    respondGenerically channel n.action err
  | some .unpause => do
    let err ← invoke .unpause .paused handler.unpause
    respondGenerically channel n.action err
  | some .upgrade => upgradeTo handler channel n
  | some .sendlogs => callSendLogs handler channel
  | some .configure => configure handler channel ⟨(n.text "url").getD "", n.flag "backfill"⟩
  | some .imports => importaction handler channel (n.flag "backfill")
  | some .driverconfig => driverconfig handler channel
  | some .validate => validateOf handler channel n
  | none => pure ()

end

/-! ## The message -/

/-- What is not here: the decompression, the unpacking, and the text in the bytes of a JSON document.
`repr` prints a double. -/
structure Codec where
  gunzip : List UInt8 → Except Exn (List UInt8)
  unpackb : List UInt8 → Except Exn Json
  decode : List UInt8 → Except Exn String
  repr : List Char → String

structure Msg where
  headers : List (String × String)
  data : List UInt8

/-- The name of a header is not case-sensitive. -/
def Msg.contentEncoding (msg : Msg) : Option String :=
  (msg.headers.find? fun h => Import.lower h.1 == "content-encoding".toList).map Prod.snd

section

variable (codec : Codec)

def loadsText (text : String) : Except Exn Json :=
  match loads codec.repr text with
  | some v => .ok v
  | none => .error (.valueError "invalid JSON")

/-- What was packed is written as JSON and read again. -/
def decodeNatsMsg (data : List UInt8) (contentEncoding : Option String) : Except Exn Json :=
  if contentEncoding = some "gzip/json" then do
    let data ← codec.gunzip data
    let text ← codec.decode data
    loadsText codec text
  else if contentEncoding = some "msgpack" then do
    let v ← codec.unpackb data
    match marshal v with
    | .ok text => loadsText codec text
    | .error message => .error (.valueError message)
  else do
    let text ← codec.decode data
    loadsText codec text

def Notification.ofFields (fields : List (String × Json)) : Notification where
  action :=
    match fields.lookup "action" with
    | some (.str s) => s
    | _ => ""
  data :=
    match fields.lookup "data" with
    | some (.obj data) => data
    | _ => []

def received (msg : Msg) : Except Exn Notification := do
  let raw ← decodeNatsMsg codec msg.data msg.contentEncoding
  match raw with
  | .obj fields => pure (.ofFields fields)
  | _ => .error (.valueError "notification is not an object")

variable (handler : Handler W) (channel : Channel W)

/-- What is not a notification is logged and dropped.  The text of a notification is asked for
outside the `try`. -/
def callback (msg : Msg) : NoticeProg W Unit :=
  match received codec msg with
  | .error _ => pure ()
  | .ok n => do
    let _ ← described n
    dispatch handler channel n

end

end Notifications
end Server
end Eds
