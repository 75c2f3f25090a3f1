import Eds.Consumer.BatchProcessor
import Eds.Consumer.Credentials
import Eds.Effects.Graded

/-!
# The durable consumer of the server

`Consumer.create` connects with the credentials of the session, asks the server for the changes of
the companies that they name, and takes up the durable consumer where the server has one.  The
server, the driver and the files are part of the world.

What a run does is one of the courses of `Course`.  `opens_confined` says what they have in common:
the server is never asked for changes that the credentials, and the override of the companies, do
not cover.
-/

namespace Eds
namespace Consumer
namespace Setup

open Collections Effects Effects.Prog Effects.Traced Effects.Grading Lexing.Subjects

variable {W : Type}

inductive DeliverPolicy where
  | all
  | last
  | new
  | byStartSequence
  | byStartTime
  | lastPerSubject
  deriving DecidableEq

/-- A cutoff in microseconds, or what the server has written. -/
inductive StartTime where
  | date (micros : Int)
  | text (s : String)
  deriving DecidableEq

/-- The consumer configuration of the server. -/
structure Durable where
  durableName : String
  maxAckPending : Int
  maxDeliver : Int
  ackWait : Int
  filterSubjects : List String
  inactiveThreshold : Int
  maxWaiting : Option Int
  deliverPolicy : DeliverPolicy
  optStartTime : Option StartTime

structure ConsumerInfo where
  deliverPolicy : DeliverPolicy
  optStartTime : Option StartTime
  maxWaiting : Option Int
  numWaiting : Option Int
  consumerSeq : Int

/-- What the driver can do beyond the rest. -/
structure Driver where
  sessionHandler : Bool
  migration : Bool

/-- The latencies are in nanoseconds. -/
structure EdsConsumerConfig where
  url : String
  credentials : String
  companyIds : List String
  suffix : String
  maxAckPending : Int
  minPendingLatency : Int
  maxPendingLatency : Int
  driver : Option Driver
  hasRegistry : Bool
  hasValidator : Bool
  exportTableTimestamps : Option (Dict String (Option Int))
  deliverAll : Bool
  hasCallback : Bool

/-- What is called.  `readCreds` has nothing where there is no such file, and `consumerInfo` where
the server has no such consumer. -/
structure Server (W : Type) where
  uuid : Prog Exn W String
  readCreds : String → Prog Exn W (Option (List UInt8))
  connect : String → String → Option String → Prog Exn W Unit
  close : Prog Exn W Unit
  consumerInfo : String → String → Prog Exn W (Option ConsumerInfo)
  addConsumer : String → Durable → Prog Exn W Unit
  pullSubscribeBind : String → String → Prog Exn W Unit
  maxBatchSize : Prog Exn W Int
  setSessionId : String → Prog Exn W Unit
  updateDestinationSchema : Prog Exn W Unit
  sessionIdCallback : String → Prog Exn W Unit

/-- A file of credentials that was read, and what was done. -/
inductive Obs where
  | opened (buf : List UInt8)
  | connected (info : CredentialInfo)
  | looked (existing : Option ConsumerInfo)
  | added (durable : Durable)
  | inspected (ci : ConsumerInfo)
  | built (config : Config) (sequence : Int)
  | bound
  | closed

/-- The attributes of the consumer that are read again. -/
structure Vars where
  connected : Bool
  durable : String

def Vars.initial : Vars := ⟨false, ""⟩

def Vars.after (v : Vars) : Obs → Vars
  | .connected _ => { v with connected := true }
  | .added d => { v with durable := d.durableName }
  | _ => v

abbrev SetupState (W : Type) := Traced Vars W Obs

abbrev SetupProg (W α : Type) := Prog Exn (SetupState W) α

/-- Something is done, with what it leaves in the attributes. -/
def record (o : Obs) : SetupProg W Unit := update fun s => (s.setVars (·.after o)).push o

/-! ## The configuration -/

def stream : String := "dbchange"

namespace EdsConsumerConfig

variable (cfg : EdsConsumerConfig)

def effectiveMaxAckPending : Int := if 0 < cfg.maxAckPending then cfg.maxAckPending else 25000

def effectiveMinPendingLatency : Int :=
  if cfg.minPendingLatency ≠ 0 then cfg.minPendingLatency else 2 * 10 ^ 9

def effectiveMaxPendingLatency : Int :=
  if cfg.maxPendingLatency ≠ 0 then cfg.maxPendingLatency else 30 * 10 ^ 9

def sessionHandler : Bool := cfg.driver.elim false Driver.sessionHandler

def migration : Bool := cfg.driver.elim false Driver.migration

/-- The cutoffs that there are. -/
def stamps : List Int := cfg.exportTableTimestamps.elim [] fun d => d.items.filterMap Prod.snd

def earliestTimestamp : Option Int := cfg.stamps.min?

end EdsConsumerConfig

/-- `validate_company_ids`, from the ones validated so far. -/
def validateCompanyIds (allowed : List String) (validated : List String) :
    List String → Except Exn (List String)
  | [] => if validated = [] then .error (.valueError "no valid company IDs provided") else .ok validated
  | cid :: rest =>
    if cid ∈ allowed then validateCompanyIds allowed (validated ++ [cid]) rest
    else .error (.valueError s!"provided company ID {cid} not in credentials")

section

variable (py : Dbchange.Interpreter) (b64 : String → Except String (List UInt8))

/-- A value in an f-string. -/
def formatted : Json → String
  | .str s => s
  | v => py.str v

def durableName (serverId : Json) (suffix : String) : String :=
  if suffix = "" then "eds-" ++ formatted py serverId else "eds-" ++ formatted py serverId ++ "-" ++ suffix

/-- `"eds-" + info.server_id` -/
def connectionName : Json → Except Exn String
  | .str s => .ok ("eds-" ++ s)
  | _ => .error (.exception "can only concatenate str to str")

/-- Where the stream begins for a durable consumer: one that the server has keeps its place. -/
def placement (cfg : EdsConsumerConfig) : Option ConsumerInfo → DeliverPolicy × Option StartTime × Option Int
  | some existing => (existing.deliverPolicy, existing.optStartTime, existing.maxWaiting)
  | none =>
    if cfg.deliverAll then (.all, none, some 1)
    else
      match cfg.earliestTimestamp with
      | some start => (.byStartTime, some (.date start), some 1)
      | none => (.new, none, some 1)

def durableOf (cfg : EdsConsumerConfig) (info : CredentialInfo) (companies : List String) (max : Int)
    (existing : Option ConsumerInfo) : Durable where
  durableName := durableName py info.serverId cfg.suffix
  maxAckPending := max
  maxDeliver := 20
  ackWait := 300
  filterSubjects := companies.map filterSubject
  inactiveThreshold := 259200
  maxWaiting := (placement cfg existing).2.2
  deliverPolicy := (placement cfg existing).1
  optStartTime := (placement cfg existing).2.1

/-- The settings of the `BatchProcessor`. -/
def processorOf (cfg : EdsConsumerConfig) (max : Int) : Config where
  maxBatch := max
  minPendingLatency := cfg.effectiveMinPendingLatency
  maxPendingLatency := cfg.effectiveMaxPendingLatency
  tableTimestamps := cfg.exportTableTimestamps
  supportsMigration := cfg.migration
  hasRegistry := cfg.hasRegistry
  hasValidator := cfg.hasValidator

/-! ## The programs -/

variable (server : Server W) (cfg : EdsConsumerConfig)

/-- The identity of the connection, and the file that proves it. -/
def identify : SetupProg W (CredentialInfo × Option String) :=
  if cfg.credentials = "" then do
    let id ← outside server.uuid
    pure (⟨["*"], .str "dev", id⟩, none)
  else do
    let found ← outside (server.readCreds cfg.credentials)
    match found with
    | none => raise (.valueError s!"credential file: {cfg.credentials} cannot be found")
    | some buf => do
      record (.opened buf)
      let claims ← ofExcept (decodeUserClaims py b64 (parseDecoratedJwt py buf))
      let info ← ofExcept (credentialInfo claims)
      pure (info, some cfg.credentials)

/-- `new_nats_connection`; the list of servers that is made of the URL is left to `connect`. -/
def newNatsConnection : SetupProg W CredentialInfo := do
  let (info, creds) ← identify py b64 server cfg
  let name ← ofExcept (connectionName info.serverId)
  outside (server.connect cfg.url name creds)
  record (.connected info)
  pure info

/-- `self._nc.close()` -/
def close : SetupProg W Unit := do
  record .closed
  outside server.close

def chooseCompanies (info : CredentialInfo) : SetupProg W (List String) :=
  if cfg.companyIds = [] then pure info.companyIds
  else
    match validateCompanyIds info.companyIds [] cfg.companyIds with
    | .ok validated => pure validated
    | .error e => do
      close server
      raise e

def batchMax : Prog Exn W Int :=
  match cfg.driver with
  | none => pure cfg.effectiveMaxAckPending
  | some _ => do
    let driverMax ← server.maxBatchSize
    pure (if 0 < driverMax ∧ driverMax < cfg.effectiveMaxAckPending then driverMax
      else cfg.effectiveMaxAckPending)

/-- `if cond: p` -/
def whenTrue (cond : Bool) (p : Prog Exn W Unit) : SetupProg W Unit := if cond then outside p else pure ()

/-- Create the durable consumer, or update it. -/
def addConsumer (info : CredentialInfo) (companies : List String) (max : Int) : SetupProg W String := do
  let name := durableName py info.serverId cfg.suffix
  let existing ← outside (server.consumerInfo stream name)
  record (.looked existing)
  record (.added (durableOf py cfg info companies max existing))
  outside (server.addConsumer stream (durableOf py cfg info companies max existing))
  pure name

/-- Nobody else may be waiting at the durable consumer. -/
def inspect (name : String) : SetupProg W ConsumerInfo := do
  let found ← outside (server.consumerInfo stream name)
  match found with
  | none => raise (.exception "nats: NotFoundError")
  | some ci => do
    record (.inspected ci)
    if 0 < ci.numWaiting.getD 0 then do
      close server
      raise (.exception "")
    else pure ci

/-- What is left to do when the consumer is the only one. -/
def build (info : CredentialInfo) (max : Int) (ci : ConsumerInfo) : SetupProg W Unit := do
  record (.built (processorOf cfg max) ci.consumerSeq)
  whenTrue (cfg.migration && cfg.hasRegistry) server.updateDestinationSchema
  whenTrue cfg.hasCallback (server.sessionIdCallback info.sessionId)

/-- `Consumer.create` -/
def create : SetupProg W Unit := do
  let info ← newNatsConnection py b64 server cfg
  let companies ← chooseCompanies server cfg info
  whenTrue cfg.sessionHandler (server.setSessionId info.sessionId)
  let max ← outside (batchMax server cfg)
  let name ← addConsumer py server cfg info companies max
  let ci ← inspect server name
  build server cfg info max ci

/-- `Consumer.start`, up to the subscription. -/
def start : SetupProg W Unit := do
  let name ← read Vars.durable
  outside (server.pullSubscribeBind name stream)
  record .bound

/-- `Consumer.stop`, where nothing has been started yet. -/
def stop : SetupProg W Unit := do
  let connected ← read Vars.connected
  if connected then tryExcept (close server) fun _ => pure () else pure ()

/-- How the fork opens a consumer. -/
def openConsumer : SetupProg W Bool :=
  tryExcept
    (do
      create py b64 server cfg
      start server
      pure true)
    fun _ => do
      tryExcept (stop server) fun _ => pure ()
      pure false

end

end Setup
end Consumer
end Eds
