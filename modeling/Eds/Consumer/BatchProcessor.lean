import Eds.Effects.Traced
import Eds.Datetime
import Eds.Event

/-!
# The per-message decisions of the consumer

`BatchProcessor` decides for each message whether it is skipped, handed to the
driver, acknowledged or given back.  Everything it calls (the message, the driver,
the registry, the validator, the clock) is an `Env` over a world `W` of which
nothing is known: each call may return anything or raise anything, and may answer
differently the next time.

The variables are the three mutable attributes of the object.  The trace records
what the properties speak of: messages handed in, the verdict of `should_skip`,
calls of `driver.process` and `driver.flush` that returned, every `ack` and `nak`
as it is invoked, and every call that raised.  Logging and metrics have no bearing
on the decisions and are left out.
-/

namespace Eds
namespace Consumer

open Effects Effects.Prog Effects.Traced Collections

variable {W M : Type}

structure MsgMetadata where
  consumerSeq : Int
  streamSeq : Int
  numDelivered : Int
  numPending : Int

/-- The message, the driver, the registry, the validator and the clock, in this order.
`fromMessage` is `DBChangeEvent.from_message(msg.data, seq)`, `toJson` is read for log
lines only and can fail on a non-finite number, `validate` answers found, valid and
path, and `clock` is `now()` in nanoseconds. -/
structure Env (W M : Type) where
  metadata : M → Prog Exn W MsgMetadata
  ack : M → Prog Exn W Unit
  nak : M → Prog Exn W Unit
  fromMessage : M → Int → Prog Exn W DBChangeEvent
  toJson : DBChangeEvent → Except String String
  process : DBChangeEvent → Prog Exn W Bool
  flush : Prog Exn W Unit
  migrateNewTable : Schema → Prog Exn W Unit
  migrateNewColumns : Schema → List String → Prog Exn W Unit
  getTableVersion : Json → Prog Exn W (Bool × String)
  getSchema : Json → Json → Prog Exn W Schema
  setTableVersion : Json → Json → Prog Exn W Unit
  validate : DBChangeEvent → Prog Exn W (Bool × Bool × String)
  clock : W → Int × W

structure Config where
  maxBatch : Int
  minPendingLatency : Int
  maxPendingLatency : Int
  tableTimestamps : Option (Dict String (Option Int))
  supportsMigration : Bool
  hasRegistry : Bool
  hasValidator : Bool

structure Batch (M : Type) where
  pending : List M
  pendingStarted : Option Int
  sequence : Int

/-- The calls that can raise, with the message or messages at stake.  `sequence` is the
check of the consumer sequence, which raises by itself, and `catchUp` the second
`metadata()`, for the backlog. -/
inductive Call (M : Type) where
  | metadata (m : M)
  | sequence (m : M)
  | decode (m : M)
  | shouldSkip (m : M)
  | migration (m : M)
  | schema (m : M)
  | process (m : M)
  | catchUp (m : M)
  | flush (batch : List M)
  | ackSkipped (m : M)
  | ackFlushed (m : M)
  | nak (m : M)

inductive Obs (M : Type) where
  | took (m : M)
  | skipped (m : M)
  | processed (m : M) (seq : Int) (evt : DBChangeEvent)
  | flushed
  | ack (m : M)
  | nak (m : M)
  | raised (call : Call M) (e : Exn)

abbrev State (W M : Type) := Traced (Batch M) W (Obs M)

abbrev Proc (W M α : Type) := Prog Exn (State W M) α

/-- Call into the world; an exception is recorded as the failure of `c`. -/
def ask {α : Type} (c : Call M) (p : Prog Exn W α) : Proc W M α := call (.raised c) p

def now (env : Env W M) : Proc W M Int := outside fun w => (.ok (env.clock w).1, (env.clock w).2)

/-! ## Skipping, migrating and trimming an event

These three only talk to the world and to the event, so that they are programs
over the world. -/

/-- `self._table_timestamps.get(evt.table)`: a list or an object is unhashable. -/
def lookupCutoff (cutoffs : Dict String (Option Int)) : Json → Except Exn (Option Int)
  | .str table => .ok ((cutoffs.get? table).join)
  | .arr _ => .error (.exception "unhashable type: 'list'")
  | .obj _ => .error (.exception "unhashable type: 'dict'")
  | _ => .ok none

/-- The export cutoff: the event is older than the export of its table. -/
def beforeCutoff (cfg : Config) (evt : DBChangeEvent) : Except Exn Bool :=
  match cfg.tableTimestamps with
  | none => .ok false
  | some cutoffs =>
    match lookupCutoff cutoffs evt.table with
    | .error e => .error e
    | .ok none => .ok false
    | .ok (some tt) =>
      match fromMillis evt.timestamp with
      | .error e => .error e
      | .ok eventTs => .ok (decide (eventTs < tt))

/-- A log line that carries the event's JSON, then the verdict. -/
def logged (env : Env W M) (evt : DBChangeEvent) (skip : Bool) :
    Prog Exn W (Bool × DBChangeEvent) :=
  match env.toJson evt with
  | .ok _ => pure (skip, evt)
  | .error msg => raise (.valueError msg)

def shouldSkip (cfg : Config) (env : Env W M) (evt : DBChangeEvent) :
    Prog Exn W (Bool × DBChangeEvent) :=
  match beforeCutoff cfg evt with
  | .error e => raise e
  | .ok true => pure (true, evt)
  | .ok false =>
    if cfg.hasValidator then do
      let verdict ← tryExcept (do let v ← env.validate evt; pure (some v)) fun _ => pure none
      match verdict with
      -- `SchemaValidationError` and every other `Exception` are a skip.
      | none => logged env evt true
      | some (found, valid, path) =>
        if !found || !valid then logged env evt true
        else if path ≠ "" then pure (false, { evt with schemaValidatedPath := some path })
        else pure (false, evt)
    else pure (false, evt)

def handlePossibleMigration (env : Env W M) (evt : DBChangeEvent) :
    Prog Exn W (Bool × DBChangeEvent) := do
  let (found, version) ← env.getTableVersion evt.table
  if found && evt.modelVersion.eqStr version then pure (false, evt)
  else do
    let newschema ← env.getSchema evt.table evt.modelVersion
    if !found then do
      env.migrateNewTable newschema
      env.setTableVersion evt.table evt.modelVersion
      pure (true, evt)
    else do
      let oldschema ← env.getSchema evt.table (.str version)
      let columns := newschema.columns.filter fun c => !oldschema.columns.contains c
      if columns = [] then
        -- The version differs but nothing was added: it is not recorded.
        pure (false, evt)
      else do
        env.migrateNewColumns newschema columns
        match extendDiff columns evt.diff with
        | .error e => raise e
        | .ok diff => do
          env.setTableVersion evt.table evt.modelVersion
          pure (true, { evt with diff := diff })

/-- Drop the properties of the event that its schema does not have. -/
def conform (env : Env W M) (evt : DBChangeEvent) : Prog Exn W DBChangeEvent := do
  let schema ← env.getSchema evt.table evt.modelVersion
  match evt.object with
  | none => pure evt
  | some obj =>
    let diff := jsonDiff obj schema.columns
    if diff = [] then pure evt else pure (evt.omitProperties diff)

/-! ## Giving back and flushing -/

def nakOne (env : Env W M) (m : M) : Proc W M Unit := do
  note (.nak m)
  tryExcept (ask (.nak m) (env.nak m)) fun _ => pure ()

def clear : Proc W M Unit := assign fun b => { b with pending := [], pendingStarted := none }

def nackEverything (env : Env W M) : Proc W M Unit := do
  let pending ← read Batch.pending
  each (nakOne env) pending
  clear

def handleError {α : Type} (env : Env W M) (err : String) : Proc W M α := do
  nackEverything env
  raise (.consumerFatal err)

def stop {α : Type} (env : Env W M) : Proc W M α := do
  nackEverything env
  raise .consumerStopped

def ackOne (env : Env W M) (m : M) : Proc W M Unit := do
  note (.ack m)
  tryExcept (ask (.ackFlushed m) (env.ack m)) fun _ => stop env

def flushDriver (env : Env W M) : Proc W M Unit := do
  let pending ← read Batch.pending
  handle (ask (.flush pending) env.flush) fun e =>
    if e = .driverStopped then stop env
    else if e.isException then handleError env e.str
    else raise e
  note .flushed

/-- The two duration metrics of a flush, which read the clock. -/
def observeDurations (env : Env W M) : Proc W M Unit := do
  let started ← read Batch.pendingStarted
  match started with
  | some _ => do
    let _ ← now env
    let _ ← now env
    pure ()
  | none => do
    let _ ← now env
    pure ()

def flush (env : Env W M) : Proc W M Unit := do
  let _started ← now env
  flushDriver env
  let pending ← read Batch.pending
  each (ackOne env) pending
  observeDurations env
  clear

/-! ## One message -/

def outOfOrder (seq expected : Int) : String :=
  s!"out of order sequence: {seq}, expected: {expected}"

def checkSequence (env : Env W M) (msg : M) (seq : Int) : Proc W M Unit := do
  let expected ← read fun b => b.sequence + 1
  if seq = expected then assign fun b => { b with sequence := seq }
  else do
    note (.raised (.sequence msg) (.exception (outOfOrder seq expected)))
    handleError env (outOfOrder seq expected)

/-- Read the metadata, join the batch and check the sequence. -/
def receive (env : Env W M) (msg : M) : Proc W M Int := do
  note (.took msg)
  let md ← tryExcept (ask (.metadata msg) (env.metadata msg)) fun e => handleError env e.str
  assign fun b => { b with pending := b.pending ++ [msg] }
  checkSequence env msg md.consumerSeq
  pure md.consumerSeq

def decode (env : Env W M) (msg : M) (seq : Int) : Proc W M DBChangeEvent :=
  tryExcept (ask (.decode msg) (env.fromMessage msg seq)) fun e => handleError env e.str

/-- An individual ack, whose failure is only logged. -/
def skip [DecidableEq M] (env : Env W M) (msg : M) : Proc W M Unit := do
  note (.skipped msg)
  note (.ack msg)
  tryExcept (ask (.ackSkipped msg) (env.ack msg)) fun _ => pure ()
  assign fun b => { b with pending := b.pending.erase msg }

def migrate (cfg : Config) (env : Env W M) (msg : M) (evt : DBChangeEvent) :
    Proc W M (Bool × DBChangeEvent) :=
  if cfg.supportsMigration then
    tryExcept (ask (.migration msg) (handlePossibleMigration env evt)) fun e => handleError env e.str
  else pure (false, evt)

def trim (cfg : Config) (env : Env W M) (msg : M) (evt : DBChangeEvent) : Proc W M DBChangeEvent :=
  if !evt.operation.eqStr "DELETE" && cfg.hasRegistry then
    tryExcept (ask (.schema msg) (conform env evt)) fun e => handleError env e.str
  else pure evt

def hand (env : Env W M) (msg : M) (seq : Int) (evt : DBChangeEvent) : Proc W M Bool := do
  let flush ← tryExcept (ask (.process msg) (env.process evt)) fun e => handleError env e.str
  note (.processed msg seq evt)
  pure flush

/-- Flush trigger 2: the batch is full or its first message is too old. -/
def overdue (cfg : Config) (env : Env W M) (started : Int) : Proc W M Bool := do
  let count ← read fun b => (b.pending.length : Int)
  if count ≥ cfg.maxBatch then pure true
  else do
    let t ← now env
    pure (decide (t - started ≥ cfg.maxPendingLatency))

/-- The catch-up bypass: under a large backlog keep accumulating for longer. -/
def catchingUp (cfg : Config) (env : Env W M) (msg : M) (started : Int) : Proc W M Bool := do
  let numPending ← tryExcept
    (do let md ← ask (.catchUp msg) (env.metadata msg); pure md.numPending) fun _ => pure 0
  if numPending > cfg.maxBatch then do
    let t ← now env
    pure (decide (t - started < cfg.maxPendingLatency * 2))
  else pure false

def startBatch (env : Env W M) : Proc W M Int := do
  let started ← read Batch.pendingStarted
  match started with
  | some t => pure t
  | none => do
    let t ← now env
    assign fun b => { b with pendingStarted := some t }
    pure t

def settle (cfg : Config) (env : Env W M) (msg : M) (wantsFlush force : Bool) :
    Proc W M Unit := do
  let count ← read fun b => (b.pending.length : Int)
  if wantsFlush || decide (count ≥ cfg.maxBatch) || force then flush env
  else do
    let started ← startBatch env
    let bypass ← catchingUp cfg env msg started
    if bypass then pure ()
    else do
      let due ← overdue cfg env started
      if due then do
        let _ ← now env
        flush env
      else pure ()

def processMessage [DecidableEq M] (cfg : Config) (env : Env W M) (msg : M) : Proc W M Unit := do
  let seq ← receive env msg
  let evt ← decode env msg seq
  let (skipIt, evt) ← ask (.shouldSkip msg) (shouldSkip cfg env evt)
  if skipIt then skip env msg
  else do
    let (force, evt) ← migrate cfg env msg evt
    let evt ← trim cfg env msg evt
    let wantsFlush ← hand env msg seq evt
    settle cfg env msg wantsFlush force

/-- Flush trigger 3: a partial batch that has reached the minimum latency. -/
def onIdle (cfg : Config) (env : Env W M) : Proc W M Unit := do
  let count ← read fun b => (b.pending.length : Int)
  let started ← read Batch.pendingStarted
  match started with
  | some started =>
    if 0 < count ∧ count < cfg.maxBatch then do
      let t ← now env
      if t - started ≥ cfg.minPendingLatency then flush env else pure ()
    else pure ()
  | none => pure ()

/-- An environment in which every call returns and a message is its own sequence
number. -/
def Env.obliging : Env Unit Int where
  metadata m := pure { consumerSeq := m, streamSeq := m, numDelivered := 1, numPending := 0 }
  ack _ := pure ()
  nak _ := pure ()
  fromMessage _ _ := pure
    { operation := .str "INSERT", table := .str "user", modelVersion := .str "v1", object := none,
      diff := .null, timestamp := 0, schemaValidatedPath := none }
  toJson _ := .ok ""
  process _ := pure false
  flush := pure ()
  migrateNewTable _ := pure ()
  migrateNewColumns _ _ := pure ()
  getTableVersion _ := pure (true, "v1")
  getSchema _ _ := pure
    { properties := Dict.empty, primaryKeys := [], table := "user", modelVersion := "v1" }
  setTableVersion _ _ := pure ()
  validate _ := pure (true, true, "")
  clock w := (0, w)

/-- Batches of two, without a registry, a validator or cutoffs. -/
def Config.pairs : Config where
  maxBatch := 2
  minPendingLatency := 1
  maxPendingLatency := 10
  tableTimestamps := none
  supportsMigration := false
  hasRegistry := false
  hasValidator := false

end Consumer
end Eds
