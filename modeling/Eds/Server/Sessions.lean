import Eds.Effects.Graded
import Eds.Import.Recovery
import Eds.Importer.Run
import Eds.Server.ImportAction
import Eds.Server.Wrapper

/-!
# The session loop of the control plane

`_run_control_plane` registers a session, starts the notification consumer for it, forks the
consumer of the data, and decides by its exit code whether to go on.  What it calls is part of the
world.

One turn of the loop is a `Turn`.  `supervises` says that every run is a sequence of turns after
which the loop goes on, at most five of which are failures, and one that ends it.
-/

namespace Eds
namespace Server
namespace Sessions

open Effects Effects.Prog Effects.Traced Effects.Grading

variable {W : Type}

inductive Obs where
  | session (id : String)
  | wrote (creds : String)
  | starting
  | stopping
  | slept (seconds : Nat)
  | forking (args : List String)
  | unforked
  | exited (code : Int)
  | ending (id : String) (errored : Bool)
  | scrubbing (creds : String)
  deriving DecidableEq

structure Session where
  sessionId : String
  credential : Option String

structure Config where
  dataDir : String
  natsUrl : String
  baseArgs : List String
  keepLogs : Bool
  noRestart : Bool

/-- What the loop calls.  `sendStart` has no session where another server is running already. -/
structure Plane (W : Type) where
  sendStart : String → Prog Exn W (Option Session)
  driverUrl : W → String
  makeDirs : String → Prog Exn W Unit
  writeCreds : String → String → Prog Exn W Unit
  startRunner : String → Prog Exn W Unit
  stopRunner : Prog Exn W Unit
  waitConfigure : Prog Exn W Bool
  shutdown : Prog Exn W Bool
  fork : List String → Prog Exn W ForkResult
  remainingLog : String → Prog Exn W String
  sendEndAndUpload : String → Bool → String → String → Prog Exn W String
  publishSendLogs : String → String → Prog Exn W Unit
  sleep : Nat → Prog Exn W Unit
  removeTree : String → Prog Exn W Unit
  pathExists : String → Prog Exn W Bool
  remove : String → Prog Exn W Unit
  emptyDir : String → Prog Exn W Bool
  removeDir : String → Prog Exn W Unit

/-- The session that was written last, and what the loop counts. -/
structure Vars where
  failures : Nat
  current : Option (String × String)
  configured : Bool
  forkRunning : Bool

abbrev ControlProg (W α : Type) := Prog Exn (Traced Vars W Obs) α

/-- What follows a turn.  `waiting` is a server that is still not configured. -/
inductive Next where
  | again
  | leave (code : Int)
  | waiting
  deriving DecidableEq

def exitError : Int := 1

def exitRestart : Int := 4

def exitNatsDisconnected : Int := 5

/-- `logger.fatal`, which exits with 1. -/
def fatal {α : Type} : ControlProg W α := raise (.base "SystemExit")

/-- `is_nats_connection_error`: the two classes of `nats` have `connect` in their texts. -/
def isNatsConnectionError (e : Exn) : Bool :=
  Importer.isOsError e || Import.contains (Import.lower e.str) "connect".toList

def usageErrors : List String := ["error: required flag", "Global Flags"]

/-- The consumer was not given what it needs. -/
def isUsage (result : ForkResult) : Bool :=
  result.exitCode == exitIncorrectUsage ||
    (result.exitCode == exitError &&
      usageErrors.any fun text => Import.contains result.lastErrorLines.toList text.toList)

/-- The exit counts as a failure. -/
def isFailure (result : ForkResult) : Bool :=
  !(isUsage result || result.exitCode == exitSuccess || result.exitCode == exitRestart ||
    result.exitCode == exitNatsDisconnected)

def errored (code : Int) : Bool := code != exitSuccess && code != exitRestart

def Config.sessionDir (config : Config) (id : String) : String := pathJoin config.dataDir id

def Config.credsFile (config : Config) (id : String) : String :=
  pathJoin (config.sessionDir id) "nats.creds"

section

variable (config : Config) (plane : Plane W)

def pause (seconds : Nat) : ControlProg W Unit := do
  note (.slept seconds)
  outside (plane.sleep seconds)

def stopRunner : ControlProg W Unit := do
  note .stopping
  outside plane.stopRunner

/-- The session whose credential is to be removed in the end. -/
def record (creds dir : String) : ControlProg W Unit := do
  assign fun v => { v with current := some (creds, dir) }
  note (.wrote creds)

/-- Whether to go on with the session. -/
def startRunner (creds : String) : ControlProg W Bool :=
  tryExcept
    (do
      note .starting
      outside (plane.startRunner creds)
      pure true)
    fun e => do
      stopRunner plane
      if isNatsConnectionError e then do
        pause plane 5
        pure false
      else pure true

/-- Wait for the import that configures the server; `some false` is a shutdown, `none` a wait that is
not over. -/
def waitConfigured : Nat → ControlProg W (Option Bool)
  | 0 => pure none
  | fuel + 1 => do
    let set ← outside plane.waitConfigure
    if set then do
      assign fun v => { v with configured := true }
      pure (some true)
    else do
      let down ← outside plane.shutdown
      if down then do
        stopRunner plane
        pure (some false)
      else waitConfigured fuel

def awaitConfigured (fuel : Nat) : ControlProg W (Option Bool) := do
  let configured ← read Vars.configured
  if configured then pure (some true) else waitConfigured plane fuel

/-- The end of a session: its logs are sent, as well as that goes. -/
def endSession (id : String) (code : Int) : ControlProg W Unit := do
  let logFile ← handle (outside (plane.remainingLog (pathJoin (config.sessionDir id) "logs"))) fun e =>
    if Importer.isOsError e then pure "" else raise e
  note (.ending id (errored code))
  tryExcept
    (do
      let path ← outside (plane.sendEndAndUpload id (errored code) logFile
        (pathJoin (config.sessionDir id) "server_stderr.txt"))
      outside (plane.publishSendLogs path id))
    fun _ => pure ()

/-- What the exit code means for the loop. -/
def decideNext (id : String) (result : ForkResult) : ControlProg W Next :=
  if result.exitCode = exitNatsDisconnected then do
    pause plane 5
    pure .again
  else if result.exitCode = exitSuccess then
    if config.keepLogs then pure (.leave exitSuccess)
    else do
      outside (plane.removeTree (config.sessionDir id))
      pure (.leave exitSuccess)
  else if isUsage result then pure (.leave result.exitCode)
  else if result.exitCode = exitRestart then pure .again
  else do
    assign fun v => { v with failures := v.failures + 1 }
    pure .again

/-- A consumer that was not given what it needs has no logs to send. -/
def endUnlessUsage (id : String) (code : Int) : ControlProg W Unit :=
  if code = exitIncorrectUsage then pure () else endSession config plane id code

def afterFork (id : String) (result : ForkResult) : ControlProg W Next := do
  assign fun v => { v with forkRunning := false }
  if config.noRestart then pure (.leave result.exitCode)
  else do
    endUnlessUsage config plane id result.exitCode
    decideNext config plane id result

def forkArgs (id url : String) : List String :=
  config.baseArgs ++ ["--creds", config.credsFile id, "--logs-dir", pathJoin (config.sessionDir id) "logs",
    "--url", url, "--server", config.natsUrl]

def forkOnce (id : String) : ControlProg W Next := do
  assign fun v => { v with forkRunning := true }
  let url ← outside (asks plane.driverUrl)
  note (.forking (forkArgs config id url))
  let result ← tryExcept
    (do
      let result ← outside (plane.fork (forkArgs config id url))
      pure (some result))
    fun _ => pure none
  match result with
  | none => do
    note .unforked
    assign fun v => { v with failures := v.failures + 1 }
    pure .again
  | some result => do
    note (.exited result.exitCode)
    afterFork config plane id result

def forkSession (id : String) : ControlProg W Next :=
  ensure (forkOnce config plane id) (do
    assign fun v => { v with forkRunning := false }
    stopRunner plane)

/-- The session whose credential is written, up to its end. -/
def superviseSession (fuel : Nat) (id : String) : ControlProg W Next := do
  let started ← startRunner plane (config.credsFile id)
  if started then do
    let ready ← awaitConfigured plane fuel
    match ready with
    | none => pure .waiting
    | some false => pure (.leave exitSuccess)
    | some true => forkSession config plane id
  else pure .again

/-- A session that is registered. -/
def runSession (fuel : Nat) (session : Session) : ControlProg W Next := do
  note (.session session.sessionId)
  outside (plane.makeDirs (config.sessionDir session.sessionId))
  match session.credential with
  | none => fatal
  | some credential => do
    outside (plane.writeCreds credential (config.credsFile session.sessionId))
    record (config.credsFile session.sessionId) (config.sessionDir session.sessionId)
    superviseSession config plane fuel session.sessionId

def turn (fuel : Nat) : ControlProg W Next := do
  let url ← outside (asks plane.driverUrl)
  let session ← tryExcept (outside (plane.sendStart url)) fun _ => fatal
  match session with
  | none => do
    pause plane 5
    pure .again
  | some session => runSession config plane fuel session

/-- The loop, for at most so many turns. -/
def turns (wait : Nat) : Nat → ControlProg W (Option Int)
  | 0 => pure none
  | fuel + 1 => do
    let failures ← read Vars.failures
    if failures < maxFailures then do
      let next ← turn config plane wait
      match next with
      | .again => turns wait fuel
      | .leave code => pure (some code)
      | .waiting => pure none
    else fatal

/-- `except OSError: pass` -/
def ignoreOs (p : ControlProg W Unit) : ControlProg W Unit :=
  handle p fun e => if Importer.isOsError e then pure () else raise e

def scrubCreds (creds : String) : ControlProg W Unit := do
  let found ← outside (plane.pathExists creds)
  if found then do
    note (.scrubbing creds)
    ignoreOs (outside (plane.remove creds))
  else pure ()

def scrubDir (dir : String) : ControlProg W Unit :=
  if config.keepLogs then pure ()
  else ignoreOs (do
    let empty ← outside (plane.emptyDir dir)
    if empty then outside (plane.removeDir dir) else pure ())

/-- The `finally` of the whole: the last credential goes, and the directory if nothing is in it. -/
def scrub : ControlProg W Unit := do
  let current ← read Vars.current
  match current with
  | none => pure ()
  | some (creds, dir) => do
    scrubCreds plane creds
    scrubDir config plane dir

/-- The control plane from the first session on. -/
def runControlPlane (wait fuel : Nat) : ControlProg W (Option Int) := do
  let code ← handle (turns config plane wait fuel) fun e => do
    scrub config plane
    raise e
  match code with
  | none => pure none
  | some code => do
    scrub config plane
    pure (some code)

end

def Vars.initial (configured : Bool) : Vars := ⟨0, none, configured, false⟩

/-! ## Turns -/

section

variable (config : Config)

/-- A session up to the fork; `remote` says that its notification consumer started. -/
def opening (id : String) (remote : Bool) : List Obs :=
  [.session id, .wrote (config.credsFile id), .starting] ++ if remote then [] else [.stopping]

def notice (id : String) (code : Int) : List Obs :=
  if code = exitIncorrectUsage then [] else [.ending id (errored code)]

def respite (code : Int) : List Obs := if code = exitNatsDisconnected then [.slept 5] else []

/-- A turn after which the loop goes on: another server is running, the notification server cannot be
reached, the fork does not start, or the consumer has run. -/
inductive Turn where
  | busy
  | offline (id : String)
  | unforked (id url : String) (remote : Bool)
  | ran (id url : String) (remote : Bool) (result : ForkResult)

def Turn.events : Turn → List Obs
  | .busy => [.slept 5]
  | .offline id => opening config id false ++ [.slept 5]
  | .unforked id url remote =>
    opening config id remote ++ [.forking (forkArgs config id url), .unforked, .stopping]
  | .ran id url remote result =>
    opening config id remote ++ [.forking (forkArgs config id url), .exited result.exitCode] ++
      notice id result.exitCode ++ respite result.exitCode ++ [.stopping]

def Turn.failed : Turn → Bool
  | .unforked _ _ _ => true
  | .ran _ _ _ result => isFailure result
  | _ => false

/-- After these exits the consumer is started again. -/
def StartsAgain (result : ForkResult) : Prop :=
  isFailure result = true ∨ result.exitCode = exitRestart ∨ result.exitCode = exitNatsDisconnected

def Turn.GoesOn : Turn → Prop
  | .ran _ _ _ result => config.noRestart = false ∧ StartsAgain result
  | _ => True

/-- A turn that ends the loop with a code. -/
inductive Leaves : List Obs → Int → Prop where
  | shutdown {id : String} {remote : Bool} : Leaves (opening config id remote ++ [.stopping]) exitSuccess
  | single {id url : String} {remote : Bool} {result : ForkResult} (h : config.noRestart = true) :
      Leaves (opening config id remote ++
        [.forking (forkArgs config id url), .exited result.exitCode, .stopping]) result.exitCode
  | settled {id url : String} {remote : Bool} {result : ForkResult} (h : config.noRestart = false)
      (hcode : result.exitCode = exitSuccess ∨ isUsage result = true) :
      Leaves (opening config id remote ++ [.forking (forkArgs config id url), .exited result.exitCode] ++
        notice id result.exitCode ++ [.stopping]) result.exitCode

/-- What follows the exit of a consumer, up to the stop. -/
def afterExit (id : String) (code : Int) : List Obs :=
  if config.noRestart then [] else notice id code ++ respite code

/-- A turn that an exception leaves.  Before the fork it is the beginning of a turn that has none;
behind it the notification consumer is told to stop, wherever the exception came. -/
inductive Interrupted : List Obs → Prop where
  | busy {es : List Obs} (h : es <+: [.slept 5]) : Interrupted es
  | offline {id : String} {es : List Obs} (h : es <+: opening config id false ++ [.slept 5]) :
      Interrupted es
  | unconfigured {id : String} {remote : Bool} {es : List Obs}
      (h : es <+: opening config id remote ++ [.stopping]) : Interrupted es
  | forking {id url : String} {remote : Bool} {es : List Obs} (h : es = [] ∨ es = [.unforked]) :
      Interrupted (opening config id remote ++ [.forking (forkArgs config id url)] ++ es ++ [.stopping])
  | exited {id url : String} {remote : Bool} {code : Int} {es : List Obs}
      (h : es <+: afterExit config id code) :
      Interrupted (opening config id remote ++ [.forking (forkArgs config id url), .exited code] ++ es ++
        [.stopping])

end

def writtenOf : Obs → Option String
  | .wrote creds => some creds
  | _ => none

/-- The credential that was written last. -/
def lastWritten : List Obs → Option String
  | [] => none
  | e :: rest => (lastWritten rest).or (writtenOf e)

theorem lastWritten_append (es es' : List Obs) :
    lastWritten (es ++ es') = (lastWritten es').or (lastWritten es) := by
  induction es with
  | nil => rw [List.nil_append, lastWritten, Option.or_none]
  | cons e rest ih => rw [List.cons_append, lastWritten, ih, lastWritten, Option.or_assoc]

/-! ## What the parts of a turn add -/

/-- From `s` to `t` the events `m.1` happened and `m.2` failures were counted. -/
structure Moved (m : List Obs × Nat) (s t : Traced Vars W Obs) : Prop where
  trace : t.trace = s.trace ++ m.1
  failures : t.vars.failures = s.vars.failures + m.2
  current : t.vars.current.map Prod.fst = (lastWritten m.1).or (s.vars.current.map Prod.fst)

def moves (W : Type) : Grading (Traced Vars W Obs) (List Obs × Nat) where
  Adds := Moved
  one := ([], 0)
  mul m m' := (m.1 ++ m'.1, m.2 + m'.2)
  refl _ := ⟨(List.append_nil _).symm, rfl, rfl⟩
  trans h h' := by
    refine ⟨?_, ?_, ?_⟩
    · rw [h'.trace, h.trace, List.append_assoc]
    · rw [h'.failures, h.failures, Nat.add_assoc]
    · rw [h'.current, h.current, lastWritten_append, Option.or_assoc]

@[simp] theorem moves_mul (m m' : List Obs × Nat) : (moves W).mul m m' = (m.1 ++ m'.1, m.2 + m'.2) := rfl

@[simp] theorem moves_one : (moves W).one = ([], 0) := rfl

abbrev Does {α : Type} (p : ControlProg W α) (Q : α → List Obs × Nat → Prop)
    (E : Exn → List Obs × Nat → Prop) : Prop := (moves W).Does p Q E

section Steps

variable {α : Type}

theorem does_note {e : Obs} (h : writtenOf e = none) :
    Does (note e : ControlProg W Unit) (fun _ m => m = ([e], 0)) fun _ _ => False :=
  does_update (g := moves W) fun _ => ⟨rfl, rfl, by rw [lastWritten, h]; rfl⟩

theorem does_outside (p : Prog Exn W α) :
    Does (outside p : ControlProg W α) (fun _ m => m = ([], 0)) fun _ m => m = ([], 0) := by
  have hmoved : ∀ (s : Traced Vars W Obs) (w : W), Moved ([], 0) s (s.inWorld w) :=
    fun _ _ => ⟨(List.append_nil _).symm, rfl, rfl⟩
  exact fun s => wp_outside (fun a w _ => ⟨([], 0), rfl, hmoved s w⟩)
    (fun e w _ => ⟨([], 0), rfl, hmoved s w⟩)

/-- Asking the world for something fails for nothing. -/
theorem does_outside_asks (f : W → α) :
    Does (outside (asks f) : ControlProg W α) (fun _ m => m = ([], 0)) fun _ _ => False :=
  fun _ => ⟨([], 0), rfl, (List.append_nil _).symm, rfl, rfl⟩

theorem does_assign {f : Vars → Vars} {n : Nat} (hfailures : ∀ v, (f v).failures = v.failures + n)
    (hcurrent : ∀ v, (f v).current = v.current) :
    Does (assign f : ControlProg W Unit) (fun _ m => m = ([], n)) fun _ _ => False :=
  does_update (g := moves W) fun s => ⟨(List.append_nil _).symm, hfailures s.vars,
    congrArg (Option.map Prod.fst) (hcurrent s.vars)⟩

theorem does_record (creds dir : String) :
    Does (record creds dir : ControlProg W Unit) (fun _ m => m = ([.wrote creds], 0)) fun _ _ => False :=
  fun _ => ⟨([.wrote creds], 0), rfl, rfl, rfl, rfl⟩

end Steps

section Parts

variable (config : Config) (plane : Plane W)

theorem does_pause (seconds : Nat) :
    Does (pause plane seconds) (fun _ m => m = ([.slept seconds], 0))
      fun _ m => m = ([.slept seconds], 0) := by
  refine (does_note rfl).bind (fun _ _ h => h.elim) fun _ m hm => ?_
  subst hm
  exact (does_outside _).mono (fun _ m hm => hm ▸ rfl) fun _ m hm => hm ▸ rfl

theorem does_stopRunner :
    Does (stopRunner plane) (fun _ m => m = ([.stopping], 0)) fun _ m => m = ([.stopping], 0) := by
  refine (does_note rfl).bind (fun _ _ h => h.elim) fun _ m hm => ?_
  subst hm
  exact (does_outside _).mono (fun _ m hm => hm ▸ rfl) fun _ m hm => hm ▸ rfl

/-- An exception after some of the events `es`. -/
def Cut (es : List Obs) (m : List Obs × Nat) : Prop := m.1 <+: es ∧ m.2 = 0

theorem cut_nil (es : List Obs) : Cut es ([], 0) := ⟨List.nil_prefix, rfl⟩

theorem Cut.append {es : List Obs} {m : List Obs × Nat} (h : Cut es m) (front : List Obs) :
    Cut (front ++ es) ((moves W).mul (front, 0) m) :=
  ⟨(List.prefix_append_right_inj front).mpr h.1, by simp [h.2]⟩

theorem does_startRunner (creds : String) :
    Does (startRunner plane creds)
      (fun go m => (go = true ∧ ∃ remote : Bool, m = (.starting :: (if remote then [] else [.stopping]), 0)) ∨
        go = false ∧ m = ([.starting, .stopping, .slept 5], 0))
      (fun _ m => Cut [.starting, .stopping, .slept 5] m) := by
  refine Does.tryExcept (F := fun _ m => m = ([.starting], 0)) ?_ ?_ ?_
  · refine (does_note rfl).bind (fun _ _ h => h.elim) fun _ m hm => ?_
    subst hm
    refine (does_outside _).bind (fun _ m hm => hm ▸ rfl) fun _ m hm => ?_
    subst hm
    exact does_pure (.inl ⟨rfl, true, rfl⟩)
  · intro e m hm _
    subst hm
    refine (does_stopRunner plane).bind (fun _ m hm => ?_) fun _ m hm => ?_
    · subst hm
      simp [Cut]
    · subst hm
      cases isNatsConnectionError e with
      | true =>
        refine (does_pause plane 5).bind (fun _ m hm => ?_) fun _ m hm => ?_
        · subst hm
          simp [Cut]
        · subst hm
          exact does_pure (.inr ⟨rfl, rfl⟩)
      | false => exact does_pure (.inl ⟨rfl, false, rfl⟩)
  · intro e m hm _
    subst hm
    simp [Cut]

theorem does_waitConfigured (fuel : Nat) :
    Does (waitConfigured plane fuel)
      (fun ready m => (ready = some false ∧ m = ([.stopping], 0)) ∨ ready ≠ some false ∧ m = ([], 0))
      (fun _ m => Cut [.stopping] m) := by
  induction fuel with
  | zero => exact does_pure (.inr ⟨nofun, rfl⟩)
  | succ fuel ih =>
    rw [waitConfigured]
    refine (does_outside _).bind (fun _ m hm => hm ▸ cut_nil _) fun set m hm => ?_
    subst hm
    cases set with
    | true =>
      refine (does_assign (n := 0) (by intro; rfl) (by intro; rfl)).bind (fun _ _ h => h.elim) fun _ m hm => ?_
      subst hm
      exact does_pure (.inr ⟨nofun, rfl⟩)
    | false =>
      refine (does_outside _).bind (fun _ m hm => ?_) fun down m hm => ?_
      · subst hm
        exact cut_nil _
      subst hm
      cases down with
      | true =>
        refine (does_stopRunner plane).bind (fun _ m hm => ?_) fun _ m hm => ?_
        · subst hm
          simp [Cut]
        · subst hm
          exact does_pure (.inl ⟨rfl, rfl⟩)
      | false => exact ih.mono (fun ready m hm => by simpa using hm) fun _ m hm => by simpa using hm

theorem does_awaitConfigured (fuel : Nat) :
    Does (awaitConfigured plane fuel)
      (fun ready m => (ready = some false ∧ m = ([.stopping], 0)) ∨ ready ≠ some false ∧ m = ([], 0))
      (fun _ m => Cut [.stopping] m) := by
  rw [awaitConfigured]
  refine (does_asks (g := moves W)).bind (fun _ _ h => h.elim) fun configured m hm => ?_
  subst hm
  cases configured with
  | true => exact does_pure (.inr ⟨nofun, rfl⟩)
  | false =>
    exact (does_waitConfigured plane fuel).mono (fun ready m hm => by simpa using hm)
      fun _ m hm => by simpa using hm

theorem does_endSession (id : String) (code : Int) :
    Does (endSession config plane id code) (fun _ m => m = ([.ending id (errored code)], 0))
      (fun _ m => Cut [.ending id (errored code)] m) := by
  rw [endSession]
  refine Does.bind (Q := fun _ m => m = ([], 0)) (F := fun _ m => m = ([], 0)) ?_
    (fun _ m hm => hm ▸ cut_nil _) fun logFile m hm => ?_
  · refine Does.handle (does_outside _) fun e m hm => ?_
    subst hm
    cases Importer.isOsError e with
    | true => exact does_pure rfl
    | false => exact does_raise rfl
  · subst hm
    refine (does_note rfl).bind (fun _ _ h => h.elim) fun _ m hm => ?_
    subst hm
    refine Does.tryExcept (F := fun _ m => m = ([], 0)) ?_ ?_ ?_
    · refine (does_outside _).bind (fun _ m hm => hm) fun path m hm => ?_
      subst hm
      exact (does_outside _).mono (fun _ m hm => by simp [hm]) fun _ m hm => by simp [hm]
    · intro e m hm _
      subst hm
      exact does_pure rfl
    · intro e m hm _
      subst hm
      simp [Cut]

theorem does_endUnlessUsage (id : String) (code : Int) :
    Does (endUnlessUsage config plane id code) (fun _ m => m = (notice id code, 0))
      (fun _ m => Cut (notice id code) m) := by
  unfold endUnlessUsage notice
  split
  · exact does_pure rfl
  · exact does_endSession config plane id code

/-- What an exit code means: on with the loop, or out of it. -/
def Decided (result : ForkResult) (next : Next) (m : List Obs × Nat) : Prop :=
  (next = .again ∧ StartsAgain result ∧ m = (respite result.exitCode, if isFailure result then 1 else 0)) ∨
    next = .leave result.exitCode ∧ (result.exitCode = exitSuccess ∨ isUsage result = true) ∧ m = ([], 0)

theorem does_decideNext (id : String) (result : ForkResult) :
    Does (decideNext config plane id result) (Decided result)
      (fun _ m => Cut (respite result.exitCode) m) := by
  unfold decideNext
  by_cases hnats : result.exitCode = exitNatsDisconnected
  · have hnot : isFailure result = false := by simp [isFailure, hnats]
    rw [if_pos hnats]
    refine (does_pause plane 5).bind (fun _ m hm => ?_) fun _ m hm => ?_
    · subst hm
      simp [Cut, respite, hnats]
    · subst hm
      refine does_pure (.inl ⟨rfl, .inr (.inr hnats), ?_⟩)
      rw [respite, if_pos hnats, hnot]
      rfl
  rw [if_neg hnats]
  by_cases hsuccess : result.exitCode = exitSuccess
  · rw [if_pos hsuccess]
    cases config.keepLogs with
    | true => exact does_pure (.inr ⟨by rw [hsuccess], .inl hsuccess, rfl⟩)
    | false =>
      refine (does_outside _).bind (fun _ m hm => hm ▸ cut_nil _) fun _ m hm => ?_
      subst hm
      exact does_pure (.inr ⟨by rw [hsuccess], .inl hsuccess, rfl⟩)
  rw [if_neg hsuccess]
  cases husage : isUsage result with
  | true => exact does_pure (.inr ⟨rfl, .inr husage, rfl⟩)
  | false =>
    rw [if_neg (by decide)]
    by_cases hrestart : result.exitCode = exitRestart
    · have hnot : isFailure result = false := by simp [isFailure, hrestart]
      rw [if_pos hrestart]
      refine does_pure (.inl ⟨rfl, .inr (.inl hrestart), ?_⟩)
      rw [respite, if_neg hnats, hnot]
      rfl
    · have hfailure : isFailure result = true := by
        simp [isFailure, husage, hsuccess, hrestart, hnats]
      rw [if_neg hrestart]
      refine (does_assign (n := 1) (by intro; rfl) (by intro; rfl)).bind (fun _ _ h => h.elim) fun _ m hm => ?_
      subst hm
      refine does_pure (.inl ⟨rfl, .inl hfailure, ?_⟩)
      rw [respite, if_neg hnats, hfailure]
      rfl

/-- What follows the exit of the consumer. -/
def Followed (config : Config) (id : String) (result : ForkResult) (next : Next) (m : List Obs × Nat) :
    Prop :=
  (config.noRestart = true ∧ next = .leave result.exitCode ∧ m = ([], 0)) ∨
    config.noRestart = false ∧ ∃ m', Decided result next m' ∧
      m = (notice id result.exitCode ++ m'.1, m'.2)

theorem does_afterFork (id : String) (result : ForkResult) :
    Does (afterFork config plane id result) (Followed config id result)
      (fun _ m => Cut (afterExit config id result.exitCode) m) := by
  unfold afterFork afterExit
  refine (does_assign (n := 0) (by intro; rfl) (by intro; rfl)).bind (fun _ _ h => h.elim) fun _ m hm => ?_
  subst hm
  cases hone : config.noRestart with
  | true => exact does_pure (.inl ⟨hone, rfl, rfl⟩)
  | false =>
    rw [if_neg (by decide), if_neg (by decide)]
    refine (does_endUnlessUsage config plane id result.exitCode).bind (fun _ m hm => ?_)
      fun _ m hm => ?_
    · exact ⟨hm.1.trans (List.prefix_append _ _), by simp [hm.2]⟩
    subst hm
    refine (does_decideNext config plane id result).mono (fun next m' hm' => ?_) fun _ m' hm' => ?_
    · exact .inr ⟨hone, m', hm', by simp⟩
    · have hcut := hm'.append (W := W) (notice id result.exitCode)
      simpa using hcut

/-- A fork, with what follows it. -/
def Forked (config : Config) (id : String) (next : Next) (m : List Obs × Nat) : Prop :=
  ∃ url, (next = .again ∧ m = ([.forking (forkArgs config id url), .unforked], 1)) ∨
    ∃ result m', Followed config id result next m' ∧
      m = (.forking (forkArgs config id url) :: .exited result.exitCode :: m'.1, m'.2)

/-- A fork, with as much of what follows it as there was before an exception. -/
inductive Begun (config : Config) (id : String) : List Obs → Prop where
  | forking {url : String} {es : List Obs} (h : es = [] ∨ es = [.unforked]) :
      Begun config id (.forking (forkArgs config id url) :: es)
  | exited {url : String} {code : Int} {es : List Obs} (h : es <+: afterExit config id code) :
      Begun config id (.forking (forkArgs config id url) :: .exited code :: es)

theorem Begun.interrupted {config : Config} {id : String} {es : List Obs} (h : Begun config id es)
    (remote : Bool) : Interrupted config (opening config id remote ++ (es ++ [.stopping])) := by
  cases h with
  | @forking url es h =>
    have hforking : Interrupted config
        (opening config id remote ++ [.forking (forkArgs config id url)] ++ es ++ [.stopping]) := .forking h
    simpa using hforking
  | @exited url code es h =>
    have hexited : Interrupted config (opening config id remote ++
        [.forking (forkArgs config id url), .exited code] ++ es ++ [.stopping]) := .exited h
    simpa using hexited

theorem Followed.prefix_afterExit {config : Config} {id : String} {result : ForkResult} {next : Next}
    {m : List Obs × Nat} (h : Followed config id result next m) :
    m.1 <+: afterExit config id result.exitCode := by
  obtain ⟨_, _, rfl⟩ | ⟨hone, m', hdecided, rfl⟩ := h
  · exact List.nil_prefix
  · rw [afterExit, if_neg (by simp [hone])]
    refine (List.prefix_append_right_inj _).mpr ?_
    obtain ⟨_, _, rfl⟩ | ⟨_, _, rfl⟩ := hdecided
    · exact List.prefix_rfl
    · exact List.nil_prefix

theorem Forked.begun {config : Config} {id : String} {next : Next} {m : List Obs × Nat}
    (h : Forked config id next m) : Begun config id m.1 := by
  obtain ⟨url, ⟨_, rfl⟩ | ⟨result, m', hfollowed, rfl⟩⟩ := h
  · exact .forking (.inr rfl)
  · exact .exited hfollowed.prefix_afterExit

theorem does_forkOnce (id : String) :
    Does (forkOnce config plane id) (Forked config id) (fun _ m => Begun config id m.1 ∧ m.2 = 0) := by
  unfold forkOnce
  refine (does_assign (n := 0) (by intro; rfl) (by intro; rfl)).bind (fun _ _ h => h.elim) fun _ m hm => ?_
  subst hm
  refine (does_outside_asks _).bind (fun _ _ h => h.elim) fun url m hm => ?_
  subst hm
  refine (does_note rfl).bind (fun _ _ h => h.elim) fun _ m hm => ?_
  subst hm
  refine Does.bind (Q := fun _ m => m = ([], 0)) (F := fun _ m => m = ([], 0)) ?_
    (fun _ m hm => ?_) fun result m hm => ?_
  · refine Does.tryExcept (F := fun _ m => m = ([], 0)) ?_ ?_ (fun _ _ hm _ => hm)
    · refine (does_outside _).bind (fun _ m hm => hm) fun result m hm => ?_
      subst hm
      exact does_pure rfl
    · intro e m hm _
      subst hm
      exact does_pure rfl
  · subst hm
    exact ⟨.forking (.inl rfl), rfl⟩
  · subst hm
    cases result with
    | none =>
      refine (does_note rfl).bind (fun _ _ h => h.elim) fun _ m hm => ?_
      subst hm
      refine (does_assign (n := 1) (by intro; rfl) (by intro; rfl)).bind (fun _ _ h => h.elim)
        fun _ m hm => ?_
      subst hm
      exact does_pure ⟨url, .inl ⟨rfl, rfl⟩⟩
    | some result =>
      refine (does_note rfl).bind (fun _ _ h => h.elim) fun _ m hm => ?_
      subst hm
      refine (does_afterFork config plane id result).mono (fun next m hm => ?_) fun _ m hm => ?_
      · exact ⟨url, .inr ⟨result, m, hm, by simp⟩⟩
      · exact ⟨.exited hm.1, by simp [hm.2]⟩

theorem Forked.failures {config : Config} {id : String} {next : Next} {m : List Obs × Nat}
    (h : Forked config id next m) : m.2 ≤ 1 := by
  obtain ⟨url, ⟨_, rfl⟩ | ⟨result, m', hfollowed, rfl⟩⟩ := h
  · exact Nat.le_refl 1
  · obtain ⟨_, _, rfl⟩ | ⟨_, m', hdecided, rfl⟩ := hfollowed
    · exact Nat.zero_le 1
    · obtain ⟨_, _, rfl⟩ | ⟨_, _, rfl⟩ := hdecided
      · simp only
        split
        · exact Nat.le_refl 1
        · exact Nat.zero_le 1
      · exact Nat.zero_le 1

theorem does_forkSession (id : String) :
    Does (forkSession config plane id)
      (fun next m => ∃ m', Forked config id next m' ∧ m = (m'.1 ++ [.stopping], m'.2))
      (fun _ m => ∃ es, Begun config id es ∧ m.1 = es ++ [.stopping] ∧ m.2 ≤ 1) := by
  have hstop : Does (do
      assign fun v => { v with forkRunning := false }
      stopRunner plane : ControlProg W Unit) (fun _ m => m = ([.stopping], 0))
      fun _ m => m = ([.stopping], 0) := by
    refine (does_assign (n := 0) (by intro; rfl) (by intro; rfl)).bind (fun _ _ h => h.elim)
      fun _ m hm => ?_
    subst hm
    exact (does_stopRunner plane).mono (fun _ m hm => by simp [hm]) fun _ m hm => by simp [hm]
  refine (does_forkOnce config plane id).ensure (fun next m hm => ?_) fun e m hm => ?_
  · exact hstop.mono (fun _ m' hm' => ⟨m, hm, by simp [hm']⟩)
      fun _ m' hm' => ⟨m.1, hm.begun, by simp [hm'], by simp [hm', hm.failures]⟩
  · exact hstop.mono (fun _ m' hm' => ⟨m.1, hm.1, by simp [hm'], by simp [hm', hm.2]⟩)
      fun _ m' hm' => ⟨m.1, hm.1, by simp [hm'], by simp [hm', hm.2]⟩

/-- What comes of a turn. -/
def Turned (config : Config) (next : Next) (m : List Obs × Nat) : Prop :=
  match next with
  | .again => ∃ done : Turn, done.GoesOn config ∧ m = (done.events config, if done.failed then 1 else 0)
  | .leave code => Leaves config m.1 code ∧ m.2 = 0
  | .waiting => ∃ id remote, m = (opening config id remote, 0)

/-- An exception that leaves a turn. -/
def Thrown (config : Config) (m : List Obs × Nat) : Prop := Interrupted config m.1 ∧ m.2 ≤ 1

theorem turned_forked {id : String} {remote : Bool} {next : Next} {m : List Obs × Nat}
    (h : Forked config id next m) :
    Turned config next (opening config id remote ++ (m.1 ++ [.stopping]), m.2) := by
  obtain ⟨url, ⟨rfl, rfl⟩ | ⟨result, m', hfollowed, rfl⟩⟩ := h
  · exact ⟨.unforked id url remote, trivial, rfl⟩
  · obtain ⟨hone, rfl, rfl⟩ | ⟨hone, m', hdecided, rfl⟩ := hfollowed
    · exact ⟨.single hone, rfl⟩
    · obtain ⟨rfl, hstarts, rfl⟩ | ⟨rfl, hcode, rfl⟩ := hdecided
      · refine ⟨.ran id url remote result, ⟨hone, hstarts⟩, Prod.ext ?_ rfl⟩
        simp [Turn.events]
      · refine ⟨?_, rfl⟩
        have hsettled : Leaves config (opening config id remote ++ [.forking (forkArgs config id url),
            .exited result.exitCode] ++ notice id result.exitCode ++ [.stopping]) result.exitCode :=
          .settled hone hcode
        simpa using hsettled

theorem does_superviseSession (fuel : Nat) (id : String) :
    Does (superviseSession config plane fuel id)
      (fun next m => Turned config next (.session id :: .wrote (config.credsFile id) :: m.1, m.2))
      (fun _ m => Thrown config (.session id :: .wrote (config.credsFile id) :: m.1, m.2)) := by
  unfold superviseSession
  refine (does_startRunner plane (config.credsFile id)).bind (fun _ m hm => ?_) fun started m hm => ?_
  · obtain ⟨hbegun, hnone⟩ := hm.append (W := W) [.session id, .wrote (config.credsFile id)]
    exact ⟨.offline hbegun, by simp [hm.2]⟩
  · obtain ⟨rfl, remote, rfl⟩ | ⟨rfl, rfl⟩ := hm
    · refine (does_awaitConfigured plane fuel).bind (fun _ m hm => ?_) fun ready m hm => ?_
      · obtain ⟨hbegun, hnone⟩ := hm.append (W := W) (opening config id remote)
        have hcut : Interrupted config (opening config id remote ++ m.1) := .unconfigured hbegun
        exact ⟨by simpa [opening] using hcut, by simp [hm.2]⟩
      obtain ⟨rfl, rfl⟩ | ⟨hready, rfl⟩ := hm
      · refine does_pure (g := moves W) ⟨?_, rfl⟩
        have hshut : Leaves config (opening config id remote ++ [.stopping]) exitSuccess := .shutdown
        simpa [opening] using hshut
      · cases ready with
        | none => exact does_pure ⟨id, remote, by simp [opening]⟩
        | some configured =>
          cases configured with
          | false => exact absurd rfl hready
          | true =>
            refine (does_forkSession config plane id).mono (fun next m hm => ?_) fun _ m hm => ?_
            · obtain ⟨m', hforked, rfl⟩ := hm
              have hturned : Turned config next (opening config id remote ++ (m'.1 ++ [.stopping]),
                  m'.2) := turned_forked config hforked
              simpa [opening] using hturned
            · obtain ⟨es, hbegun, hes, hcount⟩ := hm
              refine ⟨?_, by simpa using hcount⟩
              have hinterrupted := hbegun.interrupted remote
              simpa [opening, hes] using hinterrupted
    · exact does_pure ⟨.offline id, trivial, by simp [Turn.events, Turn.failed, opening]⟩

theorem does_turn (wait : Nat) :
    Does (turn config plane wait) (Turned config) (fun _ m => Thrown config m) := by
  have hnone : Thrown config ([], 0) := ⟨.busy List.nil_prefix, Nat.zero_le 1⟩
  unfold turn
  refine (does_outside_asks _).bind (fun _ _ h => h.elim) fun url m hm => ?_
  subst hm
  refine Does.bind (Q := fun _ m => m = ([], 0)) (F := fun _ m => m = ([], 0)) ?_
    (fun _ m hm => by simpa [hm] using hnone) fun session m hm => ?_
  · refine Does.tryExcept (does_outside _) (fun e m hm _ => ?_) fun _ _ hm _ => hm
    subst hm
    exact does_raise rfl
  · subst hm
    cases session with
    | none =>
      refine (does_pause plane 5).bind (fun _ m hm => ?_) fun _ m hm => ?_
      · subst hm
        exact ⟨.busy List.prefix_rfl, Nat.zero_le 1⟩
      · subst hm
        exact does_pure ⟨.busy, trivial, rfl⟩
    | some session =>
      have hregistered : Thrown config ([.session session.sessionId], 0) :=
        ⟨.offline (List.prefix_append [Obs.session session.sessionId] _), Nat.zero_le 1⟩
      simp only [runSession]
      refine (does_note rfl).bind (fun _ _ h => h.elim) fun _ m hm => ?_
      subst hm
      refine (does_outside _).bind (fun _ m hm => ?_) fun _ m hm => ?_
      · subst hm
        exact hregistered
      subst hm
      cases session.credential with
      | none => exact does_raise hregistered
      | some credential =>
        refine (does_outside _).bind (fun _ m hm => ?_) fun _ m hm => ?_
        · subst hm
          exact hregistered
        subst hm
        refine (does_record _ _).bind (fun _ _ h => h.elim) fun _ m hm => ?_
        subst hm
        refine (does_superviseSession config plane wait session.sessionId).mono (fun next m hm => ?_)
          fun _ m hm => ?_
        · simpa using hm
        · simpa using hm

end Parts

/-! ## Runs -/

def failures (done : List Turn) : Nat := (done.filter Turn.failed).length

theorem failures_cons (first : Turn) (done : List Turn) :
    failures (first :: done) = (if first.failed then 1 else 0) + failures done := by
  unfold failures
  cases h : first.failed with
  | true => rw [List.filter_cons_of_pos h, List.length_cons, if_pos rfl, Nat.add_comm]
  | false =>
    rw [List.filter_cons_of_neg (by simp [h]), if_neg (by decide), Nat.zero_add]

section Runs

variable (config : Config) (plane : Plane W)

/-- The turns that are over, and the last one as far as it came. -/
structure Progress (done : List Turn) (es : List Obs) (s t : Traced Vars W Obs) : Prop where
  trace : t.trace = s.trace ++ (done.flatMap (Turn.events config) ++ es)
  goesOn : ∀ turn ∈ done, turn.GoesOn config
  bounded : s.vars.failures + failures done ≤ maxFailures
  current : t.vars.current.map Prod.fst =
    (lastWritten (done.flatMap (Turn.events config) ++ es)).or (s.vars.current.map Prod.fst)

variable {config} in
theorem Progress.last {s t : Traced Vars W Obs} {m : List Obs × Nat} (hs : s.vars.failures ≤ maxFailures)
    (h : Moved m s t) : Progress config [] m.1 s t :=
  ⟨by simpa using h.trace, nofun, hs, by simpa using h.current⟩

variable {config} in
/-- A turn, and what comes after it. -/
theorem Progress.cons {s t u : Traced Vars W Obs} {first : Turn} {done : List Turn} {es : List Obs}
    (hgoes : first.GoesOn config) (h : Moved (first.events config, if first.failed then 1 else 0) s t)
    (hu : Progress config done es t u) : Progress config (first :: done) es s u where
  trace := by
    rw [hu.trace, h.trace, List.flatMap_cons]
    simp only [List.append_assoc]
  goesOn turn hmem := by
    rcases List.mem_cons.mp hmem with rfl | hmem
    · exact hgoes
    · exact hu.goesOn turn hmem
  bounded := by
    rw [failures_cons, ← Nat.add_assoc, ← h.failures]
    exact hu.bounded
  current := by
    rw [hu.current, h.current, List.flatMap_cons, List.append_assoc,
      lastWritten_append (first.events config), Option.or_assoc]

/-- How the loop ends with a code, or has not ended yet. -/
def Ended (fuel : Nat) (done : List Turn) (es : List Obs) (counted : Nat) : Option Int → Prop
  | some code => Leaves config es code ∧ counted < maxFailures
  | none => (∃ id remote, es = opening config id remote) ∨ es = [] ∧ done.length = fuel

/-- The loop gives up after its last failure; any other exception comes out of a turn. -/
def Raised (es : List Obs) (counted : Nat) (e : Exn) : Prop :=
  (es = [] ∧ counted = maxFailures ∧ e = .base "SystemExit") ∨
    Interrupted config es ∧ counted < maxFailures

/-- A run of the loop, by induction on the turns it may still take. -/
theorem wp_turns (wait fuel : Nat) :
    ∀ s : Traced Vars W Obs, s.vars.failures ≤ maxFailures → wp (turns config plane wait fuel)
      (fun code t => ∃ done es, Progress config done es s t ∧
        Ended config fuel done es (s.vars.failures + failures done) code)
      (fun e t => ∃ done es, Progress config done es s t ∧
        Raised config es (s.vars.failures + failures done) e) s := by
  induction fuel with
  | zero =>
    intro s hs
    exact ⟨[], [], .last hs ((moves W).refl s), .inr ⟨rfl, rfl⟩⟩
  | succ fuel ih =>
    intro s hs
    rw [turns, wp_bind, wp_read]
    by_cases hless : s.vars.failures < maxFailures
    · rw [if_pos hless, wp_bind]
      refine wp_mono (does_turn config plane wait s) (fun next t ht => ?_) (fun e t ht => ?_)
      · obtain ⟨m, hturned, hmoved⟩ := ht
        cases next with
        | again =>
          obtain ⟨first, hgoes, rfl⟩ := hturned
          have hcount : t.vars.failures ≤ maxFailures := by
            rw [hmoved.failures]
            simp only
            split <;> omega
          have htotal : ∀ done, t.vars.failures + failures done =
              s.vars.failures + failures (first :: done) := by
            intro done
            rw [hmoved.failures, failures_cons, Nat.add_assoc]
          refine wp_mono (ih t hcount) (fun code u hu => ?_) (fun e u hu => ?_)
          · obtain ⟨done, es, hu, hended⟩ := hu
            refine ⟨first :: done, es, hu.cons hgoes hmoved, ?_⟩
            rw [htotal] at hended
            cases code with
            | some code => exact hended
            | none => exact hended.imp_right fun h => ⟨h.1, by rw [List.length_cons, h.2]⟩
          · obtain ⟨done, es, hu, hraised⟩ := hu
            rw [htotal] at hraised
            exact ⟨first :: done, es, hu.cons hgoes hmoved, hraised⟩
        | leave code =>
          obtain ⟨hleaves, _⟩ := hturned
          exact ⟨[], m.1, .last hs hmoved, hleaves, hless⟩
        | waiting =>
          obtain ⟨id, remote, rfl⟩ := hturned
          exact ⟨[], _, .last hs hmoved, .inl ⟨id, remote, rfl⟩⟩
      · obtain ⟨m, hthrown, hmoved⟩ := ht
        exact ⟨[], m.1, .last hs hmoved, .inr ⟨hthrown.1, hless⟩⟩
    · rw [if_neg hless]
      have hmax : s.vars.failures = maxFailures := Nat.le_antisymm hs (Nat.le_of_not_lt hless)
      exact ⟨[], [], .last hs ((moves W).refl s), .inl ⟨rfl, hmax, rfl⟩⟩

/-- What becomes of the credential: it is removed, if it is there. -/
def Scrubbed (current : Option String) (es : List Obs) : Prop :=
  match current with
  | none => es = []
  | some creds => es = [.scrubbing creds] ∨ es = [] ∧ ∃ w, (plane.pathExists creds w).1 ≠ .ok true

theorem wp_ignoreOs {p : Prog Exn W Unit} {Q : Traced Vars W Obs → Prop} {s : Traced Vars W Obs}
    (h : ∀ w, Q (s.inWorld w)) : wp (ignoreOs (outside p)) (fun _ => Q) (fun _ => Q) s := by
  rw [ignoreOs, wp_handle]
  refine wp_outside (fun _ w _ => h w) (fun e w _ => ?_)
  cases Importer.isOsError e with
  | true => exact h w
  | false => exact h w

theorem wp_scrub (s : Traced Vars W Obs) :
    wp (scrub config plane)
      (fun _ t => ∃ es, t.trace = s.trace ++ es ∧ Scrubbed plane (s.vars.current.map Prod.fst) es)
      (fun _ t => ∃ es, t.trace = s.trace ++ es ∧ Scrubbed plane (s.vars.current.map Prod.fst) es) s := by
  have hdir : ∀ (dir : String) (es : List Obs) (t : Traced Vars W Obs), t.trace = s.trace ++ es →
      Scrubbed plane (s.vars.current.map Prod.fst) es → wp (scrubDir config plane dir)
        (fun _ t => ∃ es, t.trace = s.trace ++ es ∧ Scrubbed plane (s.vars.current.map Prod.fst) es)
        (fun _ t => ∃ es, t.trace = s.trace ++ es ∧ Scrubbed plane (s.vars.current.map Prod.fst) es) t := by
    intro dir es t ht hes
    unfold scrubDir
    cases config.keepLogs with
    | true => exact ⟨es, ht, hes⟩
    | false =>
      rw [if_neg (by decide), ignoreOs, wp_handle, wp_bind]
      have hafter : ∀ e w, wp (if Importer.isOsError e then pure () else raise e : ControlProg W Unit)
          (fun _ t => ∃ es, t.trace = s.trace ++ es ∧ Scrubbed plane (s.vars.current.map Prod.fst) es)
          (fun _ t => ∃ es, t.trace = s.trace ++ es ∧ Scrubbed plane (s.vars.current.map Prod.fst) es)
          (t.inWorld w) := by
        intro e w
        cases Importer.isOsError e with
        | true => exact ⟨es, ht, hes⟩
        | false => exact ⟨es, ht, hes⟩
      refine wp_outside (fun empty w _ => ?_) (fun e w _ => hafter e w)
      cases empty with
      | true => exact wp_outside (fun _ w' _ => ⟨es, ht, hes⟩) (fun e w' _ => hafter e w')
      | false => exact ⟨es, ht, hes⟩
  rw [scrub, wp_bind, wp_read]
  cases hcurrent : s.vars.current with
  | none => exact ⟨[], (List.append_nil _).symm, rfl⟩
  | some current =>
    obtain ⟨creds, dir⟩ := current
    rw [hcurrent] at hdir
    simp only [wp_bind, scrubCreds]
    refine wp_outside (fun found w hfound => ?_) (fun e w hfound => ⟨[], (List.append_nil _).symm, ?_⟩)
    · cases found with
      | true =>
        rw [if_pos rfl, wp_bind, wp_note]
        refine wp_mono (wp_ignoreOs fun w => ?_) (fun _ t ht => hdir dir [.scrubbing creds] t ht (.inl rfl))
          (fun _ t ht => ⟨_, ht, .inl rfl⟩)
        rfl
      | false =>
        refine hdir dir [] _ (List.append_nil _).symm (.inr ⟨rfl, s.world, ?_⟩)
        rw [hfound]
        nofun
    · refine .inr ⟨rfl, s.world, ?_⟩
      rw [hfound]
      nofun

/-- Every run is turns after which the loop goes on, no more than five of them failures, and one that
ends it: with a code, or with an exception that it does not catch.  However it ends, the credential
written last is removed if it is there; an exception of this may take the place of what ended the
loop. -/
theorem supervises (configured : Bool) (wait fuel : Nat) (w : W) :
    let run := runControlPlane config plane wait fuel ⟨.initial configured, w, []⟩
    ∃ done es scrubbed, run.2.trace = done.flatMap (Turn.events config) ++ es ++ scrubbed ∧
      (∀ turn ∈ done, turn.GoesOn config) ∧ failures done ≤ maxFailures ∧
      match run.1 with
      | .ok none => scrubbed = [] ∧ Ended config fuel done es (failures done) none
      | .ok (some code) => Ended config fuel done es (failures done) (some code) ∧
          Scrubbed plane (lastWritten (done.flatMap (Turn.events config) ++ es)) scrubbed
      | .error e => Scrubbed plane (lastWritten (done.flatMap (Turn.events config) ++ es)) scrubbed ∧
          (Raised config es (failures done) e ∨
            ((∃ e', Raised config es (failures done) e') ∨
              ∃ code, Ended config fuel done es (failures done) (some code)) ∧
              ∃ t, (scrub config plane t).1 = .error e) := by
  intro run
  have hspec : wp (runControlPlane config plane wait fuel)
      (fun code t => ∃ done es scrubbed,
        t.trace = done.flatMap (Turn.events config) ++ es ++ scrubbed ∧
        (∀ turn ∈ done, turn.GoesOn config) ∧ failures done ≤ maxFailures ∧
        Ended config fuel done es (failures done) code ∧
        match code with
        | none => scrubbed = []
        | some _ => Scrubbed plane (lastWritten (done.flatMap (Turn.events config) ++ es)) scrubbed)
      (fun e t => ∃ done es scrubbed,
        t.trace = done.flatMap (Turn.events config) ++ es ++ scrubbed ∧
        (∀ turn ∈ done, turn.GoesOn config) ∧ failures done ≤ maxFailures ∧
        Scrubbed plane (lastWritten (done.flatMap (Turn.events config) ++ es)) scrubbed ∧
        (Raised config es (failures done) e ∨
          ((∃ e', Raised config es (failures done) e') ∨
            ∃ code, Ended config fuel done es (failures done) (some code)) ∧
            ∃ t, (scrub config plane t).1 = .error e))
      ⟨.initial configured, w, []⟩ := by
    have hzero : ∀ done, (Vars.initial configured).failures + failures done = failures done :=
      fun done => Nat.zero_add _
    have hcurrent : ∀ {done es t}, Progress config done es ⟨.initial configured, w, []⟩ t →
        t.vars.current.map Prod.fst = lastWritten (done.flatMap (Turn.events config) ++ es) :=
      fun ht => ht.current.trans (Option.or_none ..)
    rw [runControlPlane, wp_bind, wp_handle]
    refine wp_mono (wp_turns config plane wait fuel _ (Nat.zero_le _)) (fun code t ht => ?_)
      (fun e t ht => ?_)
    · obtain ⟨done, es, ht, hended⟩ := ht
      simp only [hzero] at hended
      have hbounded := hzero done ▸ ht.bounded
      cases code with
      | none => exact ⟨done, es, [], by simpa using ht.trace, ht.goesOn, hbounded, hended, rfl⟩
      | some code =>
        simp only [wp_bind]
        refine wp_mono (wp_run (wp_scrub config plane t)) (fun _ u hu => ?_) (fun e u hu => ?_)
        · obtain ⟨⟨scrubbed, hu, hscrubbed⟩, _⟩ := hu
          refine ⟨done, es, scrubbed, ?_, ht.goesOn, hbounded, hended, hcurrent ht ▸ hscrubbed⟩
          rw [hu, ht.trace, List.nil_append]
        · obtain ⟨⟨scrubbed, hu, hscrubbed⟩, hrun⟩ := hu
          refine ⟨done, es, scrubbed, ?_, ht.goesOn, hbounded, hcurrent ht ▸ hscrubbed,
            .inr ⟨.inr ⟨code, hended⟩, t, ?_⟩⟩
          · rw [hu, ht.trace, List.nil_append]
          · rw [hrun]
    · obtain ⟨done, es, ht, hraised⟩ := ht
      rw [hzero] at hraised
      have hbounded := hzero done ▸ ht.bounded
      rw [wp_bind]
      refine wp_mono (wp_run (wp_scrub config plane t)) (fun _ u hu => ?_) (fun e' u hu => ?_)
      · obtain ⟨⟨scrubbed, hu, hscrubbed⟩, _⟩ := hu
        refine ⟨done, es, scrubbed, ?_, ht.goesOn, hbounded, hcurrent ht ▸ hscrubbed, .inl hraised⟩
        rw [hu, ht.trace, List.nil_append]
      · obtain ⟨⟨scrubbed, hu, hscrubbed⟩, hrun⟩ := hu
        refine ⟨done, es, scrubbed, ?_, ht.goesOn, hbounded, hcurrent ht ▸ hscrubbed,
          .inr ⟨.inl ⟨e, hraised⟩, t, ?_⟩⟩
        · rw [hu, ht.trace, List.nil_append]
        · rw [hrun]
  rcases wp_elim hspec with ⟨code, hcode, done, es, scrubbed, htrace, hgoes, hbounded, hended, hscrubbed⟩ |
    ⟨e, he, done, es, scrubbed, htrace, hgoes, hbounded, hscrubbed, hraised⟩
  · refine ⟨done, es, scrubbed, htrace, hgoes, hbounded, ?_⟩
    rw [show run.1 = .ok code from hcode]
    cases code with
    | none => exact ⟨hscrubbed, hended⟩
    | some code => exact ⟨hended, hscrubbed⟩
  · refine ⟨done, es, scrubbed, htrace, hgoes, hbounded, ?_⟩
    rw [show run.1 = .error e from he]
    exact ⟨hscrubbed, hraised⟩

end Runs

end Sessions
end Server
end Eds
