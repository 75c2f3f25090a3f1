import Eds.Effects.Traced
import Eds.Importer.Records

/-!
# The import action

An import that is asked for over the notification channel pauses the consumer, forks `eds import`,
and then restarts the consumer, or lets the control plane start the first one.  An import that
exits with the code for incorrect usage ends the action before that: the driver's URL was
refused, or its connection test failed.

The context of the control plane is part of the world, since the control plane changes it
while an action runs.  The trace records each request to the control port and its answer,
the exit code of the import, and the release of the first start.
-/

namespace Eds
namespace Server

open Effects Effects.Prog Effects.Traced

variable {W : Type}

def exitSuccess : Int := 0

def exitIncorrectUsage : Int := 3

/-- What the closures read of the context.  `hasConfigureEvent` says that `configure_event` is
not `None`. -/
structure ControlPlaneContext where
  apiKey : String
  dataDir : String
  verbose : Bool
  noRestart : Bool
  driverUrl : String
  configured : Bool
  sessionId : String
  sessionDir : String
  forkRunning : Bool
  hasConfigureEvent : Bool

structure ForkResult where
  exitCode : Int
  lastErrorLines : String

/-- `controlGet` is the request to the control port of the fork, `fileSize` the size of a file,
or zero for one that does not exist, and `forker` the fork of `eds import`. -/
structure ControlPlane (W : Type) where
  context : W → ControlPlaneContext
  controlGet : String → Prog Exn W String
  forker : List String → Prog Exn W (Option ForkResult)
  getLogUploadUrl : Prog Exn W String
  fileSize : String → Prog Exn W Nat
  uploadLogFile : String → String → Prog Exn W String
  setConfigureEvent : Prog Exn W Unit

inductive ActionObs where
  | asked (path : String)
  | answered (path : String)
  | forked (exitCode : Option Int)
  | released
  deriving DecidableEq

abbrev ActionState (W : Type) := Traced Unit W ActionObs

abbrev ActionProg (W α : Type) := Prog Exn (ActionState W) α

structure ImportRequest where
  backfill : Bool
  jobId : String

structure ImportResponse where
  success : Bool
  message : Option String
  sessionId : String
  logPath : Option String

structure ImportRunResult where
  success : Bool
  validated : Bool
  message : Option String
  logPath : Option String

/-- `rstrip("\n")` -/
def rstripNewlines (s : String) : String :=
  String.ofList (s.toList.reverse.dropWhile fun c => c = '\n').reverse

/-- `os.path.join`, for a name that is not absolute. -/
def pathJoin (dir name : String) : String :=
  if dir = "" ∨ dir.toList.getLast? = some '/' then dir ++ name else dir ++ "/" ++ name

/-- What an import says that was refused for its usage. -/
def usageMessage (lastErrorLines : String) : String :=
  let lines := (rstripNewlines lastErrorLines).splitOn "\n"
  if lines.length > 1 then lines.getLastD "" else Importer.strip lastErrorLines

def importArgs (ctx : ControlPlaneContext) (url : String) (schemaOnly validateOnly : Bool)
    (jobId : String) : List String :=
  ["--url", url, "--api-key", ctx.apiKey, "--no-confirm", "--data-dir", ctx.dataDir] ++
    (if schemaOnly then ["--schema-only"] else []) ++
    (if jobId ≠ "" then ["--job-id", jobId] else []) ++
    (if validateOnly then ["--validate-only", "--silent"]
      else if ctx.verbose then ["--verbose"] else [])

section

variable (plane : ControlPlane W)

/-- The context as it is now. -/
def context : ActionProg W ControlPlaneContext := outside (asks plane.context)

def control (path : String) : ActionProg W Unit := do
  note (.asked path)
  let _ ← outside (plane.controlGet path)
  note (.answered path)

/-- A request to the running fork, if there is one; an error only goes to the log. -/
def controlFork (path : String) : ActionProg W Unit :=
  tryExcept
    (do
      let ctx ← context plane
      if ctx.forkRunning then control plane path else pure ())
    fun _ => pure ()

def pause : ActionProg W Unit := controlFork plane "pause"

def restart : ActionProg W Unit := controlFork plane "restart"

/-- The path of the upload, or nothing. -/
def uploadLog (url name : String) : ActionProg W String := do
  let ctx ← context plane
  let file := pathJoin ctx.sessionDir name
  let size ← outside (plane.fileSize file)
  if 0 < size then tryExcept (outside (plane.uploadLogFile url file)) fun _ => pure ""
  else pure ""

def uploadLogs : ActionProg W String := do
  let url ← tryExcept (do let url ← outside plane.getLogUploadUrl; pure (some url))
    fun _ => pure none
  match url with
  | none => pure ""
  | some url => do
    let path ← uploadLog plane url "import_stdout.txt"
    let _ ← uploadLog plane url "import_stderr.txt"
    pure path

/-- What comes of an exit code. -/
def imported (result : ForkResult) : ActionProg W ImportRunResult := do
  let ctx ← context plane
  if ctx.noRestart then raise (.base "SystemExit")
  else if result.exitCode = exitSuccess then
    pure { success := true, validated := true, message := none, logPath := none }
  else if result.exitCode = exitIncorrectUsage then
    pure
      { success := false
        validated := false
        message := some (usageMessage result.lastErrorLines)
        logPath := none }
  else do
    let path ← uploadLogs plane
    pure
      { success := true
        validated := false
        message := some ("Error importing data. See the error logs for more details or contact " ++
          "support for further assistance.")
        logPath := some path }

def runImport (url : String) (schemaOnly validateOnly : Bool) (jobId : String) :
    ActionProg W ImportRunResult := do
  let ctx ← context plane
  let reply ← tryExcept (outside (plane.forker (importArgs ctx url schemaOnly validateOnly jobId)))
    fun _ => pure none
  note (.forked (reply.map ForkResult.exitCode))
  match reply with
  | none =>
    pure
      { success := true
        validated := false
        message := some "Error importing data. Please contact support for assistance."
        logPath := none }
  | some result => imported plane result

/-- The consumer is paused while the import runs. -/
def pausedImport (req : ImportRequest) : ActionProg W ImportRunResult := do
  pause plane
  let ctx ← context plane
  runImport plane ctx.driverUrl (!req.backfill) false req.jobId

/-- Start the first consumer, or restart the one there is. -/
def resume : ActionProg W Unit := do
  let ctx ← context plane
  if ctx.configured then restart plane
  else if ctx.hasConfigureEvent then do
    outside plane.setConfigureEvent
    note .released
  else pure ()

def respond (result : ImportRunResult) : ActionProg W ImportResponse := do
  let ctx ← context plane
  pure
    { success := result.success
      message := result.message
      sessionId := ctx.sessionId
      logPath := result.logPath }

def importAction (req : ImportRequest) : ActionProg W ImportResponse := do
  let result ← pausedImport plane req
  if result.success then do
    resume plane
    respond plane result
  else respond plane result

end

def ActionState.initial (w : W) : ActionState W := ⟨(), w, []⟩

/-- The consumer was asked to go on, or let go for the first time. -/
def Resumed (t : List ActionObs) : Prop :=
  .asked "unpause" ∈ t ∨ .asked "restart" ∈ t ∨ .released ∈ t

instance : DecidablePred Resumed := fun t =>
  inferInstanceAs (Decidable (.asked "unpause" ∈ t ∨ .asked "restart" ∈ t ∨ .released ∈ t))

/-- In this context `resume` reaches a consumer. -/
def ControlPlaneContext.canResume (ctx : ControlPlaneContext) : Bool :=
  if ctx.configured then ctx.forkRunning else ctx.hasConfigureEvent

/-- The state in which the import left the control plane. -/
def afterImport (plane : ControlPlane W) (req : ImportRequest) (w : W) : ActionState W :=
  (pausedImport plane req (.initial w)).2

/-! ## What a request adds to the trace -/

/-- The events of a request to a fork, which answers it or fails. -/
def Requested (running : Bool) (path : String) (es : List ActionObs) : Prop :=
  running = false ∧ es = [] ∨
    running = true ∧ (es = [.asked path] ∨ es = [.asked path, .answered path])

section Requests

variable {running : Bool} {path : String} {es : List ActionObs}

theorem Requested.asked_iff (h : Requested running path es) (other : String) :
    .asked other ∈ es ↔ running = true ∧ other = path := by
  obtain ⟨hrunning, rfl⟩ | ⟨hrunning, rfl | rfl⟩ := h
  · simp [hrunning]
  · simp [hrunning]
  · simp [hrunning]

theorem Requested.not_forked (h : Requested running path es) (code : Option Int) :
    .forked code ∉ es := by
  obtain ⟨-, rfl⟩ | ⟨-, rfl | rfl⟩ := h
  · simp
  · simp
  · simp

theorem Requested.not_released (h : Requested running path es) : .released ∉ es := by
  obtain ⟨-, rfl⟩ | ⟨-, rfl | rfl⟩ := h
  · simp
  · simp
  · simp

end Requests

section Runs

variable (plane : ControlPlane W)

theorem wp_context {α : Type} {f : ControlPlaneContext → ActionProg W α}
    {Q : α → ActionState W → Prop} {X : Exn → ActionState W → Prop} {s : ActionState W} :
    wp (do let ctx ← context plane; f ctx) Q X s ↔ wp (f (plane.context s.world)) Q X s := by
  rw [wp_bind, context, wp_outside_iff]
  rfl

theorem controlFork_trace (path : String) (s : ActionState W) :
    wp (controlFork plane path)
      (fun _ t => ∃ es, t.trace = s.trace ++ es ∧
        Requested (plane.context s.world).forkRunning path es)
      (fun _ _ => True) s := by
  refine wp_tryExcept ((wp_context plane).mpr ?_)
  cases hrunning : (plane.context s.world).forkRunning with
  | false => exact ⟨[], (List.append_nil _).symm, Or.inl ⟨rfl, rfl⟩⟩
  | true =>
    rw [if_pos rfl, control, wp_bind, wp_note, wp_bind]
    refine wp_outside (fun reply w _ => ?_) (fun e w _ => ⟨fun _ => ?_, fun _ => trivial⟩)
    · exact ⟨[.asked path, .answered path], List.append_assoc _ _ _, Or.inr ⟨rfl, Or.inr rfl⟩⟩
    · exact ⟨[.asked path], rfl, Or.inr ⟨rfl, Or.inl rfl⟩⟩

theorem uploadLog_quiet (url name : String) : Within Quiet (uploadLog plane url name) := by
  refine (quiet_outside _).bind (fun ctx => (quiet_outside _).bind (fun size => ?_) Quiet.trans)
    Quiet.trans
  by_cases hsize : 0 < size
  · rw [if_pos hsize]
    exact within_tryExcept (quiet_outside _) (fun _ => within_pure Quiet.refl _) Quiet.refl
      Quiet.trans
  · rw [if_neg hsize]
    exact within_pure Quiet.refl _

theorem uploadLogs_quiet : Within Quiet (uploadLogs plane) := by
  refine Within.bind (within_tryExcept ?_ (fun _ => within_pure Quiet.refl _) Quiet.refl Quiet.trans)
    (fun url => ?_) Quiet.trans
  · exact (quiet_outside _).bind (fun _ => within_pure Quiet.refl _) Quiet.trans
  · cases url with
    | none => exact within_pure Quiet.refl _
    | some url =>
      refine (uploadLog_quiet plane url _).bind (fun path => ?_) Quiet.trans
      exact (uploadLog_quiet plane url _).bind (fun _ => within_pure Quiet.refl _) Quiet.trans

/-- Incorrect usage is the one failure of an import that ran. -/
theorem imported_trace (result : ForkResult) (s : ActionState W) :
    wp (imported plane result)
      (fun run t => t.trace = s.trace ∧ (run.success = false ↔ result.exitCode = exitIncorrectUsage))
      (fun _ _ => True) s := by
  refine (wp_context plane).mpr ?_
  by_cases hexit : (plane.context s.world).noRestart = true
  · rw [if_pos hexit]
    trivial
  rw [if_neg hexit]
  by_cases hsuccess : result.exitCode = exitSuccess
  · rw [if_pos hsuccess, hsuccess]
    exact ⟨rfl, by decide⟩
  rw [if_neg hsuccess]
  by_cases husage : result.exitCode = exitIncorrectUsage
  · rw [if_pos husage]
    exact ⟨rfl, by simp [husage]⟩
  rw [if_neg husage, wp_bind]
  refine wp_mono ((uploadLogs_quiet plane).wp s) (fun path t ht => ?_) (fun _ _ _ => trivial)
  exact ⟨ht.2, by simp [husage]⟩

theorem runImport_trace (url : String) (schemaOnly validateOnly : Bool) (jobId : String)
    (s : ActionState W) :
    wp (runImport plane url schemaOnly validateOnly jobId)
      (fun run t => ∃ code, t.trace = s.trace ++ [.forked code] ∧
        (run.success = false ↔ code = some exitIncorrectUsage))
      (fun _ _ => True) s := by
  refine (wp_context plane).mpr (wp_bind.mpr (wp_tryExcept ?_))
  have hreply : ∀ (reply : Option ForkResult) (t : ActionState W), t.trace = s.trace →
      wp (do
        note (.forked (reply.map ForkResult.exitCode))
        match reply with
        | none =>
          pure
            { success := true
              validated := false
              message := some "Error importing data. Please contact support for assistance."
              logPath := none }
        | some result => imported plane result)
      (fun run t => ∃ code, t.trace = s.trace ++ [.forked code] ∧
        (run.success = false ↔ code = some exitIncorrectUsage))
      (fun _ _ => True) t := by
    intro reply t ht
    rw [wp_bind, wp_note]
    cases reply with
    | none => exact ⟨none, congrArg (· ++ _) ht, by simp⟩
    | some result =>
      refine wp_post (imported_trace plane result _) fun run u hu => ?_
      refine ⟨some result.exitCode, ?_, by simp [hu.2]⟩
      rw [hu.1, Traced.push_trace, ht]
      rfl
  refine wp_outside (fun reply w _ => hreply reply _ rfl)
    (fun e w _ => ⟨fun _ => ?_, fun _ => trivial⟩)
  exact hreply none _ rfl

theorem pausedImport_trace (req : ImportRequest) (s : ActionState W) :
    wp (pausedImport plane req)
      (fun run t => ∃ es code, t.trace = s.trace ++ es ++ [.forked code] ∧
        Requested (plane.context s.world).forkRunning "pause" es ∧
        (run.success = false ↔ code = some exitIncorrectUsage))
      (fun _ _ => True) s := by
  rw [pausedImport, wp_bind]
  refine wp_post (controlFork_trace plane "pause" s) fun _ t ⟨es, hes, hpause⟩ => ?_
  refine (wp_context plane).mpr ?_
  refine wp_post (runImport_trace plane _ _ _ _ t) fun run u ⟨code, hcode, hrun⟩ => ?_
  exact ⟨es, code, hcode.trans (congrArg (· ++ _) hes), hpause, hrun⟩

/-- What `resume` adds: a request to restart, the release of the first start, or nothing. -/
theorem resume_trace (s : ActionState W) :
    wp (resume plane)
      (fun _ t => ∃ es, t.trace = s.trace ++ es ∧
        (Requested (plane.context s.world).canResume "restart" es ∨
          (plane.context s.world).canResume = true ∧ es = [.released]))
      (fun _ _ => True) s := by
  refine (wp_context plane).mpr ?_
  unfold ControlPlaneContext.canResume
  cases hconfigured : (plane.context s.world).configured with
  | true =>
    refine wp_post (controlFork_trace plane "restart" s) fun _ t ⟨es, hes, hrestart⟩ => ?_
    exact ⟨es, hes, Or.inl hrestart⟩
  | false =>
    cases hevent : (plane.context s.world).hasConfigureEvent with
    | false => exact ⟨[], (List.append_nil _).symm, Or.inl (Or.inl ⟨rfl, rfl⟩)⟩
    | true =>
      rw [if_neg Bool.false_ne_true, if_pos rfl, wp_bind]
      exact wp_outside (fun _ w _ => ⟨[.released], rfl, Or.inr ⟨rfl, rfl⟩⟩) fun _ _ _ => trivial

/-! ## The action that returns -/

variable {plane} {req : ImportRequest} {w : W} {resp : ImportResponse} {t : ActionState W}

/-- What is in the trace of an action that returns. -/
theorem importAction_trace (h : importAction plane req (.initial w) = (.ok resp, t)) :
    ∃ es code, (afterImport plane req w).trace = es ++ [.forked code] ∧
      Requested (plane.context w).forkRunning "pause" es ∧
      ((code = some exitIncorrectUsage ∧ t.trace = es ++ [.forked code]) ∨
        code ≠ some exitIncorrectUsage ∧ ∃ es', t.trace = es ++ [.forked code] ++ es' ∧
          (Requested (plane.context (afterImport plane req w).world).canResume "restart" es' ∨
            (plane.context (afterImport plane req w).world).canResume = true ∧ es' = [.released])) := by
  have hpaused := pausedImport_trace plane req (.initial w)
  unfold afterImport
  cases himport : pausedImport plane req (.initial w) with
  | mk reply s =>
    cases reply with
    | error e =>
      rw [importAction, bind_of_error himport] at h
      cases h
    | ok result =>
      rw [importAction, bind_of_ok himport] at h
      obtain ⟨es, code, htrace, hpause, hcode⟩ := wp_ok hpaused himport
      refine ⟨es, code, htrace, hpause, ?_⟩
      cases hsuccess : result.success with
      | false =>
        rw [hsuccess, if_neg Bool.false_ne_true] at h
        have hquiet : t.trace = s.trace := congrArg Traced.trace (Prod.mk.inj h).2.symm
        exact Or.inl ⟨hcode.mp hsuccess, hquiet.trans htrace⟩
      | true =>
        rw [hsuccess, if_pos rfl] at h
        have hresumed : wp (do resume plane; respond plane result)
            (fun _ t => ∃ es', t.trace = s.trace ++ es' ∧
              (Requested (plane.context s.world).canResume "restart" es' ∨
                (plane.context s.world).canResume = true ∧ es' = [.released]))
            (fun _ _ => True) s := by
          rw [wp_bind]
          exact wp_post (resume_trace plane s) fun _ u hu => hu
        obtain ⟨es', htrace', hes'⟩ := wp_ok hresumed h
        refine Or.inr ⟨fun hcode' => ?_, es', ?_, hes'⟩
        · rw [hcode.mpr hcode'] at hsuccess
          cases hsuccess
        · exact htrace'.trans (congrArg (· ++ es') htrace)

/-- The pause is asked for where a fork runs when the action starts. -/
theorem asked_pause_iff (h : importAction plane req (.initial w) = (.ok resp, t)) :
    .asked "pause" ∈ t.trace ↔ (plane.context w).forkRunning = true := by
  obtain ⟨es, code, -, hpause, ⟨-, htrace⟩ | ⟨-, es', htrace, hes'⟩⟩ := importAction_trace h
  · rw [htrace]
    simp [hpause.asked_iff]
  · have hresume : .asked "pause" ∉ es' := by
      rcases hes' with hes' | ⟨-, rfl⟩
      · simp [hes'.asked_iff]
      · simp
    rw [htrace]
    simp [hpause.asked_iff, hresume]

/-- The consumer goes on after an import that was not refused, if there is one to reach. -/
theorem resumed_iff (h : importAction plane req (.initial w) = (.ok resp, t)) :
    Resumed t.trace ↔
      .forked (some exitIncorrectUsage) ∉ (afterImport plane req w).trace ∧
        (plane.context (afterImport plane req w).world).canResume = true := by
  obtain ⟨es, code, himport, hpause, hend⟩ := importAction_trace h
  have hcode : .forked (some exitIncorrectUsage) ∉ (afterImport plane req w).trace ↔
      code ≠ some exitIncorrectUsage := by
    rw [himport]
    simp [hpause.not_forked, eq_comm]
  have hes : ¬ Resumed (es ++ [.forked code]) := by
    simp [Resumed, hpause.asked_iff, hpause.not_released]
  rw [hcode]
  rcases hend with ⟨hrefused, htrace⟩ | ⟨hcode, es', htrace, hes'⟩
  · rw [htrace]
    exact iff_of_false hes fun hcond => hcond.1 hrefused
  · have hsplit : Resumed t.trace ↔ Resumed es' := by
      rw [htrace]
      simp [Resumed, hpause.asked_iff, hpause.not_released]
    rw [hsplit, and_iff_right hcode]
    rcases hes' with hes' | ⟨hcan, rfl⟩
    · simp [Resumed, hes'.asked_iff, hes'.not_released]
    · simp [Resumed, hcan]

/-- A paused consumer is asked to go on exactly when the import did not exit for incorrect
usage and, in the context it left, there is a consumer to reach. -/
theorem paused_then_resumed_iff (h : importAction plane req (.initial w) = (.ok resp, t)) :
    (.asked "pause" ∈ t.trace → Resumed t.trace) ↔
      ((plane.context w).forkRunning = true →
        .forked (some exitIncorrectUsage) ∉ (afterImport plane req w).trace ∧
          (plane.context (afterImport plane req w).world).canResume = true) := by
  rw [asked_pause_iff h, resumed_iff h]

end Runs

/-- A server with a running fork. -/
def liveContext : ControlPlaneContext where
  apiKey := "key"
  dataDir := "data"
  verbose := false
  noRestart := false
  driverUrl := "postgres://db/eds"
  configured := true
  sessionId := "session"
  sessionDir := "data/session"
  forkRunning := true
  hasConfigureEvent := true

/-- Its import exits with this code, and the fork answers every request. -/
def liveServer (exitCode : Int) (lastErrorLines : String) : ControlPlane Unit where
  context _ := liveContext
  controlGet _ := pure ""
  forker _ := pure (some ⟨exitCode, lastErrorLines⟩)
  getLogUploadUrl := pure "https://logs/upload"
  fileSize _ := pure 0
  uploadLogFile _ _ := pure ""
  setConfigureEvent := pure ()

/-- An import whose connection test fails leaves the consumer paused. -/
theorem refused_import_stays_paused :
    ∃ resp t, importAction (liveServer 3 "driver test failed: connection refused\n") ⟨true, ""⟩
        (.initial ()) = (.ok resp, t) ∧
      .answered "pause" ∈ t.trace ∧ ¬ Resumed t.trace := by
  refine ⟨_, _, rfl, ?_, ?_⟩ <;> decide

/-- An import that fails in its work does not. -/
theorem paused_then_resumed_iff_failed :
    ∃ resp t, importAction (liveServer 1 "1 tables permanently failed: orders\n") ⟨true, ""⟩
        (.initial ()) = (.ok resp, t) ∧
      .answered "pause" ∈ t.trace ∧ (.asked "pause" ∈ t.trace → Resumed t.trace) := by
  have hrun : ∃ resp t, importAction (liveServer 1 "1 tables permanently failed: orders\n")
      ⟨true, ""⟩ (.initial ()) = (.ok resp, t) ∧ .answered "pause" ∈ t.trace :=
    ⟨_, _, rfl, by decide⟩
  obtain ⟨resp, t, h, hpaused⟩ := hrun
  exact ⟨resp, t, h, hpaused, (paused_then_resumed_iff h).mpr fun _ => ⟨by decide, rfl⟩⟩

end Server
end Eds
