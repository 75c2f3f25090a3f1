import Eds.Import.Recovery
import Eds.Event

/-!
# The import command

`_do_import_with_recovery` builds the four stages from the export client and the
importer, runs the recovery loop with them, records the migrated versions, saves the
cutoffs under the `table-export` key and turns the outcome into an exit code.

The variable is what the key holds.  The trace records the tables resumed from a
prior run, the outcome of the loop with the loop's own trace, and the write of the
cutoffs.  The run id is fixed for a run and does not appear; the temporary
directories are removed with errors ignored and are left out.
-/

namespace Eds
namespace Import

open Effects Effects.Prog Effects.Traced Collections

variable {W : Type}

/-- `makeDir` is `tempfile.mkdtemp`.  The last four write to the tracker: the cutoffs
under `table-export`, the tables that failed for good, and the removal of that record
and of the progress markers. -/
structure Services (W : Type) where
  server : Server W
  files : Files W
  createExportJob : List String → Prog Exn W String
  makeDir : String → Prog Exn W String
  runImport : String → List String → String → Prog Exn W Unit
  progressMarkerPresent : String → Prog Exn W Bool
  sleep : Nat → Prog Exn W Unit
  getLatestSchema : Prog Exn W (Dict String Schema)
  setTableVersion : String → String → Prog Exn W Unit
  setTableExport : List TableExportInfo → Prog Exn W Unit
  recordFailed : List String → Prog Exn W Unit
  deleteFailed : Prog Exn W Unit
  deleteProgress : Prog Exn W Unit

/-! ## The stages -/

/-- `_download_urls_expired`. -/
def downloadUrlsExpired (e : Exn) : Bool :=
  let status : List Int := match e with
    | .apiStatus _ code => [code]
    | _ => []
  status.contains 403 || status.contains 410 ||
    contains (lower e.str) "403".toList || contains (lower e.str) "410".toList

def pollFn (services : Services W) (fuel : Nat) (jobId : String) :
    Prog Exn W ExportJobResponse := do
  let job ← pollUntilComplete services.server jobId false fuel
  match job with
  | none => raise .recoveryCancelled
  | some job => do
    let stop ← services.server.cancelled
    if stop then raise .recoveryCancelled else pure job

/-- The entries of the job for the given tables. -/
def subsetOf (job : ExportJobResponse) (tables : List String) :
    List (String × ExportJobTableData) :=
  job.tables.items.filter fun entry => entry.1 ∈ tables

def downloadFn (services : Services W) (job : ExportJobResponse) (tables : List String)
    (jobId : String) : Prog Exn W (List TableExportInfo × String) := do
  let attemptDir ← services.makeDir jobId
  let info ← tryExcept (bulkDownloadData services.files (subsetOf job tables) attemptDir)
    fun e => raise (.downloadStage e.str (downloadUrlsExpired e))
  let stop ← services.server.cancelled
  if stop then raise .recoveryCancelled else pure (info, attemptDir)

def wire (services : Services W) (fuel : Nat) : Stages W where
  exportFn := services.createExportJob
  pollFn := pollFn services fuel
  downloadFn := downloadFn services
  importFn := services.runImport
  progressMarkerPresent := services.progressMarkerPresent
  cancelled := services.server.cancelled
  sleep := services.sleep

/-! ## The command -/

structure Args where
  only : List String
  jobId : String
  maxRetries : Int
  supportsMigration : Bool

def exitSuccess : Int := 0

def exitError : Int := 1

inductive Note where
  | resumed (completed : List String)
  | recovered (result : RecoveryResult) (events : List Event)
  | saved (infos : List TableExportInfo)
  | unsaved (e : Exn)
  deriving DecidableEq

abbrev CState (W : Type) := Traced (Option (List TableExportInfo)) W Note

abbrev CProg (W α : Type) := Prog Exn (CState W) α

/-- What the recovery loop ends the command with, if it does. -/
inductive Ending where
  | exit (code : Int)
  | result (r : RecoveryResult)

def Args.candidate (args : Args) (latest : Dict String Schema) : List String :=
  if args.only = [] then latest.keys else args.only

def Args.initialExportTables (args : Args) (latest : Dict String Schema)
    (completed : List String) : List String :=
  if completed = [] then args.only else (args.candidate latest).filter fun t => t ∉ completed

def Args.request (args : Args) (latest : Dict String Schema) (completed : List String) :
    Request where
  maxRetries := args.maxRetries
  initialExportTables := args.initialExportTables latest completed
  initialJobId := args.jobId
  completedTables := completed
  marks := true

/-- `run_with_recovery` with the `except` clauses around it. -/
def recovery (services : Services W) (fuel : Nat) (req : Request) : CProg W Ending := fun s =>
  match runWithRecovery (wire services fuel) req (RState.initial req s.world) with
  | (.ok r, t) => (.ok (.result r), (s.inWorld t.world).push (.recovered r t.trace))
  | (.error (.usage _ code), t) => (.ok (.exit code), s.inWorld t.world)
  | (.error e, t) =>
    if e.isException then (.ok (.exit exitError), s.inWorld t.world)
    else (.error e, s.inWorld t.world)

def recordVersion (services : Services W) (latest : Dict String Schema) (imported : List String)
    (info : TableExportInfo) : CProg W Unit :=
  if info.table ∈ imported then
    match latest.get? info.table with
    | some data => outside (services.setTableVersion info.table data.modelVersion)
    | none => pure ()
  else pure ()

def saveCutoffs (services : Services W) (infos : List TableExportInfo) : CProg W Unit :=
  tryExcept
    (do
      outside (services.setTableExport infos)
      note (.saved infos)
      assign fun _ => some infos)
    fun e => note (.unsaved e)

def resetMarkers (services : Services W) : CProg W Int := do
  let _ ← outside services.deleteProgress
  outside services.deleteFailed
  pure exitSuccess

/-- Record the versions just migrated, of the tables that were imported. -/
def recordVersions (services : Services W) (args : Args) (latest : Dict String Schema)
    (result : RecoveryResult) : CProg W Unit :=
  if args.supportsMigration then
    each (recordVersion services latest result.imported) result.tableExportInfo
  else pure ()

def conclude (services : Services W) (result : RecoveryResult) : CProg W Int :=
  if result.permanentlyFailed ≠ [] then do
    let sorted := result.permanentlyFailed.mergeSort fun a b => decide (a ≤ b)
    tryExcept (outside (services.recordFailed sorted)) fun _ => pure ()
    pure exitError
  else resetMarkers services

def finish (services : Services W) (args : Args) (latest : Dict String Schema)
    (result : RecoveryResult) : CProg W Int := do
  recordVersions services args latest result
  saveCutoffs services result.tableExportInfo
  conclude services result

def doImportWithRecovery (services : Services W) (fuel : Nat) (args : Args) : CProg W Int := do
  let latest ← tryExcept (do let latest ← outside services.getLatestSchema; pure (some latest))
    fun _ => pure none
  match latest with
  | none => pure exitError
  | some latest => do
    let completed ← outside (marked services.progressMarkerPresent (args.candidate latest))
    note (.resumed completed)
    if completed ≠ [] ∧ args.initialExportTables latest completed = [] then resetMarkers services
    else do
      let ending ← recovery services fuel (args.request latest completed)
      match ending with
      | .exit code => pure code
      | .result result => finish services args latest result

/-- Every call succeeds, every job answers with `job`, no marker is set, and files
and cursors are of the first instant of 2026. -/
def Services.serving (job : ExportJobResponse) : Services Unit where
  server := { fetch := fun _ => pure job, cancelled := pure false, sleep := pure () }
  files :=
    { fileTime := fun _ => some 1767225600000000000
      cursorNanos := fun _ => .ok 1767225600000000000
      baseName := id
      fetchAll := fun _ _ => pure () }
  createExportJob _ := pure "job"
  makeDir _ := pure "dir"
  runImport _ _ _ := pure ()
  progressMarkerPresent _ := pure false
  sleep _ := pure ()
  getLatestSchema := pure Dict.empty
  setTableVersion _ _ := pure ()
  setTableExport _ := pure ()
  recordFailed _ := pure ()
  deleteFailed := pure ()
  deleteProgress := pure ()

/-- The same services, over a world with a component that none of them touches. -/
def Services.beside (services : Services W) (τ : Type) : Services (W × τ) where
  server :=
    { fetch := fun jobId => first (services.server.fetch jobId)
      cancelled := first services.server.cancelled
      sleep := first services.server.sleep }
  files :=
    { fileTime := services.files.fileTime
      cursorNanos := services.files.cursorNanos
      baseName := services.files.baseName
      fetchAll := fun urls dir => first (services.files.fetchAll urls dir) }
  createExportJob tables := first (services.createExportJob tables)
  makeDir jobId := first (services.makeDir jobId)
  runImport jobId tables dir := first (services.runImport jobId tables dir)
  progressMarkerPresent table := first (services.progressMarkerPresent table)
  sleep seconds := first (services.sleep seconds)
  getLatestSchema := first services.getLatestSchema
  setTableVersion table version := first (services.setTableVersion table version)
  setTableExport infos := first (services.setTableExport infos)
  recordFailed tables := first (services.recordFailed tables)
  deleteFailed := first services.deleteFailed
  deleteProgress := first services.deleteProgress

def CState.initial (tableExport : Option (List TableExportInfo)) (w : W) : CState W :=
  ⟨tableExport, w, []⟩

end Import
end Eds
