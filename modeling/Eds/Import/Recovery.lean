import Eds.Import.Client

/-!
# The recovery loop

`run_with_recovery` exports, polls, downloads and imports, and does so again for
what is left until nothing is or the retries are used up.  The four stages, the
progress markers, the cancel flag and the sleep are programs over a world `W` of
which nothing is known.

The variables are those of the loop, with one that the source does not have:
`response` is the job response of the attempt under way.  The trace records each
response with the tables imported by then, each call of `import_fn` and its return,
each attempt that failed, the tables whose marker was found after that, and the
list `imported` each time it grew.
-/

namespace Eds
namespace Import

open Effects Effects.Prog Effects.Traced Collections

variable {W : Type}

/-! ## Which errors are worth a retry -/

/-- `str.lower` as far as a search for ASCII letters can tell: two letters outside
ASCII have an ASCII letter in their lower case. -/
def lower (s : String) : List Char :=
  s.toList.flatMap fun c =>
    if c = '\u212A' then ['k'] else if c = '\u0130' then ['i', '\u0307'] else [c.toLower]

def transportMarkers : List String :=
  ["connection reset", "connection refused", "broken pipe", "timed out", "eof",
    "no such host", "tls handshake", "dns",
    "failed to resolve", "getaddrinfo", "name resolution", "name or service not known"]

def contains (s part : List Char) : Bool := s.tails.any fun rest => part.isPrefixOf rest

def matchesTransport (msg : String) : Bool :=
  transportMarkers.any fun marker => contains (lower msg) marker.toList

def retryableStatus : List Int := [408, 429, 500, 502, 503, 504]

/-- ENOSPC, EACCES, EPERM, EROFS, EDQUOT, EISDIR, ENOENT, ENOTDIR, EMFILE, ENFILE. -/
def fatalErrnos : List Int := [28, 13, 1, 30, 122, 21, 2, 20, 24, 23]

def isRecoverable : Exn → Bool
  | .usage _ _ | .recoveryCancelled | .schemaValidation _ | .valueError _ | .permissionError _ => false
  | .downloadStage _ _ => true
  | .apiStatus _ code => retryableStatus.contains code
  | .connectionError _ | .timeoutError _ => true
  | .requestsTransport _ => true
  | .osError (some errno) msg => if fatalErrnos.contains errno then false else matchesTransport msg
  | e => matchesTransport e.str

/-! ## The loop -/

structure Stages (W : Type) where
  exportFn : List String → Prog Exn W String
  pollFn : String → Prog Exn W ExportJobResponse
  downloadFn : ExportJobResponse → List String → String → Prog Exn W (List TableExportInfo × String)
  importFn : String → List String → String → Prog Exn W Unit
  progressMarkerPresent : String → Prog Exn W Bool
  cancelled : Prog Exn W Bool
  sleep : Nat → Prog Exn W Unit

/-- `marks` when a tracker and a run id are given.  The completed tables are a set,
in the order in which it is listed. -/
structure Request where
  maxRetries : Int
  initialExportTables : List String
  initialJobId : String
  completedTables : List String
  marks : Bool

structure Loop where
  imported : List String
  infoAll : List TableExportInfo
  exportTables : List String
  jobId : String
  needPost : Bool
  working : Option (List String)
  lastError : String
  response : Option ExportJobResponse

inductive Event where
  | polled (job : ExportJobResponse) (imported : List String)
  | importing (job : ExportJobResponse) (tables : List String)
  | loaded (job : ExportJobResponse) (tables : List String)
  | failed (e : Exn)
  | flushed (response : Option ExportJobResponse) (table : String)
  | imported (tables : List String)
  | slept (seconds : Nat)
  deriving DecidableEq

abbrev RState (W : Type) := Traced Loop W Event

abbrev RProg (W α : Type) := Prog Exn (RState W) α

structure RecoveryResult where
  imported : List String
  permanentlyFailed : List String
  tableExportInfo : List TableExportInfo
  jobId : String
  lastError : String
  deriving DecidableEq

/-- Append each table that is not there yet. -/
def adjoin (imported tables : List String) : List String :=
  tables.foldl (fun acc t => if t ∈ acc then acc else acc ++ [t]) imported

def presentIn (job : ExportJobResponse) (imported : List String) : List String :=
  job.tables.keys.filter fun t => t ∉ imported

/-- What is present and has not failed. -/
def readyIn (job : ExportJobResponse) (imported : List String) : List String :=
  let present := presentIn job imported
  let failed := (failedTables job).filter fun t => t ∈ present
  present.filter fun t => t ∉ failed

def post (stages : Stages W) : RProg W Unit := do
  let needPost ← read Loop.needPost
  let tables ← read Loop.exportTables
  if needPost then do
    let jobId ← outside (stages.exportFn tables)
    assign fun l => { l with jobId := jobId, needPost := false }
  else pure ()

/-- Get a job response and take its tables as the working set. -/
def pollJob (stages : Stages W) : RProg W ExportJobResponse := do
  let jobId ← read Loop.jobId
  let job ← outside (stages.pollFn jobId)
  let imported ← read Loop.imported
  note (.polled job imported)
  assign fun l => { l with working := some (presentIn job imported), response := some job }
  pure job

def load (stages : Stages W) (job : ExportJobResponse) (ready : List String) : RProg W Unit := do
  let jobId ← read Loop.jobId
  let (info, dir) ← outside (stages.downloadFn job ready jobId)
  note (.importing job ready)
  outside (stages.importFn jobId ready dir)
  note (.loaded job ready)
  let imported ← read Loop.imported
  note (.imported (adjoin imported ready))
  assign fun l => { l with
    imported := adjoin imported ready
    infoAll := l.infoAll ++ info
    working := l.working.map fun w => w.filter fun t => t ∉ ready }

/-- The rest of the working set is for a new job; `true` when there is none. -/
def remaining : RProg W Bool := do
  let left ← read fun l => l.working.getD []
  if left = [] then pure true
  else do
    assign fun l => { l with
      lastError := "error exporting tables: " ++ String.intercalate ", " left
      exportTables := left
      needPost := true }
    pure false

/-- The body of the `try`; `true` when the whole set is done. -/
def attempt (stages : Stages W) : RProg W Bool := do
  assign fun l => { l with response := none }
  post stages
  let job ← pollJob stages
  let ready ← read fun l => readyIn job l.imported
  if ready ≠ [] then load stages job ready else pure ()
  remaining

def scopeOf (req : Request) : Option (List String) → Option (List String)
  | some working => some working
  | none => if req.initialExportTables = [] then none else some req.initialExportTables

/-- The tables that have a progress marker. -/
def marked (present : String → Prog Exn W Bool) : List String → Prog Exn W (List String)
  | [] => pure []
  | t :: rest => do
    let found ← present t
    let more ← marked present rest
    pure (if found then t :: more else more)

/-- Tables that were flushed before the attempt failed count as imported. -/
def dropFlushed (stages : Stages W) (req : Request) :
    Option (List String) → RProg W (Option (List String))
  | none => pure none
  | some scope =>
    if req.marks then do
      let flushed ← outside (marked stages.progressMarkerPresent scope)
      let response ← read Loop.response
      each (fun t => note (.flushed response t)) flushed
      let imported ← read Loop.imported
      note (.imported (adjoin imported flushed))
      assign fun l => { l with imported := adjoin imported flushed }
      pure (some (scope.filter fun t => t ∉ flushed))
    else pure (some scope)

def Exn.urlsExpired : Exn → Bool
  | .downloadStage _ expired => expired
  | _ => false

def recover (stages : Stages W) (req : Request) (e : Exn) : RProg W Unit := do
  note (.failed e)
  let working ← read Loop.working
  let scope ← dropFlushed stages req (scopeOf req working)
  assign fun l => { l with
    lastError := e.str
    working := scope
    exportTables := scope.getD req.initialExportTables
    needPost := l.needPost || Exn.urlsExpired e }

def tryAttempt (stages : Stages W) (req : Request) : RProg W Bool :=
  tryExcept (attempt stages) fun e =>
    if isRecoverable e then do
      recover stages req e
      pure false
    else raise e

/-- One attempt; `true` when nothing is left. -/
def round (stages : Stages W) (req : Request) : RProg W Bool := do
  let done ← tryAttempt stages req
  let working ← read Loop.working
  pure (done || decide (working = some []))

def checkCancelled (stages : Stages W) : RProg W Unit := do
  let stop ← outside stages.cancelled
  if stop then raise .recoveryCancelled else pure ()

def backOff (stages : Stages W) (attempt : Nat) : RProg W Unit := do
  checkCancelled stages
  note (.slept (30 * 2 ^ attempt))
  outside (stages.sleep (30 * 2 ^ attempt))
  checkCancelled stages

/-- At most one attempt more than there are retries; `true` when they are used up. -/
def attempts (stages : Stages W) (req : Request) (done : Nat) : Nat → RProg W Bool
  | 0 => do
    let ended ← round stages req
    pure (!ended)
  | retries + 1 => do
    let ended ← round stages req
    if ended then pure false
    else do
      backOff stages done
      attempts stages req (done + 1) retries

def permanentlyFailed (req : Request) (exhausted : Bool) (working : Option (List String)) :
    List String :=
  if exhausted then
    match working with
    | some w => w
    | none => if req.initialExportTables = [] then ["*"] else req.initialExportTables
  else []

def Loop.initial (req : Request) : Loop where
  imported := req.completedTables.dedup
  infoAll := []
  exportTables := req.initialExportTables
  jobId := req.initialJobId
  needPost := decide (req.initialJobId = "")
  working := none
  lastError := ""
  response := none

def RState.initial (req : Request) (w : W) : RState W := ⟨Loop.initial req, w, []⟩

def runWithRecovery (stages : Stages W) (req : Request) : RProg W RecoveryResult := do
  let exhausted ← attempts stages req 0 req.maxRetries.toNat
  let l ← read id
  pure
    { imported := l.imported
      permanentlyFailed := permanentlyFailed req exhausted l.working
      tableExportInfo := l.infoAll
      jobId := l.jobId
      lastError := l.lastError }

/-- Stages in which everything succeeds and every job answers with `job`. -/
def Stages.serving (job : ExportJobResponse) : Stages Unit where
  exportFn _ := pure "job"
  pollFn _ := pure job
  downloadFn _ _ _ := pure ([], "dir")
  importFn _ _ _ := pure ()
  progressMarkerPresent _ := pure false
  cancelled := pure false
  sleep _ := pure ()

end Import
end Eds
