import Eds.Effects.Traced
import Eds.Collections.Dict
import Eds.Collections.Traverse
import Eds.Datetime

/-!
# The export client

A job response lists tables, each with a status, the files exported so far and a
cursor.  `pollUntilComplete` asks for it until it is complete (or, for the recovery
loop, until some table has failed), and `bulkDownloadData` fetches the files and
derives the cutoff of each table.

The server, the clock and the cancel flag are programs over a world `W`.  Polling
has no bound of its own; the model takes one and leaves with an exception outside
`Exception` when it is used up, which no caller handles.
-/

namespace Eds
namespace Import

open Effects Effects.Prog Collections

variable {W : Type}

structure ExportJobTableData where
  error : String
  status : String
  urls : List String
  cursor : String
  deriving DecidableEq

structure ExportJobResponse where
  completed : Bool
  tables : Dict String ExportJobTableData
  deriving DecidableEq

def failedTables (job : ExportJobResponse) : List String :=
  (job.tables.items.filter fun td => td.2.status = "Failed").map Prod.fst

/-- The status of a table in a response. -/
def ExportJobResponse.status (job : ExportJobResponse) (table : String) : Option String :=
  (job.tables.get? table).map ExportJobTableData.status

structure TableExportInfo where
  table : String
  timestamp : Int
  deriving DecidableEq

/-! ## Polling -/

/-- `fetch` is `_fetch_export_job`. -/
structure Server (W : Type) where
  fetch : String → Prog Exn W ExportJobResponse
  cancelled : Prog Exn W Bool
  sleep : Prog Exn W Unit

/-- Half-second sleeps, given up when the run is cancelled. -/
def snooze (server : Server W) : Nat → Prog Exn W Bool
  | 0 => pure false
  | n + 1 => do
    let stop ← server.cancelled
    if stop then pure true
    else do
      server.sleep
      snooze server n

/-- Wait five seconds; `true` when the run is cancelled. -/
def interval (server : Server W) : Prog Exn W Bool := do
  let stop ← server.cancelled
  if stop then pure true else snooze server 10

def checkFailed (job : ExportJobResponse) : Prog Exn W Unit :=
  match job.tables.items.find? fun td => td.2.status = "Failed" with
  | some (table, td) => raise (.exception s!"error exporting table {table}: {td.error}")
  | none => pure ()

/-- `none` when the run is cancelled. -/
def pollUntilComplete (server : Server W) (jobId : String) (raiseOnFailed : Bool) :
    Nat → Prog Exn W (Option ExportJobResponse)
  | 0 => raise (.base "out of polls")
  | n + 1 => do
    let job ← server.fetch jobId
    if raiseOnFailed then checkFailed job else pure ()
    if failedTables job ≠ [] ∨ job.completed then pure (some job)
    else do
      let stop ← interval server
      if stop then pure none else pollUntilComplete server jobId raiseOnFailed n

/-! ## Downloading -/

/-- `fileTime` is the time in the name of a file, in nanoseconds, as
`parse_crdb_export_file` reads it from the path of the URL; `cursorNanos` is `int` with
the text of its `ValueError`; `fetchAll` is the pool of ten workers, which downloads all
files into a directory or raises the first error. -/
structure Files (W : Type) where
  fileTime : String → Option Int
  cursorNanos : String → Except String Int
  baseName : String → String
  fetchAll : List String → String → Prog Exn W Unit

/-- The greatest time in the names of the files. -/
def finalNanos (files : Files W) (urls : List String) : Except Exn Int :=
  urls.foldlM (fun final url =>
    match files.fileTime url with
    | some t => .ok (max final t)
    | none => .error (.exception s!"unrecognized file path: {files.baseName url}")) 0

/-- The exact export time of a table: of its files, or its cursor when it has none. -/
def exportNanos (files : Files W) (td : ExportJobTableData) : Except Exn Int :=
  if td.urls = [] then
    match files.cursorNanos td.cursor with
    | .ok t => .ok t
    | .error msg => .error (.exception s!"error parsing timestamp value: {td.cursor}. {msg}")
  else finalNanos files td.urls

def tableInfo (files : Files W) (entry : String × ExportJobTableData) :
    Except Exn TableExportInfo := do
  let nanos ← exportNanos files entry.2
  let timestamp ← nanosToDt nanos
  pure { table := entry.1, timestamp := timestamp }

def bulkDownloadData (files : Files W) (data : List (String × ExportJobTableData))
    (directory : String) : Prog Exn W (List TableExportInfo) :=
  match data.mapM (tableInfo files) with
  | .error e => raise e
  | .ok tables =>
    let downloads := data.flatMap fun entry => entry.2.urls
    -- Without any file the entries gathered so far are dropped.
    if downloads = [] then pure []
    else do
      files.fetchAll downloads directory
      pure tables

/-! ## The pool of workers -/

structure Response where
  statusCode : Int
  reason : String
  content : List UInt8

/-- `get` is the bare request for a file, and `write` opens a file and writes it. -/
structure Network (W : Type) where
  get : String → Prog Exn W Response
  write : String → List UInt8 → Prog Exn W Unit

/-- The number of bytes. -/
def downloadFile (network : Network W) (baseName : String → String) (directory url : String) :
    Prog Exn W Nat := do
  let resp ← network.get url
  if resp.statusCode ≠ 200 then
    raise (.exception s!"error fetching data: {resp.statusCode} {resp.reason}")
  else do
    network.write (directory ++ "/" ++ baseName url) resp.content
    pure resp.content.length

/-- A future that is done: what the worker returned or raised. -/
def future {α : Type} (p : Prog Exn W α) : Prog Exn W (Except Exn α) := fun w => (.ok (p w).1, (p w).2)

/-- Every file is tried, also after one has failed. -/
def futures (network : Network W) (baseName : String → String) (directory : String) :
    List String → Prog Exn W (List (Except Exn Nat))
  | [] => pure []
  | url :: rest => do
    let fut ← future (downloadFile network baseName directory url)
    let more ← futures network baseName directory rest
    pure (fut :: more)

/-- The errors of the futures, in their order; what is no `Exception` is raised again. -/
def gather : List (Except Exn Nat) → Except Exn (List Exn)
  | [] => .ok []
  | .ok _ :: rest => gather rest
  | .error e :: rest => if e.isException then do let errors ← gather rest; pure (e :: errors) else .error e

/-- The workers of `bulk_download_data`, one file after the other. -/
def fetchAll (network : Network W) (baseName : String → String) (urls : List String)
    (directory : String) : Prog Exn W Unit := do
  let futs ← futures network baseName directory urls
  let errors ← ofExcept (gather futs)
  match errors with
  | [] => pure ()
  | e :: _ => raise (.exception s!"error downloading file: {e.str}")

/-! ## The errors of the pool -/

theorem gather_raised {e : Exn} {rest : List (Except Exn Nat)} {errors : List Exn} :
    gather (.error e :: rest) = .ok errors ↔
      e.isException = true ∧ ∃ more, gather rest = .ok more ∧ errors = e :: more := by
  rw [gather]
  split
  · next hexn =>
    rw [bind_eq_ok]
    constructor
    · rintro ⟨more, hmore, h⟩
      cases h
      exact ⟨hexn, more, hmore, rfl⟩
    · rintro ⟨-, more, hmore, rfl⟩
      exact ⟨more, hmore, rfl⟩
  · next hbase => exact ⟨nofun, fun h => absurd h.1 hbase⟩

theorem gather_error {futs : List (Except Exn Nat)} {e : Exn} (h : gather futs = .error e) :
    e.isException = false ∧ .error e ∈ futs := by
  induction futs with
  | nil => cases h
  | cons fut rest ih =>
    cases fut with
    | ok n => exact ⟨(ih h).1, List.mem_cons_of_mem _ (ih h).2⟩
    | error e' =>
      rw [gather] at h
      split at h
      · rcases bind_eq_error.mp h with hrest | ⟨more, -, hpure⟩
        · exact ⟨(ih hrest).1, List.mem_cons_of_mem _ (ih hrest).2⟩
        · cases hpure
      · next hexn =>
        cases h
        exact ⟨Bool.eq_false_of_not_eq_true hexn, List.mem_cons_self⟩

/-! ## Frames and replies -/

section Replies

variable {R : W → W → Prop} {server : Server W} {jobId : String}

/-- Polling does to the world what its calls do. -/
theorem pollUntilComplete_within (hrefl : ∀ w, R w w) (htrans : ∀ {u v w}, R u v → R v w → R u w)
    (hfetch : Within R (server.fetch jobId)) (hcancelled : Within R server.cancelled)
    (hsleep : Within R server.sleep) (raiseOnFailed : Bool) (polls : Nat) :
    Within R (pollUntilComplete server jobId raiseOnFailed polls) := by
  have hsnooze : ∀ n, Within R (snooze server n) := by
    intro n
    induction n with
    | zero => exact within_pure hrefl false
    | succ n ih =>
      refine hcancelled.bind (fun stop => ?_) htrans
      split
      · exact within_pure hrefl true
      · exact hsleep.bind (fun _ => ih) htrans
  have hinterval : Within R (interval server) := by
    refine hcancelled.bind (fun stop => ?_) htrans
    split
    · exact within_pure hrefl true
    · exact hsnooze 10
  have hcheck : ∀ job, Within R (checkFailed job : Prog Exn W Unit) := by
    intro job
    unfold checkFailed
    split
    · exact within_raise hrefl _
    · exact within_pure hrefl ()
  induction polls with
  | zero => exact within_raise hrefl _
  | succ polls ih =>
    have hrest : ∀ job : ExportJobResponse, Within R (do
        if failedTables job ≠ [] ∨ job.completed then pure (some job)
        else do
          let stop ← interval server
          if stop then pure none else pollUntilComplete server jobId raiseOnFailed polls) := by
      intro job
      split
      · exact within_pure hrefl (some job)
      · refine hinterval.bind (fun stop => ?_) htrans
        split
        · exact within_pure hrefl none
        · exact ih
    refine hfetch.bind (fun job => ?_) htrans
    cases raiseOnFailed with
    | true => exact (hcheck job).bind (fun _ => hrest job) htrans
    | false => exact hrest job

/-- The response returned is one that was fetched. -/
theorem pollUntilComplete_returns {P : ExportJobResponse → Prop} (hfetch : Returns (server.fetch jobId) P)
    (raiseOnFailed : Bool) (polls : Nat) :
    Returns (pollUntilComplete server jobId raiseOnFailed polls) fun r => ∀ job, r = some job → P job := by
  induction polls with
  | zero => exact returns_raise _
  | succ polls ih =>
    refine hfetch.bind fun job hjob => ?_
    have hrest : Returns (do
        if failedTables job ≠ [] ∨ job.completed then pure (some job)
        else do
          let stop ← interval server
          if stop then pure none else pollUntilComplete server jobId raiseOnFailed polls)
        fun r => ∀ job, r = some job → P job := by
      split
      · exact returns_pure fun _ hsame => Option.some.inj hsame ▸ hjob
      · refine (returns_any _).bind fun stop _ => ?_
        split
        · exact returns_pure nofun
        · exact ih
    cases raiseOnFailed with
    | true => exact (returns_any (checkFailed job)).bind fun _ _ => hrest
    | false => exact hrest

theorem bulkDownloadData_within {files : Files W} (hrefl : ∀ w, R w w)
    (htrans : ∀ {u v w}, R u v → R v w → R u w) (hfetch : ∀ urls dir, Within R (files.fetchAll urls dir))
    (data : List (String × ExportJobTableData)) (dir : String) :
    Within R (bulkDownloadData files data dir) := by
  unfold bulkDownloadData
  split
  · exact within_raise hrefl _
  · dsimp only
    split
    · exact within_pure hrefl []
    · exact (hfetch _ dir).bind (fun _ => within_pure hrefl _) htrans

end Replies

end Import
end Eds
