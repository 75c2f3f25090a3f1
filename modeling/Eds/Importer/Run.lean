import Eds.Effects.Traced
import Eds.Collections.Collapse
import Eds.Importer.Records

/-!
# The replay of an export

`run` replays the files of an export directory as insert events into the import
handler of a driver.  Without recovery it takes the files as they are listed; with
recovery it takes them table by table, and records in the tracker that a table is
done.

The registry, the directory, the files, the validator and the tracker are a world
`W` of which nothing is known, and the handler has variables `H` and a trace of its
own.  The trace of a run records what it listed and opened, which records it
rejected and which it offered, and each key it wrote, at the moment of the call: a
call that raises may have stored the key.
-/

namespace Eds
namespace Importer

open Effects Effects.Prog Effects.Traced Collections

variable {H W E : Type}

/-! ## What a run is given -/

/-- `hasValidator` and `hasTracker` say that the two are not `None`. -/
structure ImporterConfig where
  dataDir : String
  dryRun : Bool
  tables : List String
  single : Bool
  schemaOnly : Bool
  noDelete : Bool
  hasValidator : Bool
  recoveryEnabled : Bool
  runId : String
  hasTracker : Bool

/-- `parseCrdbExportFile` is the table and the time in a file name, if it is one of an
export; `eventId` is the hash of the base name. -/
structure Sources (W : Type) where
  getLatestSchema : Prog Exn W (Dict String Schema)
  listDir : String → Prog Exn W (List String)
  openDecoder : String → Prog Exn W (List Reading)
  closeDecoder : String → Prog Exn W Unit
  validate : ImportedEvent → Prog Exn W (Bool × Bool × String)
  setKey : String → String → Prog Exn W Unit
  parseCrdbExportFile : String → Option (String × Int)
  eventId : String → String
  json : JsonLib

/-- `flushImported` when the handler is an `ImportFlusher`. -/
structure Handler (H W E : Type) where
  createDatasource : Dict String Schema → Prog Exn (Traced H W E) Unit
  importEvent : ImportedEvent → Schema → Prog Exn (Traced H W E) Unit
  importCompleted : Prog Exn (Traced H W E) Unit
  flushImported : Option (Prog Exn (Traced H W E) Unit)

inductive Obs (E : Type) where
  | listed (schema : Dict String Schema) (files : List String)
  | processing (file table : String) (unixNano : Int)
  | opened (file : String) (lines : List Reading)
  | rejected (file record : String)
  | offered (file record : String)
  | setKey (key : String)
  | handler (o : E)
  deriving DecidableEq

abbrev RunState (H W E : Type) := Traced H W (Obs E)

abbrev RunProg (H W E α : Type) := Prog Exn (RunState H W E) α

/-- `except OSError`: the builtin class with its subclasses, of which the two of
`requests` are some. -/
def isOsError : Exn → Bool
  | .osError _ _ | .permissionError _ | .connectionError _ | .timeoutError _ => true
  | .requestsTransport _ => true
  | _ => false

def exceptOsError {α : Type} (p : RunProg H W E α) (msg : Exn → String) : RunProg H W E α :=
  handle p fun e => if isOsError e then raise (.exception (msg e)) else raise e

/-- `except ValueError` around a call that only computes. -/
def exceptValueError {α : Type} (r : Except Exn α) (msg : String → String) : RunProg H W E α :=
  match r with
  | .ok a => pure a
  | .error (.valueError m) => raise (.exception (msg m))
  | .error e => raise e

section

variable (config : ImporterConfig) (sources : Sources W) (handler : Handler H W E)

/-! ## One file -/

/-- The event to import, or `none` for one that is skipped. -/
def validated (event : ImportedEvent) : RunProg H W E (Option ImportedEvent) :=
  if config.hasValidator then
    handle
      (do
        let (found, valid, path) ← outside (sources.validate event)
        if !found || !valid then pure none
        else if path = "" then pure (some event)
        else pure (some { event with schemaValidatedPath := some path }))
      fun e => match e with
        | .schemaValidation _ => pure none
        | e => if e.isException then raise (.exception s!"error validating schema: {e.str}") else raise e
  else pure (some event)

/-- Import one record; the number of events it makes.  The primary key is looked up
before the object is, but a record without an object fails either way. -/
def processRecord (file table : String) (data : Schema) (unixNano : Int) (raw : String) :
    RunProg H W E Nat := do
  exceptValueError (sources.json.checkJson raw) fun m => s!"unable to decode JSON: {m}"
  let o ← exceptValueError (getObject sources.json raw) fun m => s!"unable to get object: {m}"
  let event := syntheticEvent sources.json (sources.eventId file) table data unixNano raw o
  match ← validated config sources event with
  | none => do
    note (.rejected file raw)
    pure 0
  | some event => do
    note (.offered file raw)
    embed .handler (handler.importEvent event data)
    pure 1

/-- The loop over the lines.  A read that fails ends it like the end of the file. -/
def processRecords (file table : String) (data : Schema) (unixNano : Int) :
    List Reading → RunProg H W E Nat
  | [] => pure 0
  | .cut :: _ => pure 0
  | .raised e :: _ => raise e
  | .line text :: rest =>
    if strip text = "" then processRecords file table data unixNano rest
    else do
      let n ← processRecord config sources handler file table data unixNano (strip text)
      let count ← processRecords file table data unixNano rest
      pure (n + count)

structure ExportFile where
  file : String
  table : String
  unixNano : Int

def processFile (schema : Dict String Schema) (f : ExportFile) : RunProg H W E Nat :=
  match schema.get? f.table with
  | none => raise (.exception
      s!"unexpected table ({f.table}) not found in schema but in import directory: {f.file}")
  | some data => do
    note (.processing f.file f.table f.unixNano)
    let lines ← exceptOsError (outside (sources.openDecoder f.file))
      fun e => s!"unable to create JSON decoder for {f.file}: {e.str}"
    note (.opened f.file lines)
    ensure (processRecords config sources handler f.file f.table data f.unixNano lines)
      (outside (sources.closeDecoder f.file))

/-! ## The two replays -/

/-- The files of the configured tables, as they are listed. -/
def exportFiles (files : List String) : List ExportFile :=
  files.filterMap fun file =>
    match sources.parseCrdbExportFile file with
    | none => none
    | some (table, unixNano) =>
      if table ∈ config.tables then some ⟨file, table, unixNano⟩ else none

def replayInOrder (schema : Dict String Schema) (files : List String) : RunProg H W E Nat := do
  let total ← sumOver (processFile config sources handler schema) (exportFiles config sources files)
  embed .handler handler.importCompleted
  pure total

def progressKey (runId table : String) : String := s!"import-progress:{runId}:{table}"

def writeProgressMarker (table : String) : RunProg H W E Unit :=
  if config.hasTracker && config.runId ≠ "" then do
    note (.setKey (progressKey config.runId table))
    outside (sources.setKey (progressKey config.runId table) "1")
  else pure ()

/-- The tables in the order of their first files, then those without a file. -/
def orderedTables (groups : List (String × List ExportFile)) : List String :=
  groups.map Prod.fst ++ config.tables.filter fun t => t ∉ groups.map Prod.fst

/-- The flush of a table comes before its marker. -/
def importTable (schema : Dict String Schema) (groups : List (String × List ExportFile))
    (table : String) : RunProg H W E Nat := do
  let total ← sumOver (processFile config sources handler schema) (groupOf table groups)
  match handler.flushImported with
  | none => pure total
  | some flush => do
    embed .handler flush
    writeProgressMarker config sources table
    pure total

/-- Without a flush per table the markers wait for the end of the run. -/
def runRecovery (schema : Dict String Schema) (files : List String) : RunProg H W E Nat := do
  let groups := groupBy ExportFile.table (exportFiles config sources files)
  let total ← sumOver (importTable config sources handler schema groups) (orderedTables config groups)
  embed .handler handler.importCompleted
  match handler.flushImported with
  | none => do
    each (writeProgressMarker config sources) (orderedTables config groups)
    pure total
  | some _ => pure total

def replay (schema : Dict String Schema) (files : List String) : RunProg H W E Nat :=
  if config.recoveryEnabled then runRecovery config sources handler schema files
  else replayInOrder config sources handler schema files

def prepare (schema : Dict String Schema) : RunProg H W E Unit :=
  if config.noDelete then pure () else embed .handler (handler.createDatasource schema)

/-- The number of records goes to the log. -/
def run : RunProg H W E Unit := do
  let schema ← tryExcept (outside sources.getLatestSchema)
    fun e => raise (.exception s!"unable to get schema: {e.str}")
  prepare config handler schema
  if config.schemaOnly then pure ()
  else do
    let files ← exceptOsError (outside (sources.listDir config.dataDir))
      fun e => s!"unable to list files in directory: {e.str}"
    note (.listed schema files)
    let _ ← replay config sources handler schema files
    pure ()

end

/-! ## Frames -/

section Frames

variable {R : RunState H W E → RunState H W E → Prop} {α : Type} {config : ImporterConfig}
  {sources : Sources W} {s : RunState H W E}

theorem within_exceptOsError {p : RunProg H W E α} {msg : Exn → String} (hp : Within R p)
    (hrefl : ∀ s, R s s) (htrans : ∀ {s t u}, R s t → R t u → R s u) :
    Within R (exceptOsError p msg) := by
  refine hp.handle (fun e => ?_) htrans
  cases isOsError e with
  | false => exact within_raise hrefl e
  | true => exact within_raise hrefl _

/-- The state is as before; a value that is returned is the one computed. -/
theorem exceptValueError_spec {r : Except Exn α} {msg : String → String} :
    wp (exceptValueError r msg : RunProg H W E α)
      (fun a t => t = s ∧ r = .ok a) (fun _ t => t = s) s := by
  cases r with
  | ok a => exact ⟨rfl, rfl⟩
  | error e => cases e <;> rfl

theorem within_exceptValueError {r : Except Exn α} {msg : String → String} (hrefl : ∀ s, R s s) :
    Within R (exceptValueError r msg : RunProg H W E α) := by
  intro s
  refine wp_state (wp_mono exceptValueError_spec (fun _ t h => ?_) (fun _ t h => ?_))
  · rw [h.1]
    exact hrefl s
  · rw [h]
    exact hrefl s

theorem within_validated {event : ImportedEvent}
    (hout : Within R (outside (sources.validate event) : RunProg H W E _))
    (hrefl : ∀ s, R s s) (htrans : ∀ {s t u}, R s t → R t u → R s u) :
    Within R (validated config sources event : RunProg H W E (Option ImportedEvent)) := by
  rw [validated]
  cases config.hasValidator with
  | false => exact within_pure hrefl _
  | true =>
    refine Within.handle (hout.bind (fun verdict => ?_) htrans) (fun e => ?_) htrans
    · obtain ⟨found, valid, path⟩ := verdict
      dsimp only
      split
      · exact within_pure hrefl _
      · split
        · exact within_pure hrefl _
        · exact within_pure hrefl _
    · split
      · exact within_pure hrefl _
      · split
        · exact within_raise hrefl _
        · exact within_raise hrefl _

/-- Validation leaves the table and the object of an event alone. -/
theorem validated_event {event : ImportedEvent} :
    wp (validated config sources event : RunProg H W E (Option ImportedEvent))
      (fun r _ => ∀ event' ∈ r, event'.table = event.table ∧ event'.object = event.object)
      (fun _ _ => True) s := by
  have hnone : ∀ event' ∈ (none : Option ImportedEvent),
      event'.table = event.table ∧ event'.object = event.object := fun _ h => by cases h
  rw [validated]
  cases config.hasValidator with
  | false =>
    intro event' h
    cases h
    exact ⟨rfl, rfl⟩
  | true =>
    refine wp_handle.mpr (wp_bind.mpr (wp_outside (fun verdict w _ => ?_) (fun e w _ => ?_)))
    · obtain ⟨found, valid, path⟩ := verdict
      dsimp only
      split
      · exact hnone
      · split
        · intro event' h
          cases h
          exact ⟨rfl, rfl⟩
        · intro event' h
          cases h
          exact ⟨rfl, rfl⟩
    · split
      · exact hnone
      · split
        · exact trivial
        · exact trivial

end Frames

end Importer
end Eds
