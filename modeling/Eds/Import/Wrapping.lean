import Eds.Import.Persisted
import Eds.Import.Budget
import Eds.Drivers.SqlImport

/-!
# What the retry decision sees of an exception

The loop classifies the exception that leaves a stage, not the one that was raised inside.
The SQL drivers turn what a query or a statement raises into a `ValueError`, which is never
retried; the download stage turns whatever a worker raises into a `DownloadStageError`,
which always is.  What is raised while a connection is opened or closed comes out as it is.

`watch` writes down what the calls to the outside raise, in a list beside the world.  The
exceptions of one attempt are its faults, in the order in which they were raised: cleaning
up after one fault may raise another, and each worker may raise one of its own.
-/

namespace Eds
namespace Import

open Effects Effects.Prog Effects.Traced Collections

variable {W : Type}

/-! ## The calls that raise -/

/-- `query` is for the name or the schema of the database, `statement` what the executor
executes, and `decoder` the closing of an export file. -/
inductive Place where
  | connect
  | query
  | statement
  | close
  | decoder
  | get
  | write
  deriving DecidableEq

structure Fault where
  place : Place
  exn : Exn
  deriving DecidableEq

abbrev Faulted (W : Type) := W × List Fault

def watch {α : Type} (place : Place) (p : Prog Exn W α) : Prog Exn (Faulted W) α :=
  handle (first p) fun e => do
    update fun w => (w.1, w.2 ++ [{ place := place, exn := e }])
    raise e

/-- What `_do_import_with_recovery` wires its stages from, for an importer that is a SQL
driver.  The download and the import of `services` give way to the workers and the driver. -/
structure Wiring (W : Type) where
  services : Services W
  network : Network W
  connection : Drivers.Connection W
  sources : Importer.Sources W
  config : Importer.ImporterConfig
  driver : Drivers.SqlDriver
  str : Json → String
  createTableSql : Schema → String

namespace Wiring

/-- `importer.run_import`, in the directory of the attempt. -/
def runImport (wiring : Wiring W) (tables : List String) (dir : String) : Prog Exn W Unit :=
  alone Drivers.ImportBuffer.empty (Drivers.runImport
    (wiring.connection.destination wiring.driver wiring.str wiring.createTableSql)
    { wiring.config with dataDir := dir, tables := tables } wiring.sources)

def wired (wiring : Wiring W) : Services W :=
  { wiring.services with
    files := { wiring.services.files with
      fetchAll := fetchAll wiring.network wiring.services.files.baseName }
    runImport := fun _ tables dir => wiring.runImport tables dir }

def watched (wiring : Wiring W) : Wiring (Faulted W) where
  services := wiring.services.beside (List Fault)
  network :=
    { get := fun url => watch .get (wiring.network.get url)
      write := fun file content => watch .write (wiring.network.write file content) }
  connection :=
    { dbName := fun w => wiring.connection.dbName w.1
      setDbName := fun name w => (wiring.connection.setDbName name w.1, w.2)
      connect := watch .connect wiring.connection.connect
      querySingleValue := watch .query wiring.connection.querySingleValue
      buildSchema := fun name => watch .query (wiring.connection.buildSchema name)
      exec := fun sql => watch .statement (wiring.connection.exec sql)
      close := watch .close wiring.connection.close }
  sources :=
    { getLatestSchema := first wiring.sources.getLatestSchema
      listDir := fun dir => first (wiring.sources.listDir dir)
      openDecoder := fun file => first (wiring.sources.openDecoder file)
      closeDecoder := fun file => watch .decoder (wiring.sources.closeDecoder file)
      validate := fun event => first (wiring.sources.validate event)
      setKey := fun key value => first (wiring.sources.setKey key value)
      parseCrdbExportFile := wiring.sources.parseCrdbExportFile
      eventId := wiring.sources.eventId
      json := wiring.sources.json }
  config := wiring.config
  driver := wiring.driver
  str := wiring.str
  createTableSql := wiring.createTableSql

/-- The stages of the loop, with the faults beside the world. -/
def stages (wiring : Wiring W) (fuel : Nat) : Stages (Faulted W) := wire wiring.watched.wired fuel

end Wiring

/-! ## The decision -/

/-- Whether the attempt is retried, by the faults in it: the last one decides, except that in
the download stage all of them do. -/
def verdict (faults : List Fault) : Bool :=
  match faults.getLast? with
  | none => false
  | some fault => match fault.place with
    | .connect | .close | .decoder => retried fault.exn
    | .query | .statement => false
    | .get | .write => faults.all fun f => f.exn.isException

/-- The attempt from `s` fails, and the loop goes on instead of raising the exception. -/
def Retries (stages : Stages W) (req : Request) (s : RState W) : Prop :=
  ∃ e rest, (tryAttempt stages req s).2.trace = (attempt stages s).2.trace ++ .failed e :: rest

/-! ## What a program that raises is to blame for -/

section Blame

variable {σ τ α β : Type} {faults : σ → List Fault}

theorem retried_base {e : Exn} (h : e.isException = false) : retried e = false := by
  rw [retried, h, Bool.false_and]

/-- The program returns only without a fault, and what it raises after faults is retried as
they say. -/
def Blames (faults : σ → List Fault) (p : Prog Exn σ α) : Prop :=
  ∀ s, wp p (fun _ t => faults t = faults s)
    (fun e t => faults t = faults s ∨
      ∃ new, new ≠ [] ∧ faults t = faults s ++ new ∧ verdict new = retried e) s

/-- The faults so far, of a program with variables and a trace. -/
abbrev worldFaults {L E : Type} (s : Traced L (Faulted W) E) : List Fault := s.world.2

/-- Steps without a fault. -/
def Clean (faults : σ → List Fault) (s t : σ) : Prop := faults t = faults s

theorem Clean.refl (s : σ) : Clean faults s s := rfl

theorem Clean.trans {s t u : σ} (h : Clean faults s t) (h' : Clean faults t u) : Clean faults s u :=
  Eq.trans h' h

theorem blames_clean {p : Prog Exn σ α} (h : Within (Clean faults) p) : Blames faults p :=
  fun s => wp_mono (h.wp s) (fun _ _ ht => ht) (fun _ _ ht => Or.inl ht)

theorem blames_pure (a : α) : Blames faults (pure a : Prog Exn σ α) := fun _ => rfl

theorem blames_raise (e : Exn) : Blames faults (raise e : Prog Exn σ α) := fun _ => Or.inl rfl

theorem blames_asks (f : σ → α) : Blames faults (asks f) := fun _ => rfl

theorem blames_update {f : σ → σ} (h : ∀ s, faults (f s) = faults s) :
    Blames faults (update f : Prog Exn σ Unit) := h

theorem blames_ofExcept (r : Except Exn α) : Blames faults (ofExcept r : Prog Exn σ α) := by
  cases r with
  | ok a => exact blames_pure a
  | error e => exact blames_raise e

theorem Blames.bind {p : Prog Exn σ α} {f : α → Prog Exn σ β} (hp : Blames faults p)
    (hf : ∀ a, Blames faults (f a)) : Blames faults (p >>= f) := by
  intro s
  rw [wp_bind]
  refine wp_post (hp s) fun a t ht => ?_
  refine wp_mono (hf a t) (fun _ u hu => Eq.trans hu ht) (fun e u hu => ?_)
  rw [ht] at hu
  exact hu

theorem blames_each {f : α → Prog Exn σ Unit} (hf : ∀ a, Blames faults (f a)) (l : List α) :
    Blames faults (each f l) := by
  induction l with
  | nil => exact blames_pure ()
  | cons a rest ih => exact (hf a).bind fun _ => ih

theorem blames_sumOver {f : α → Prog Exn σ Nat} (hf : ∀ a, Blames faults (f a)) (l : List α) :
    Blames faults (sumOver f l) := by
  induction l with
  | nil => exact blames_pure 0
  | cons a rest ih => exact (hf a).bind fun n => ih.bind fun total => blames_pure _

/-- The part of the state that a program works on. -/
theorem blames_on {get : σ → τ} {set : τ → σ → σ} {p : Prog Exn τ α} {inner : τ → List Fault}
    (hget : ∀ s, inner (get s) = faults s) (hset : ∀ t s, faults (set t s) = inner t)
    (hp : Blames inner p) : Blames faults (Prog.on get set p) := by
  intro s
  rw [wp_on]
  refine wp_mono (hp (get s)) (fun _ t ht => ?_) (fun e t ht => ?_)
  · rw [hset, ht, hget]
  · rw [hset, ← hget]
    exact ht

theorem blames_outside {L E : Type} {p : Prog Exn (Faulted W) α} (hp : Blames Prod.snd p) :
    Blames worldFaults (outside p : Prog Exn (Traced L (Faulted W) E) α) :=
  blames_on (fun _ => rfl) (fun _ _ => rfl) hp

theorem blames_embed {L E F : Type} {f : E → F} {p : Prog Exn (Traced L (Faulted W) E) α}
    (hp : Blames worldFaults p) :
    Blames worldFaults (embed f p : Prog Exn (Traced L (Faulted W) F) α) :=
  blames_on (fun _ => rfl) (fun _ _ => rfl) hp

theorem blames_alone {L E : Type} {vars : L} {p : Prog Exn (Traced L (Faulted W) E) α}
    (hp : Blames worldFaults p) : Blames Prod.snd (alone vars p) :=
  blames_on (fun _ => rfl) (fun _ _ => rfl) hp

theorem blames_note {L E : Type} (e : E) :
    Blames worldFaults (note e : Prog Exn (Traced L (Faulted W) E) Unit) := fun _ => rfl

theorem blames_read {L E : Type} (f : L → α) :
    Blames worldFaults (read f : Prog Exn (Traced L (Faulted W) E) α) := fun _ => rfl

theorem blames_assign {L E : Type} (f : L → L) :
    Blames worldFaults (assign f : Prog Exn (Traced L (Faulted W) E) Unit) := fun _ => rfl

/-! ### Calls that raise -/

theorem watch_spec {place : Place} {p : Prog Exn W α} {w : Faulted W} :
    wp (watch place p) (fun _ t => t.2 = w.2) (fun e t => t.2 = w.2 ++ [{ place := place, exn := e }])
      w := by
  rw [watch, wp_handle, first, wp_on]
  exact wp_any (fun _ _ => rfl) (fun _ _ => rfl)

def Place.bare : Place → Prop
  | .connect | .close | .decoder => True
  | .query | .statement | .get | .write => False

theorem verdict_bare {place : Place} (h : place.bare) (before : List Fault) (e : Exn) :
    verdict (before ++ [{ place := place, exn := e }]) = retried e := by
  rw [verdict, List.getLast?_concat]
  cases place with
  | connect | close | decoder => rfl
  | _ => exact h.elim

/-- One bare fault, if it raises. -/
def Releases (faults : σ → List Fault) (c : Prog Exn σ α) : Prop :=
  ∀ s, wp c (fun _ t => faults t = faults s)
    (fun e t => ∃ place : Place, place.bare ∧ faults t = faults s ++ [{ place := place, exn := e }]) s

theorem releases_watch (place : Place) (h : place.bare) (p : Prog Exn W α) :
    Releases Prod.snd (watch place p) :=
  fun _ => wp_mono watch_spec (fun _ _ ht => ht) (fun _ _ ht => ⟨place, h, ht⟩)

theorem releases_outside {L E : Type} {c : Prog Exn (Faulted W) α} (hc : Releases Prod.snd c) :
    Releases worldFaults (outside c : Prog Exn (Traced L (Faulted W) E) α) :=
  fun s => wp_outside_iff.mpr (hc s.world)

theorem Releases.blames {c : Prog Exn σ α} (hc : Releases faults c) : Blames faults c := by
  intro s
  refine wp_mono (hc s) (fun _ _ ht => ht) (fun e t ht => Or.inr ?_)
  obtain ⟨place, hplace, ht⟩ := ht
  exact ⟨_, List.cons_ne_nil _ _, ht, verdict_bare hplace [] e⟩

/-- After `p` has raised, the fault of the clean-up takes the place of its own. -/
theorem Blames.cleanUp {p : Prog Exn σ α} {c : Prog Exn σ Unit} (hp : Blames faults p)
    (hc : Releases faults c) (caught : Exn → Bool) :
    Blames faults (handle p fun e => if caught e then do c; raise e else raise e) := by
  intro s
  rw [wp_handle]
  refine wp_mono (hp s) (fun _ _ ht => ht) (fun e t ht => ?_)
  cases caught e with
  | false => exact ht
  | true =>
    rw [if_pos rfl, wp_bind]
    refine wp_mono (hc t) (fun _ u hu => ?_) (fun e' u hu => ?_)
    · show faults u = faults s ∨ _
      rw [hu]
      exact ht
    · obtain ⟨place, hplace, hu⟩ := hu
      rcases ht with ht | ⟨new, hnew, ht, _⟩
      · exact Or.inr ⟨_, List.cons_ne_nil _ _, by rw [hu, ht], verdict_bare hplace [] e'⟩
      · refine Or.inr ⟨new ++ [⟨place, e'⟩], by simp, ?_, verdict_bare hplace new e'⟩
        rw [hu, ht, List.append_assoc]

theorem Blames.ensure {p : Prog Exn σ α} {c : Prog Exn σ Unit} (hp : Blames faults p)
    (hc : Releases faults c) : Blames faults (Prog.ensure p c) := by
  have hhandle : Blames faults (handle p fun e => do c; raise e) := by
    have hall := hp.cleanUp hc fun _ => true
    simpa only [if_true] using hall
  exact hhandle.bind fun a => hc.blames.bind fun _ => blames_pure a

def Place.wrapped : Place → Prop
  | .query | .statement => True
  | .connect | .close | .decoder | .get | .write => False

theorem verdict_wrapped {place : Place} (h : place.wrapped) (e : Exn) :
    verdict [{ place := place, exn := e }] = false := by
  cases place with
  | query | statement => rfl
  | _ => exact h.elim

/-- The exception becomes a `ValueError`, or none that the loop catches. -/
theorem blames_wrapped {p : Prog Exn σ α} (place : Place) (hplace : place.wrapped)
    (hp : ∀ s, wp p (fun _ t => faults t = faults s)
      (fun e t => faults t = faults s ++ [{ place := place, exn := e }]) s) (msg : Exn → String) :
    Blames faults (tryExcept p fun e => raise (.valueError (msg e))) := by
  intro s
  refine wp_tryExcept (wp_mono (hp s) (fun _ _ ht => ht) (fun e t ht => ⟨fun _ => ?_, fun hbase => ?_⟩))
  · exact Or.inr ⟨_, List.cons_ne_nil _ _, ht, verdict_wrapped hplace e⟩
  · refine Or.inr ⟨_, List.cons_ne_nil _ _, ht, ?_⟩
    rw [verdict_wrapped hplace, retried_base hbase]

end Blame

/-! ## The import of a SQL driver -/

section SqlImport

open Drivers Importer

variable {wiring : Wiring W} {config : ImporterConfig}

def Wiring.dest (wiring : Wiring W) : Destination (Faulted W) :=
  wiring.watched.connection.destination wiring.driver wiring.str wiring.createTableSql

theorem clean_first {α : Type} (p : Prog Exn W α) :
    Within (Clean Prod.snd) (first p : Prog Exn (Faulted W) α) := fun _ => rfl

theorem clean_outside {L E α : Type} {p : Prog Exn (Faulted W) α} (hp : Within (Clean Prod.snd) p) :
    Within (Clean worldFaults) (outside p : Prog Exn (Traced L (Faulted W) E) α) :=
  fun s => hp s.world

theorem refreshSchema_blames : Blames Prod.snd wiring.watched.connection.refreshSchema := by
  have hlearn : Blames Prod.snd wiring.watched.connection.learnDbName := by
    refine (blames_asks _).bind fun known => ?_
    split
    · exact (blames_wrapped .query trivial (fun _ => watch_spec) _).bind fun name =>
        blames_update fun _ => rfl
    · exact blames_pure ()
  refine hlearn.bind fun _ => (blames_asks _).bind fun name => ?_
  exact blames_wrapped .query trivial (fun _ => watch_spec) _

theorem connectToDb_blames : Blames Prod.snd wiring.watched.connection.connectToDb := by
  have hconnect : Releases Prod.snd wiring.watched.connection.connect :=
    releases_watch .connect trivial _
  have hclose : Releases Prod.snd wiring.watched.connection.close :=
    releases_watch .close trivial _
  exact hconnect.blames.bind fun _ => refreshSchema_blames.cleanUp hclose Exn.isException

theorem executor_raises {texts : List String} (s : Traced ImportBuffer (Faulted W) ImportObs) :
    wp (executor wiring.dest config texts) (fun _ t => worldFaults t = worldFaults s)
      (fun e t => worldFaults t = worldFaults s ++ [{ place := .statement, exn := e }]) s := by
  rw [executor]
  by_cases hdry : config.dryRun = true
  · rw [if_pos hdry]
    rfl
  · have hspec : ∀ sql, wp (wiring.dest.exec sql) (fun _ w => w.2 = s.world.2)
        (fun e w => w.2 = s.world.2 ++ [⟨.statement, e⟩]) s.world := fun sql => watch_spec
    rw [if_neg hdry, wp_bind]
    exact wp_call (fun _ _ hw => wp_ok (hspec _) hw) (fun _ _ hw => wp_error (hspec _) hw)

theorem createDatasource_blames (schema : Dict String Schema) :
    Blames worldFaults (createDatasource wiring.dest config schema) := by
  refine blames_each (fun table => ?_) _
  unfold createTable
  split
  · exact blames_raise _
  · exact blames_wrapped .statement trivial executor_raises _

theorem executePending_blames : Blames worldFaults (executePending wiring.dest config) :=
  (blames_read _).bind fun _ => blames_wrapped .statement trivial executor_raises _

theorem flushImport_blames : Blames worldFaults (flushImport wiring.dest config) :=
  executePending_blames.bind fun _ => blames_assign _

theorem importEvent_blames (event : ImportedEvent) (data : Schema) :
    Blames worldFaults (importEvent wiring.dest config event data) := by
  refine (blames_ofExcept _).bind fun sql => (blames_assign _).bind fun _ => ?_
  refine (blames_read _).bind fun size => ?_
  split
  · exact flushImport_blames
  · exact blames_pure ()

theorem importCompleted_blames : Blames worldFaults (importCompleted wiring.dest config) := by
  refine (blames_read _).bind fun size => ?_
  split
  · exact executePending_blames
  · exact blames_pure ()

theorem flushImported_blames : Blames worldFaults (flushImported wiring.dest config) := by
  refine (blames_read _).bind fun size => ?_
  split
  · exact flushImport_blames
  · exact blames_pure ()

/-! ### The replay -/

theorem processRecord_blames (file table : String) (data : Schema) (unixNano : Int) (raw : String) :
    Blames worldFaults (processRecord config wiring.watched.sources (sqlHandler wiring.dest config)
      file table data unixNano raw) := by
  have hvalid : ∀ event, Within (Clean worldFaults)
      (validated config wiring.watched.sources event :
        RunProg ImportBuffer (Faulted W) ImportObs (Option ImportedEvent)) :=
    fun event => within_validated (clean_outside (clean_first _)) Clean.refl Clean.trans
  refine (blames_clean (within_exceptValueError Clean.refl)).bind fun _ => ?_
  refine (blames_clean (within_exceptValueError Clean.refl)).bind fun o => ?_
  refine (blames_clean (hvalid _)).bind fun r => ?_
  cases r with
  | none => exact (blames_note _).bind fun _ => blames_pure 0
  | some event =>
    refine (blames_note _).bind fun _ => ?_
    exact (blames_embed (importEvent_blames event data)).bind fun _ => blames_pure 1

theorem processFile_blames (schema : Dict String Schema) (f : ExportFile) :
    Blames worldFaults (processFile config wiring.watched.sources (sqlHandler wiring.dest config)
      schema f) := by
  have hrecords : ∀ data (lines : List Importer.Reading), Blames worldFaults
      (processRecords config wiring.watched.sources (sqlHandler wiring.dest config) f.file f.table
        data f.unixNano lines) := by
    intro data lines
    induction lines with
    | nil => exact blames_pure 0
    | cons line rest ih =>
      cases line with
      | cut => exact blames_pure 0
      | raised e => exact blames_raise e
      | line text =>
        rw [processRecords]
        split
        · exact ih
        · exact (processRecord_blames _ _ _ _ _).bind fun n => ih.bind fun count => blames_pure _
  unfold processFile
  split
  · exact blames_raise _
  · refine (blames_note _).bind fun _ => ?_
    have hopen : Within (Clean worldFaults) (exceptOsError
        (outside (wiring.watched.sources.openDecoder f.file) :
          RunProg ImportBuffer (Faulted W) ImportObs _)
        fun e => s!"unable to create JSON decoder for {f.file}: {e.str}") :=
      within_exceptOsError (clean_outside (clean_first _)) Clean.refl Clean.trans
    refine (blames_clean hopen).bind fun lines => (blames_note _).bind fun _ => ?_
    exact (hrecords _ lines).ensure (releases_outside (releases_watch .decoder trivial _))

theorem writeProgressMarker_blames (table : String) :
    Blames worldFaults (writeProgressMarker config wiring.watched.sources table :
      RunProg ImportBuffer (Faulted W) ImportObs Unit) := by
  unfold writeProgressMarker
  split
  · refine (blames_note _).bind fun _ => ?_
    exact blames_clean (clean_outside (clean_first _))
  · exact blames_pure ()

theorem replay_blames (schema : Dict String Schema) (files : List String) :
    Blames worldFaults (replay config wiring.watched.sources (sqlHandler wiring.dest config)
      schema files) := by
  have hfile : ∀ f, Blames worldFaults (processFile config wiring.watched.sources
      (sqlHandler wiring.dest config) schema f) := processFile_blames schema
  unfold replay
  split
  · refine Blames.bind (blames_sumOver (fun table => ?_) _) fun total => ?_
    · refine (blames_sumOver hfile _).bind fun total => ?_
      refine (blames_embed flushImported_blames).bind fun _ => ?_
      exact (writeProgressMarker_blames table).bind fun _ => blames_pure total
    · exact (blames_embed importCompleted_blames).bind fun _ => blames_pure total
  · refine (blames_sumOver hfile _).bind fun total => ?_
    exact (blames_embed importCompleted_blames).bind fun _ => blames_pure total

theorem runImport_blames (tables : List String) (dir : String) :
    Blames Prod.snd (wiring.watched.runImport tables dir) := by
  refine blames_alone ?_
  refine (blames_outside connectToDb_blames).bind fun _ => (blames_assign _).bind fun _ => ?_
  have hrun : ∀ config, Blames worldFaults
      (run config wiring.watched.sources (sqlHandler wiring.dest config)) := by
    intro config
    have hschema : Within (Clean worldFaults) (tryExcept
        (outside wiring.watched.sources.getLatestSchema :
          RunProg ImportBuffer (Faulted W) ImportObs _)
        fun e => raise (.exception s!"unable to get schema: {e.str}")) :=
      within_tryExcept (clean_outside (clean_first _)) (fun _ _ => rfl) Clean.refl Clean.trans
    refine (blames_clean hschema).bind fun schema => ?_
    have hprepare : Blames worldFaults (prepare config (sqlHandler wiring.dest config) schema) := by
      unfold prepare
      split
      · exact blames_pure ()
      · exact blames_embed (createDatasource_blames schema)
    refine hprepare.bind fun _ => ?_
    split
    · exact blames_pure ()
    · have hlist : Within (Clean worldFaults) (exceptOsError
          (outside (wiring.watched.sources.listDir config.dataDir) :
            RunProg ImportBuffer (Faulted W) ImportObs _)
          fun e => s!"unable to list files in directory: {e.str}") :=
        within_exceptOsError (clean_outside (clean_first _)) Clean.refl Clean.trans
      refine (blames_clean hlist).bind fun files => (blames_note _).bind fun _ => ?_
      exact (replay_blames schema files).bind fun _ => blames_pure ()
  exact (hrun _).ensure (releases_outside (releases_watch .close trivial _))

end SqlImport

/-! ## The download stage -/

section Download

variable {wiring : Wiring W} {w : Faulted W}

def Place.fetches : Place → Prop
  | .get | .write => True
  | .connect | .query | .statement | .close | .decoder => False

theorem verdict_fetches {new : List Fault} (hnew : new ≠ []) (hplaces : ∀ f ∈ new, f.place.fetches) :
    verdict new = new.all fun f => f.exn.isException := by
  have hlast : (new.getLast hnew).place.fetches := hplaces _ (List.getLast_mem hnew)
  rw [verdict, List.getLast?_eq_some_getLast hnew]
  dsimp only
  revert hlast
  cases (new.getLast hnew).place with
  | get | write => exact fun _ => rfl
  | _ => exact fun h => h.elim

theorem downloadFile_spec {baseName : String → String} {directory url : String} :
    wp (downloadFile wiring.watched.network baseName directory url) (fun _ t => t.2 = w.2)
      (fun e t => (t.2 = w.2 ∧ e.isException = true) ∨
        ∃ place : Place, place.fetches ∧ t.2 = w.2 ++ [{ place := place, exn := e }]) w := by
  rw [downloadFile, wp_bind]
  refine wp_mono (watch_spec (p := wiring.network.get url)) (fun resp w₁ h₁ => ?_)
    (fun e w₁ h₁ => Or.inr ⟨.get, trivial, h₁⟩)
  split
  · exact Or.inl ⟨h₁, rfl⟩
  · rw [wp_bind]
    refine wp_mono (watch_spec (p := wiring.network.write _ _)) (fun _ w₂ h₂ => h₂.trans h₁)
      (fun e w₂ h₂ => Or.inr ⟨.write, trivial, ?_⟩)
    rw [h₂, h₁]

/-- The faults of the workers are in their futures. -/
structure Tried (futs : List (Except Exn Nat)) (new : List Fault) : Prop where
  places : ∀ f ∈ new, f.place.fetches
  errors : ∀ e, .error e ∈ futs → e.isException = true ∨ ∃ f ∈ new, f.exn = e
  shown : ∀ f ∈ new, .error f.exn ∈ futs

theorem Tried.append {futs futs' : List (Except Exn Nat)} {new new' : List Fault}
    (h : Tried futs new) (h' : Tried futs' new') : Tried (futs ++ futs') (new ++ new') where
  places f hf := (List.mem_append.mp hf).elim (h.places f) (h'.places f)
  errors e he := by
    rcases List.mem_append.mp he with he | he
    · refine (h.errors e he).imp id fun hf => ?_
      obtain ⟨f, hf, hexn⟩ := hf
      exact ⟨f, List.mem_append_left _ hf, hexn⟩
    · refine (h'.errors e he).imp id fun hf => ?_
      obtain ⟨f, hf, hexn⟩ := hf
      exact ⟨f, List.mem_append_right _ hf, hexn⟩
  shown f hf := by
    rcases List.mem_append.mp hf with hf | hf
    · exact List.mem_append_left _ (h.shown f hf)
    · exact List.mem_append_right _ (h'.shown f hf)

/-- A worker without a fault returned, or raised an exception of its own. -/
theorem tried_clean {fut : Except Exn Nat} (h : ∀ e, fut = .error e → e.isException = true) :
    Tried [fut] [] where
  places _ hf := absurd hf List.not_mem_nil
  errors e he := Or.inl (h e (List.mem_singleton.mp he).symm)
  shown _ hf := absurd hf List.not_mem_nil

theorem tried_faulted {place : Place} {e : Exn} (hplace : place.fetches) :
    Tried [.error e] [⟨place, e⟩] where
  places f hf := by
    rw [List.mem_singleton.mp hf]
    exact hplace
  errors e' he := by
    cases List.mem_singleton.mp he
    exact Or.inr ⟨_, List.mem_singleton_self _, rfl⟩
  shown f hf := by
    rw [List.mem_singleton.mp hf]
    exact List.mem_singleton_self _

theorem future_spec {baseName : String → String} {directory url : String} :
    wp (future (downloadFile wiring.watched.network baseName directory url))
      (fun fut t => ∃ new, t.2 = w.2 ++ new ∧ Tried [fut] new) (fun _ _ => False) w := by
  have hfile : wp (downloadFile wiring.watched.network baseName directory url) _ _ w :=
    downloadFile_spec
  show ∃ new, (downloadFile wiring.watched.network baseName directory url w).2.2 = w.2 ++ new ∧
    Tried [(downloadFile wiring.watched.network baseName directory url w).1] new
  rcases wp_elim hfile with ⟨n, hn, hw⟩ | ⟨e, he, ⟨hw, hexn⟩ | ⟨place, hplace, hw⟩⟩
  · rw [hn, hw]
    exact ⟨[], (List.append_nil _).symm, tried_clean nofun⟩
  · rw [he, hw]
    refine ⟨[], (List.append_nil _).symm, tried_clean fun e' he' => ?_⟩
    cases he'
    exact hexn
  · rw [he, hw]
    exact ⟨_, rfl, tried_faulted hplace⟩

theorem futures_spec {baseName : String → String} {directory : String} (urls : List String) :
    wp (futures wiring.watched.network baseName directory urls)
      (fun futs t => ∃ new, t.2 = w.2 ++ new ∧ Tried futs new) (fun _ _ => False) w := by
  induction urls generalizing w with
  | nil =>
    exact ⟨[], (List.append_nil _).symm, fun _ h => absurd h List.not_mem_nil,
      fun _ h => absurd h List.not_mem_nil, fun _ h => absurd h List.not_mem_nil⟩
  | cons url rest ih =>
    rw [futures, wp_bind]
    refine wp_mono future_spec (fun fut w₁ h₁ => ?_) (fun _ _ h => h)
    rw [wp_bind]
    refine wp_mono ih (fun more w₂ h₂ => ?_) (fun _ _ h => h)
    obtain ⟨new₁, hw₁, htried₁⟩ := h₁
    obtain ⟨new₂, hw₂, htried₂⟩ := h₂
    rw [wp_pure]
    exact ⟨new₁ ++ new₂, by rw [hw₂, hw₁, List.append_assoc], htried₁.append htried₂⟩

theorem gather_ok {futs : List (Except Exn Nat)} {errors : List Exn} (h : gather futs = .ok errors)
    {e : Exn} (he : .error e ∈ futs) : e.isException = true ∧ errors ≠ [] := by
  induction futs generalizing errors with
  | nil => exact absurd he List.not_mem_nil
  | cons fut rest ih =>
    cases fut with
    | ok n =>
      rcases List.mem_cons.mp he with he | he
      · cases he
      · exact ih h he
    | error e' =>
      obtain ⟨hexn, more, hmore, rfl⟩ := gather_raised.mp h
      refine ⟨?_, List.cons_ne_nil _ _⟩
      rcases List.mem_cons.mp he with he | he
      · cases he
        exact hexn
      · exact (ih hmore he).1

/-- The exception of a download is an `Exception` when all its faults are. -/
def Unfetched (w t : Faulted W) (e : Exn) : Prop :=
  t.2 = w.2 ∨ ∃ new, new ≠ [] ∧ (∀ f ∈ new, f.place.fetches) ∧ t.2 = w.2 ++ new ∧
    e.isException = new.all fun f => f.exn.isException

theorem fetchAll_spec {baseName : String → String} {urls : List String} {directory : String} :
    wp (fetchAll wiring.watched.network baseName urls directory) (fun _ t => t.2 = w.2)
      (fun e t => Unfetched w t e) w := by
  rw [fetchAll, wp_bind]
  refine wp_mono (futures_spec urls) (fun futs t ht => ?_) (fun _ _ h => h.elim)
  obtain ⟨new, ht, htried⟩ := ht
  rw [wp_bind]
  cases hgather : gather futs with
  | error e =>
    obtain ⟨hbase, hmem⟩ := gather_error hgather
    rcases htried.errors e hmem with hexn | ⟨f, hf, rfl⟩
    · exact absurd (hexn.symm.trans hbase) nofun
    · refine Or.inr ⟨new, List.ne_nil_of_mem hf, htried.places, ht, ?_⟩
      rw [hbase, eq_comm, List.all_eq_false]
      exact ⟨f, hf, by rw [hbase]; exact Bool.false_ne_true⟩
  | ok errors =>
    rw [wp_ofExcept_ok]
    cases errors with
    | nil =>
      have hnone : new = [] := by
        refine List.eq_nil_iff_forall_not_mem.mpr fun f hf => ?_
        exact (gather_ok hgather (htried.shown f hf)).2 rfl
      rw [wp_pure, ht, hnone, List.append_nil]
    | cons e errors =>
      by_cases hnew : new = []
      · refine Or.inl ?_
        rw [ht, hnew, List.append_nil]
      · refine Or.inr ⟨new, hnew, htried.places, ht, ?_⟩
        rw [eq_comm]
        show (new.all fun f => f.exn.isException) = true
        rw [List.all_eq_true]
        exact fun f hf => (gather_ok hgather (htried.shown f hf)).1

theorem downloadFn_blames (job : ExportJobResponse) (tables : List String) (jobId : String) :
    Blames Prod.snd (downloadFn wiring.watched.wired job tables jobId) := by
  have hdata : ∀ dir (w : Faulted W),
      wp (bulkDownloadData wiring.watched.wired.files (subsetOf job tables) dir)
        (fun _ t => t.2 = w.2) (fun e t => Unfetched w t e) w := by
    intro dir w
    unfold bulkDownloadData
    split
    · exact Or.inl rfl
    · dsimp only
      split
      · rfl
      · rw [wp_bind]
        exact wp_post fetchAll_spec fun _ _ ht => ht
  refine (blames_clean (clean_first _)).bind fun dir => Blames.bind (fun w => ?_) fun infos => ?_
  · refine wp_tryExcept (wp_mono (hdata dir w) (fun _ _ ht => ht) (fun e t ht => ?_))
    rcases ht with ht | ⟨new, hnew, hplaces, ht, hexn⟩
    · exact ⟨fun _ => Or.inl ht, fun _ => Or.inl ht⟩
    · refine ⟨fun hcaught => Or.inr ⟨new, hnew, ht, ?_⟩, fun hbase => Or.inr ⟨new, hnew, ht, ?_⟩⟩
      · rw [verdict_fetches hnew hplaces, ← hexn, hcaught]
        rfl
      · rw [verdict_fetches hnew hplaces, ← hexn, retried_base hbase, hbase]
  · refine (blames_clean (clean_first _)).bind fun stop => ?_
    split
    · exact blames_raise _
    · exact blames_pure _

end Download

/-! ## The loop -/

section Attempt

variable {wiring : Wiring W} {fuel : Nat} {req : Request}

theorem pollFn_blames (jobId : String) :
    Blames Prod.snd (pollFn wiring.watched.wired fuel jobId) := by
  have hpoll : Within (Clean Prod.snd)
      (pollUntilComplete wiring.watched.wired.server jobId false fuel) :=
    pollUntilComplete_within Clean.refl Clean.trans (clean_first _) (clean_first _) (clean_first _)
      false fuel
  refine (blames_clean hpoll).bind fun job => ?_
  cases job with
  | none => exact blames_raise _
  | some job =>
    refine (blames_clean (clean_first _)).bind fun stop => ?_
    split
    · exact blames_raise _
    · exact blames_pure job

theorem attempt_blames (wiring : Wiring W) (fuel : Nat) :
    Blames worldFaults (attempt (wiring.stages fuel)) := by
  have hpost : Blames worldFaults (post (wiring.stages fuel)) := by
    refine (blames_read _).bind fun needPost => (blames_read _).bind fun tables => ?_
    split
    · refine Blames.bind (blames_clean (clean_outside (clean_first _))) fun jobId => blames_assign _
    · exact blames_pure ()
  have hpoll : Blames worldFaults (pollJob (wiring.stages fuel)) := by
    refine (blames_read _).bind fun jobId => (blames_outside (pollFn_blames jobId)).bind fun job => ?_
    refine (blames_read _).bind fun imported => (blames_note _).bind fun _ => ?_
    exact (blames_assign _).bind fun _ => blames_pure job
  have hload : ∀ job ready, Blames worldFaults (load (wiring.stages fuel) job ready) := by
    intro job ready
    refine (blames_read _).bind fun jobId => ?_
    refine (blames_outside (downloadFn_blames job ready jobId)).bind fun reply => ?_
    refine (blames_note _).bind fun _ => ?_
    refine (blames_outside (runImport_blames ready reply.2)).bind fun _ => ?_
    refine (blames_note _).bind fun _ => ?_
    refine (blames_read _).bind fun imported => (blames_note _).bind fun _ => blames_assign _
  have hremaining : Blames worldFaults (remaining : RProg (Faulted W) Bool) := by
    refine (blames_read _).bind fun left => ?_
    split
    · exact blames_pure true
    · exact (blames_assign _).bind fun _ => blames_pure false
  refine (blames_assign _).bind fun _ => hpost.bind fun _ => hpoll.bind fun job => ?_
  refine (blames_read _).bind fun ready => ?_
  split
  · exact (hload job ready).bind fun _ => hremaining
  · exact hremaining

/-- The first thing that `recover` does is to note the failure. -/
theorem recover_trace (stages : Stages W) (req : Request) (e : Exn) (s : RState W) :
    ∃ rest, (recover stages req e s).2.trace = s.trace ++ .failed e :: rest := by
  have hread : ∀ {α : Type} (f : Loop → α),
      Within (Adds fun _ => True) (read f : RProg W α) := fun _ s => Adds.refl s
  have hassign : ∀ f : Loop → Loop, Within (Adds fun _ => True) (assign f : RProg W Unit) :=
    fun _ s => Adds.refl s
  have hdrop : ∀ scope, Within (Adds fun _ => True) (dropFlushed stages req scope) := by
    intro scope
    cases scope with
    | none => exact within_pure Adds.refl none
    | some scope =>
      show Within _ (if req.marks then _ else _)
      by_cases hmarks : req.marks = true
      · rw [if_pos hmarks]
        refine (adds_outside _).bind (fun flushed => ?_) Adds.trans
        refine (hread _).bind (fun response => ?_) Adds.trans
        refine (within_each (fun t => adds_note trivial) Adds.refl Adds.trans _).bind (fun _ => ?_)
          Adds.trans
        refine (hread _).bind (fun imported => ?_) Adds.trans
        refine (adds_note trivial).bind (fun _ => ?_) Adds.trans
        exact (hassign _).bind (fun _ => within_pure Adds.refl _) Adds.trans
      · rw [if_neg hmarks]
        exact within_pure Adds.refl _
  have hrest : Within (Adds fun _ => True) (do
      let working ← read Loop.working
      let scope ← dropFlushed stages req (scopeOf req working)
      assign fun l => { l with
        lastError := e.str
        working := scope
        exportTables := scope.getD req.initialExportTables
        needPost := l.needPost || Exn.urlsExpired e } : RProg W Unit) :=
    (hread _).bind (fun working => (hdrop _).bind (fun scope => hassign _) Adds.trans) Adds.trans
  obtain ⟨rest, hrest, _⟩ := hrest (s.push (.failed e))
  refine ⟨rest, Eq.trans hrest ?_⟩
  rw [push_trace, List.append_assoc]
  rfl

/-- The attempt is retried by the exception that leaves it. -/
theorem retries_iff {stages : Stages W} {s t : RState W} {e : Exn}
    (h : attempt stages s = (.error e, t)) : Retries stages req s ↔ retried e = true := by
  have htry : tryAttempt stages req s = (if e.isException then
      (if isRecoverable e then do recover stages req e; pure false else raise e)
      else raise e : RProg W Bool) t := by
    show handle (attempt stages) _ s = _
    rw [handle, h]
  have hraised : (raise e : RProg W Bool) t = (.error e, t) := rfl
  have hstill : (tryAttempt stages req s).2 = t → ¬ Retries stages req s := by
    intro hsame hretries
    obtain ⟨e', rest, htrace⟩ := hretries
    rw [hsame, h] at htrace
    have hlen := congrArg List.length htrace
    simp at hlen
  by_cases hcaught : e.isException = true
  · by_cases hrecoverable : isRecoverable e = true
    · refine iff_of_true ?_ (by rw [retried, hcaught, hrecoverable]; rfl)
      rw [if_pos hcaught, if_pos hrecoverable] at htry
      obtain ⟨rest, hrest⟩ := recover_trace stages req e t
      have hwp : wp (recover stages req e >>= fun _ => (pure false : RProg W Bool))
          (fun _ u => u.trace = t.trace ++ .failed e :: rest)
          (fun _ u => u.trace = t.trace ++ .failed e :: rest) t := by
        have hrecover : Within (fun s u => s = t → u.trace = t.trace ++ .failed e :: rest)
            (recover stages req e) := fun s hs => hs ▸ hrest
        rw [wp_bind]
        exact wp_mono (hrecover.wp t) (fun _ _ hu => hu rfl) (fun _ _ hu => hu rfl)
      refine ⟨e, rest, ?_⟩
      rw [htry, h]
      exact wp_state (I := fun u : RState W => u.trace = t.trace ++ .failed e :: rest) hwp
    · rw [if_pos hcaught, if_neg hrecoverable, hraised] at htry
      refine iff_of_false (hstill (by rw [htry])) ?_
      rw [retried, hcaught, Bool.true_and]
      exact hrecoverable
  · rw [if_neg hcaught, hraised] at htry
    refine iff_of_false (hstill (by rw [htry])) ?_
    rw [retried, Bool.eq_false_of_not_eq_true hcaught, Bool.false_and]
    exact Bool.false_ne_true

/-- For an attempt from any state of the loop and each exception that the connection, the
executor or a download raises in it: the attempt is retried if and only if that exception is
recoverable, exactly when `verdict` says what `isRecoverable` says. -/
theorem retries_as_classified_iff (wiring : Wiring W) (fuel : Nat) (req : Request)
    (s : RState (Faulted W)) (faults : List Fault) (fault : Fault)
    (hfaults : (attempt (wiring.stages fuel) s).2.world.2 = s.world.2 ++ faults)
    (hmem : fault ∈ faults) :
    (Retries (wiring.stages fuel) req s ↔ isRecoverable fault.exn = true) ↔
      verdict faults = isRecoverable fault.exn := by
  have hfew : (attempt (wiring.stages fuel) s).2.world.2 ≠ s.world.2 := by
    rw [hfaults]
    intro hnone
    exact List.ne_nil_of_mem hmem (List.append_right_eq_self.mp hnone)
  rcases wp_elim (attempt_blames wiring fuel s) with
    ⟨_, _, hnone⟩ | ⟨e, he, hnone | ⟨new, _, hnew, hverdict⟩⟩
  · exact absurd hnone hfew
  · exact absurd hnone hfew
  · have hsame : new = faults := List.append_cancel_left (Eq.trans hnew.symm hfaults)
    rw [hsame] at hverdict
    rw [retries_iff (Prod.ext he rfl), ← hverdict, ← Bool.eq_iff_iff]

end Attempt

/-! ## A dropped connection and a full disk -/

def connectionReset : Exn :=
  .exception "consuming input failed: could not receive data from server: Connection reset by peer"

def diskFull : Exn := .osError (some 28) "[Errno 28] No space left on device"

/-- Everything succeeds, for a job whose only table is `a`. -/
def Wiring.serving : Wiring Unit where
  services := Services.serving .filed
  network :=
    { get := fun _ => pure { statusCode := 200, reason := "OK", content := [] }
      write := fun _ _ => pure () }
  connection :=
    { dbName := fun _ => "db"
      setDbName := fun _ w => w
      connect := pure ()
      querySingleValue := pure "db"
      buildSchema := fun _ => pure ()
      exec := fun _ => pure ()
      close := pure () }
  sources :=
    { getLatestSchema := pure ⟨[("a", ⟨Dict.empty, ["id"], "a", "v1"⟩)], by decide⟩
      listDir := fun _ => pure []
      openDecoder := fun _ => pure []
      closeDecoder := fun _ => pure ()
      validate := fun _ => pure (true, true, "")
      setKey := fun _ _ => pure ()
      parseCrdbExportFile := fun _ => none
      eventId := id
      json := { checkJson := fun _ => .ok (), loads := fun _ => .ok .null } }
  config :=
    { dataDir := "", dryRun := false, tables := [], single := false, schemaOnly := false
      noDelete := false, hasValidator := false, recoveryEnabled := true, runId := "run"
      hasTracker := true }
  driver := .postgresql
  str _ := ""
  createTableSql _ := "CREATE TABLE a (id TEXT)"

/-- The connection is dropped under the first statement. -/
def Wiring.dropped : Wiring Unit :=
  { Wiring.serving with
    connection := { Wiring.serving.connection with exec := fun _ => raise connectionReset } }

/-- The disk is full when a file is written. -/
def Wiring.full : Wiring Unit :=
  { Wiring.serving with
    network := { Wiring.serving.network with write := fun _ _ => raise diskFull } }

/-- The server refuses the connection. -/
def Wiring.refused : Wiring Unit :=
  { Wiring.serving with
    connection := { Wiring.serving.connection with connect := raise connectionReset } }

def fullImport : Request where
  maxRetries := 5
  initialExportTables := []
  initialJobId := ""
  completedTables := []
  marks := true

/-- The dropped connection ends the import, and the full disk is tried again. -/
theorem dropped_connection_not_retried :
    (isRecoverable connectionReset = true ∧
      (attempt (Wiring.dropped.stages 1) (RState.initial fullImport ((), []))).2.world.2 =
        [{ place := .statement, exn := connectionReset }] ∧
      ¬ Retries (Wiring.dropped.stages 1) fullImport (RState.initial fullImport ((), []))) ∧
    (isRecoverable diskFull = false ∧
      (attempt (Wiring.full.stages 1) (RState.initial fullImport ((), []))).2.world.2 =
        [{ place := .write, exn := diskFull }] ∧
      Retries (Wiring.full.stages 1) fullImport (RState.initial fullImport ((), []))) := by
  refine ⟨⟨by decide +kernel, by decide +kernel, fun h => ?_⟩,
    by decide +kernel, by decide +kernel, ?_⟩
  · obtain ⟨e, rest, htrace⟩ := h
    have hsame : (tryAttempt (Wiring.dropped.stages 1) fullImport
          (RState.initial fullImport ((), []))).2.trace =
        (attempt (Wiring.dropped.stages 1) (RState.initial fullImport ((), []))).2.trace := by
      decide +kernel
    rw [hsame] at htrace
    have hlen := congrArg List.length htrace
    simp at hlen
  · refine ⟨.downloadStage
      "error downloading file: [Errno 28] No space left on device" false, [.imported []], ?_⟩
    decide +kernel

theorem retries_as_classified_iff_refused :
    Retries (Wiring.refused.stages 1) fullImport (RState.initial fullImport ((), [])) ↔
      isRecoverable connectionReset = true :=
  (retries_as_classified_iff Wiring.refused 1 fullImport (RState.initial fullImport ((), []))
    [{ place := .connect, exn := connectionReset }] { place := .connect, exn := connectionReset }
    (by decide +kernel) (List.mem_singleton_self _)).mpr (by decide +kernel)

end Import
end Eds
