import Eds.Importer.Resume

/-!
# The replay by table

The replay with recovery takes the files table by table and the other one as they are
listed.  Both process the same files, and each table's files in the same order.  The
first also writes one marker for each configured table, behind the last event of the
table.

The handler may be of either kind: with a flush per table each marker follows its
table, and without one they all follow the end of the import.
-/

namespace Eds
namespace Importer

open Effects Effects.Prog Effects.Traced Collections

variable {H W E : Type}

/-! ## What a trace says -/

/-- The calls of `process_file`. -/
def processedFiles (t : List (Obs E)) : List ExportFile :=
  t.filterMap fun o => match o with
    | .processing file table unixNano => some ⟨file, table, unixNano⟩
    | _ => none

/-- A call of `process_file`, or a record offered, for the table. -/
def EventOf (sources : Sources W) (table : String) : Obs E → Prop
  | .processing _ table' _ => table' = table
  | .offered file _ => ∃ unixNano, sources.parseCrdbExportFile file = some (table, unixNano)
  | _ => False

/-- What the trace shows of the work on one table, markers apart. -/
def WorkOn (sources : Sources W) (table : String) : Obs E → Prop
  | .processing _ table' _ => table' = table
  | .opened file _ | .rejected file _ | .offered file _ =>
    ∃ unixNano, sources.parseCrdbExportFile file = some (table, unixNano)
  | .handler _ => True
  | .listed _ _ | .setKey _ => False

/-- The same without a call of `process_file`. -/
def Inside (sources : Sources W) (table : String) : Obs E → Prop
  | .processing _ _ _ => False
  | o => WorkOn sources table o

/-- The values that are not the handler's do not change while a run goes on. -/
structure Steady (sources : Sources W) : Prop where
  openDecoder : ∀ file, ∃ lines, Returns (sources.openDecoder file) fun r => r = lines
  validate : ∀ event, ∃ r, ∀ w, (sources.validate event w).1 = r

section Traces

variable {sources : Sources W} {table : String} {o : Obs E}

theorem Inside.workOn (h : Inside sources table o) : WorkOn sources table o := by
  cases o with
  | processing file table' unixNano => exact h.elim
  | _ => exact h

theorem EventOf.unique {table' : String} (h : WorkOn sources table o) (h' : EventOf sources table' o) :
    table' = table := by
  cases o with
  | processing file table'' unixNano => exact h'.symm.trans h
  | offered file raw =>
    obtain ⟨n, hn⟩ := h
    obtain ⟨n', hn'⟩ := h'
    rw [hn] at hn'
    exact (congrArg Prod.fst (Option.some.inj hn')).symm
  | _ => exact h'.elim

theorem processedFiles_append (t u : List (Obs E)) :
    processedFiles (t ++ u) = processedFiles t ++ processedFiles u := List.filterMap_append

theorem processedFiles_handler (t : List E) : processedFiles (t.map Obs.handler) = [] := by
  refine List.filterMap_eq_nil_iff.mpr fun o ho => ?_
  obtain ⟨b, _, rfl⟩ := List.mem_map.mp ho
  rfl

theorem processedFiles_inside {es : List (Obs E)} (hes : ∀ o ∈ es, Inside sources table o) :
    processedFiles es = [] := by
  refine List.filterMap_eq_nil_iff.mpr fun o ho => ?_
  have hinside := hes o ho
  cases o with
  | processing file table' unixNano => exact hinside.elim
  | _ => rfl

theorem writtenKeys_append (t u : List (Obs E)) :
    writtenKeys (t ++ u) = writtenKeys t ++ writtenKeys u := List.filterMap_append

end Traces

/-! ## One file and one table -/

section Files

variable {config : ImporterConfig} {sources : Sources W} {handler : Handler H W E}
  {schema : Dict String Schema} {table : String} {s : RunState H W E}

theorem inside_processRecord {file : String} {data : Schema} {unixNano : Int} {raw : String}
    (hparse : sources.parseCrdbExportFile file = some (table, unixNano)) :
    Within (Adds (Inside sources table))
      (processRecord config sources handler file table data unixNano raw) := by
  rw [processRecord]
  refine (within_exceptValueError Adds.refl).bind (fun _ => ?_) Adds.trans
  refine (within_exceptValueError Adds.refl).bind (fun o => ?_) Adds.trans
  refine (within_validated (adds_outside _) Adds.refl Adds.trans).bind (fun r => ?_) Adds.trans
  cases r with
  | none => exact (adds_note ⟨_, hparse⟩).bind (fun _ => within_pure Adds.refl 0) Adds.trans
  | some event =>
    refine (adds_note ⟨_, hparse⟩).bind (fun _ => ?_) Adds.trans
    exact (adds_embed (fun _ => trivial) _).bind (fun _ => within_pure Adds.refl 1) Adds.trans

theorem inside_processRecords {file : String} {data : Schema} {unixNano : Int}
    (hparse : sources.parseCrdbExportFile file = some (table, unixNano)) (lines : List Reading) :
    Within (Adds (Inside sources table))
      (processRecords config sources handler file table data unixNano lines) := by
  induction lines with
  | nil => exact within_pure Adds.refl 0
  | cons reading rest ih =>
    cases reading with
    | cut => exact within_pure Adds.refl 0
    | raised e => exact within_raise Adds.refl e
    | line text =>
      rw [processRecords]
      split
      · exact ih
      · refine (inside_processRecord hparse).bind (fun n => ?_) Adds.trans
        exact ih.bind (fun count => within_pure Adds.refl _) Adds.trans

theorem processFile_work {f : ExportFile}
    (hparse : sources.parseCrdbExportFile f.file = some (f.table, f.unixNano)) :
    wp (processFile config sources handler schema f)
      (fun _ t => ∃ es, t.trace = s.trace ++ es ∧ processedFiles es = [f] ∧
        ∀ o ∈ es, WorkOn sources f.table o) (fun _ _ => True) s := by
  rw [processFile]
  cases schema.get? f.table with
  | none => exact trivial
  | some data =>
    rw [wp_bind, wp_note]
    have hrest : Within (Adds (Inside sources f.table)) (do
        let lines ← exceptOsError (outside (sources.openDecoder f.file))
          fun e => s!"unable to create JSON decoder for {f.file}: {e.str}"
        note (.opened f.file lines)
        ensure (processRecords config sources handler f.file f.table data f.unixNano lines)
          (outside (sources.closeDecoder f.file)) : RunProg H W E Nat) := by
      refine (within_exceptOsError (adds_outside _) Adds.refl Adds.trans).bind (fun lines => ?_)
        Adds.trans
      refine (adds_note ⟨_, hparse⟩).bind (fun _ => ?_) Adds.trans
      exact (inside_processRecords hparse lines).ensure (adds_outside _) Adds.refl Adds.trans
    refine wp_mono (hrest.wp _) (fun _ t ht => ?_) (fun _ _ _ => trivial)
    obtain ⟨es, hes, hinside⟩ := ht
    refine ⟨.processing f.file f.table f.unixNano :: es, ?_, ?_, fun o ho => ?_⟩
    · rw [hes, push_trace, List.append_assoc]
      rfl
    · show ExportFile.mk f.file f.table f.unixNano :: processedFiles es = [f]
      rw [processedFiles_inside hinside]
    · rcases List.mem_cons.mp ho with rfl | ho
      · rfl
      · exact (hinside o ho).workOn

/-- The files of one table. -/
theorem processFiles_work {files : List ExportFile}
    (hfiles : ∀ f ∈ files, f.table = table ∧
      sources.parseCrdbExportFile f.file = some (f.table, f.unixNano)) :
    wp (sumOver (processFile config sources handler schema) files)
      (fun _ t => ∃ es, t.trace = s.trace ++ es ∧ processedFiles es = files ∧
        ∀ o ∈ es, WorkOn sources table o) (fun _ _ => True) s := by
  induction files generalizing s with
  | nil => exact ⟨[], (List.append_nil _).symm, rfl, fun _ h => absurd h List.not_mem_nil⟩
  | cons f rest ih =>
    obtain ⟨htable, hparse⟩ := hfiles f List.mem_cons_self
    rw [sumOver, wp_bind]
    refine wp_post (processFile_work hparse) fun n t ht => ?_
    obtain ⟨es, hes, hfile, hwork⟩ := ht
    rw [wp_bind]
    refine wp_post (ih fun g hg => hfiles g (List.mem_cons_of_mem _ hg)) fun total u hu => ?_
    obtain ⟨es', hes', hrest, hwork'⟩ := hu
    refine ⟨es ++ es', by rw [hes', hes, List.append_assoc], ?_, fun o ho => ?_⟩
    · rw [processedFiles_append, hfile, hrest]
      rfl
    · rcases List.mem_append.mp ho with ho | ho
      · exact htable ▸ hwork o ho
      · exact hwork' o ho

/-- The files of the other replay, whatever their tables are. -/
theorem processFiles_processed {files : List ExportFile}
    (hfiles : ∀ f ∈ files, sources.parseCrdbExportFile f.file = some (f.table, f.unixNano)) :
    wp (sumOver (processFile config sources handler schema) files)
      (fun _ t => processedFiles t.trace = processedFiles s.trace ++ files) (fun _ _ => True) s := by
  induction files generalizing s with
  | nil => exact (List.append_nil _).symm
  | cons f rest ih =>
    rw [sumOver, wp_bind]
    refine wp_post (processFile_work (hfiles f List.mem_cons_self)) fun n t ht => ?_
    obtain ⟨es, hes, hfile, _⟩ := ht
    rw [wp_bind]
    refine wp_post (ih fun g hg => hfiles g (List.mem_cons_of_mem _ hg)) fun total u hu => ?_
    rw [wp_pure, hu, hes, processedFiles_append, hfile, List.append_assoc]
    rfl

end Files

/-! ## The number of records

It is a function of the file, so that the order of the files does not matter. -/

section Counts

variable {config : ImporterConfig} {sources : Sources W} {handler : Handler H W E}
  {schema : Dict String Schema}

theorem validated_steady (hsteady : Steady sources) (event : ImportedEvent) :
    ∃ r, Returns (validated config sources event : RunProg H W E (Option ImportedEvent))
      fun a => a = r := by
  cases hvalidator : config.hasValidator with
  | false =>
    refine ⟨some event, fun s => ?_⟩
    rw [validated, hvalidator]
    exact rfl
  | true =>
    obtain ⟨answer, hanswer⟩ := hsteady.validate event
    cases answer with
    | ok verdict =>
      obtain ⟨found, valid, path⟩ := verdict
      refine ⟨if !found || !valid then none
        else if path = "" then some event
        else some { event with schemaValidatedPath := some path }, fun s => ?_⟩
      rw [validated, hvalidator]
      refine wp_handle.mpr (wp_bind.mpr (wp_outside (fun verdict w hcall => ?_) (fun e w hcall => ?_)))
      · have hsame := hanswer s.world
        rw [hcall] at hsame
        cases hsame
        dsimp only
        split
        · rfl
        · split
          · rfl
          · rfl
      · have hsame := hanswer s.world
        rw [hcall] at hsame
        cases hsame
    | error e =>
      refine ⟨none, fun s => ?_⟩
      rw [validated, hvalidator]
      refine wp_handle.mpr (wp_bind.mpr (wp_outside (fun verdict w hcall => ?_) (fun e' w hcall => ?_)))
      · have hsame := hanswer s.world
        rw [hcall] at hsame
        cases hsame
      · split
        · rfl
        · split
          · exact trivial
          · exact trivial

theorem returns_exceptValueError {α : Type} {r : Except Exn α} {msg : String → String} :
    Returns (exceptValueError r msg : RunProg H W E α) fun a => r = .ok a :=
  fun _ => wp_mono exceptValueError_spec (fun _ _ h => h.2) (fun _ _ _ => trivial)

theorem processRecord_steady (hsteady : Steady sources) (file table : String) (data : Schema)
    (unixNano : Int) (raw : String) :
    ∃ n, Returns (processRecord config sources handler file table data unixNano raw) fun m => m = n := by
  cases ho : getObject sources.json raw with
  | error e =>
    refine ⟨0, ?_⟩
    refine (returns_any _).bind fun _ _ => returns_exceptValueError.bind fun o hok => ?_
    rw [ho] at hok
    cases hok
  | ok o =>
    let event := syntheticEvent sources.json (sources.eventId file) table data unixNano raw o
    obtain ⟨r, hr⟩ : ∃ r, Returns (validated config sources event :
        RunProg H W E (Option ImportedEvent)) fun a => a = r := validated_steady hsteady event
    refine ⟨if r = none then 0 else 1, ?_⟩
    refine (returns_any _).bind fun _ _ => returns_exceptValueError.bind fun o' hok => ?_
    rw [ho] at hok
    cases hok
    refine hr.bind fun answer hanswer => ?_
    rw [hanswer]
    cases r with
    | none => exact (returns_any _).bind fun _ _ => returns_pure rfl
    | some event =>
      exact (returns_any _).bind fun _ _ => (returns_any _).bind fun _ _ => returns_pure rfl

theorem processRecords_steady (hsteady : Steady sources) (file table : String) (data : Schema)
    (unixNano : Int) (lines : List Reading) :
    ∃ n, Returns (processRecords config sources handler file table data unixNano lines)
      fun m => m = n := by
  induction lines with
  | nil => exact ⟨0, returns_pure rfl⟩
  | cons reading rest ih =>
    cases reading with
    | cut => exact ⟨0, returns_pure rfl⟩
    | raised e => exact ⟨0, returns_raise e⟩
    | line text =>
      rw [processRecords]
      split
      · exact ih
      · obtain ⟨n, hn⟩ : ∃ n, Returns (processRecord config sources handler file table data unixNano
            (strip text)) fun m => m = n := processRecord_steady hsteady file table data unixNano _
        obtain ⟨count, hcount⟩ := ih
        refine ⟨n + count, hn.bind fun a ha => hcount.bind fun b hb => returns_pure ?_⟩
        rw [ha, hb]

theorem processFile_steady (hsteady : Steady sources) (f : ExportFile) :
    ∃ n, Returns (processFile config sources handler schema f) fun m => m = n := by
  cases hdata : schema.get? f.table with
  | none =>
    refine ⟨0, ?_⟩
    rw [processFile, hdata]
    exact returns_raise _
  | some data =>
    obtain ⟨lines, hlines⟩ := hsteady.openDecoder f.file
    obtain ⟨n, hn⟩ : ∃ n, Returns (processRecords config sources handler f.file f.table data
        f.unixNano lines) fun m => m = n :=
      processRecords_steady hsteady f.file f.table data f.unixNano lines
    refine ⟨n, ?_⟩
    rw [processFile, hdata]
    have hopen : Returns (exceptOsError (outside (sources.openDecoder f.file))
        (fun e => s!"unable to create JSON decoder for {f.file}: {e.str}") :
          RunProg H W E (List Reading)) fun r => r = lines := by
      intro s
      refine wp_handle.mpr (wp_mono (returns_outside hlines s) (fun _ _ h => h) (fun e t _ => ?_))
      split
      · exact trivial
      · exact trivial
    refine (returns_any _).bind fun _ _ => hopen.bind fun r hr => ?_
    rw [hr]
    exact (returns_any _).bind fun _ _ => hn.ensure

end Counts

/-! ## The markers -/

section Markers

variable (config : ImporterConfig) (sources : Sources W)

/-- The markers for some tables; there are none without a tracker or a run id. -/
def markersOf (tables : List String) : List String :=
  if config.hasTracker && config.runId ≠ "" then tables.map (progressKey config.runId) else []

/-- An event comes before the marker of its table. -/
def Unmarked (pre : List (Obs E)) (o : Obs E) : Prop :=
  ∀ table, EventOf sources table o → progressKey config.runId table ∉ writtenKeys pre

structure Progressed (files : List ExportFile) (keys : List String) (s : RunState H W E) : Prop where
  processed : processedFiles s.trace = files
  written : writtenKeys s.trace = keys
  unmarked : Guarded (Unmarked config sources) s.trace

end Markers

section Recovery

variable {config : ImporterConfig} {sources : Sources W} {handler : Handler H W E}
  {schema : Dict String Schema} {files : List ExportFile} {keys : List String} {s t : RunState H W E}

theorem markersOf_append (tables : List String) (table : String) :
    markersOf config (tables ++ [table]) = markersOf config tables ++ markersOf config [table] := by
  rw [markersOf, markersOf, markersOf]
  split
  · exact List.map_append
  · rfl

theorem not_mem_markersOf {tables : List String} {table : String} (h : table ∉ tables) :
    progressKey config.runId table ∉ markersOf config tables := by
  intro hmem
  rw [markersOf] at hmem
  split at hmem
  · obtain ⟨table', htable', hsame⟩ := List.mem_map.mp hmem
    exact h (progressKey_injective hsame ▸ htable')
  · exact absurd hmem List.not_mem_nil

/-- Events without a marker, of tables that are not marked yet. -/
theorem Progressed.extend (h : Progressed config sources files keys s) {es : List (Obs E)}
    (htrace : t.trace = s.trace ++ es) (hkeys : ∀ key, .setKey key ∉ es)
    (hfresh : ∀ o ∈ es, ∀ table, EventOf sources table o → progressKey config.runId table ∉ keys) :
    Progressed config sources (files ++ processedFiles es) keys t := by
  have hnone : ∀ front ⊆ es, writtenKeys front = [] := by
    intro front hfront
    refine List.eq_nil_iff_forall_not_mem.mpr fun key hkey => ?_
    exact hkeys key (hfront (mem_writtenKeys.mp hkey))
  refine ⟨?_, ?_, ?_⟩
  · rw [htrace, processedFiles_append, h.processed]
  · rw [htrace, writtenKeys_append, h.written, hnone es fun _ ho => ho, List.append_nil]
  · rw [htrace]
    refine h.unmarked.extend fun front o back hcut table htable => ?_
    have hfront : front ⊆ es := by
      rw [hcut]
      exact List.subset_append_left _ _
    rw [writtenKeys_append, h.written, hnone front hfront, List.append_nil]
    refine hfresh o ?_ table htable
    rw [hcut]
    exact List.mem_append_right _ List.mem_cons_self

/-- A call of the handler. -/
theorem Progressed.embed {α : Type} (h : Progressed config sources files keys s)
    (p : Prog Exn (Traced H W E) α) :
    wp (embed .handler p : RunProg H W E α) (fun _ t => Progressed config sources files keys t)
      (fun _ _ => True) s := by
  rw [wp_embed]
  have hgo : ∀ u : Traced H W E, Progressed config sources files keys
      (⟨u.vars, u.world, s.trace ++ u.trace.map .handler⟩ : RunState H W E) := by
    intro u
    have hkeys : ∀ key, Obs.setKey key ∉ u.trace.map Obs.handler := by
      intro key hkey
      obtain ⟨b, _, hb⟩ := List.mem_map.mp hkey
      cases hb
    have hfresh : ∀ o ∈ u.trace.map Obs.handler, ∀ table, EventOf sources table o →
        progressKey config.runId table ∉ keys := by
      intro o ho table htable
      obtain ⟨b, _, rfl⟩ := List.mem_map.mp ho
      exact htable.elim
    have hsame : Progressed config sources (files ++ processedFiles (u.trace.map Obs.handler)) keys
        (⟨u.vars, u.world, s.trace ++ u.trace.map .handler⟩ : RunState H W E) :=
      h.extend rfl hkeys hfresh
    rw [processedFiles_handler, List.append_nil] at hsame
    exact hsame
  exact wp_any (fun _ u => hgo u) (fun _ _ => trivial)

theorem writeProgressMarker_progressed (h : Progressed config sources files keys s) (table : String) :
    wp (writeProgressMarker config sources table : RunProg H W E Unit)
      (fun _ t => Progressed config sources files (keys ++ markersOf config [table]) t)
      (fun _ _ => True) s := by
  rw [writeProgressMarker, markersOf]
  split
  · rw [wp_bind, wp_note]
    refine wp_outside (fun _ w _ => ⟨?_, ?_, ?_⟩) (fun _ _ _ => trivial)
    · rw [inWorld_trace, push_trace, processedFiles_append, h.processed]
      exact List.append_nil files
    · rw [inWorld_trace, push_trace, writtenKeys_append, h.written]
      rfl
    · exact h.unmarked.snoc fun _ htable => htable.elim
  · rw [List.append_nil]
    exact h

/-- The markers that are written by the end of the given tables. -/
def keysBy (config : ImporterConfig) (handler : Handler H W E) (done : List String) : List String :=
  match handler.flushImported with
  | none => []
  | some _ => markersOf config done

theorem importTable_progressed {done : List String} {table : String} {listed : List String}
    (hfresh : table ∉ done)
    (h : Progressed config sources files (keysBy config handler done) s) :
    wp (importTable config sources handler schema
        (groupBy ExportFile.table (exportFiles config sources listed)) table)
      (fun _ t => Progressed config sources
        (files ++ (exportFiles config sources listed).filter fun f => decide (f.table = table))
        (keysBy config handler (done ++ [table])) t)
      (fun _ _ => True) s := by
  rw [importTable, groupOf_groupBy, wp_bind]
  have hgroup : ∀ f ∈ (exportFiles config sources listed).filter fun f => decide (f.table = table),
      f.table = table ∧ sources.parseCrdbExportFile f.file = some (f.table, f.unixNano) := by
    intro f hf
    obtain ⟨hf, htable⟩ := List.mem_filter.mp hf
    exact ⟨of_decide_eq_true htable, exportFiles_parse hf⟩
  refine wp_post (processFiles_work hgroup) fun total t ht => ?_
  · obtain ⟨es, hes, hprocessed, hwork⟩ := ht
    have hnew : progressKey config.runId table ∉ keysBy config handler done := by
      rw [keysBy]
      split
      · exact List.not_mem_nil
      · exact not_mem_markersOf hfresh
    have hs₁ := h.extend hes (fun key hkey => (hwork _ hkey).elim) fun o ho table' htable' =>
      EventOf.unique (hwork o ho) htable' ▸ hnew
    rw [hprocessed] at hs₁
    cases hflush : handler.flushImported with
    | none =>
      rw [keysBy, hflush] at hs₁ ⊢
      exact hs₁
    | some flush =>
      rw [wp_bind]
      refine wp_post (hs₁.embed flush) fun _ u hu => ?_
      rw [wp_bind]
      refine wp_post (writeProgressMarker_progressed hu table) fun _ v hv => ?_
      rw [keysBy, hflush] at hv
      rw [wp_pure, keysBy, hflush]
      simp only at hv ⊢
      rw [markersOf_append]
      exact hv

/-- The tables of the replay are the configured ones, in another order. -/
theorem orderedTables_perm (hnodup : config.tables.Nodup) (listed : List String) :
    let groups := groupBy ExportFile.table (exportFiles config sources listed)
    (orderedTables config groups).Nodup ∧ (orderedTables config groups).Perm config.tables := by
  intro groups
  have hordered : (orderedTables config groups).Nodup := by
    refine List.Nodup.append (keys_groupBy_nodup _ _) (hnodup.filter _) ?_
    intro table hkey hrest
    exact of_decide_eq_true (List.mem_filter.mp hrest).2 hkey
  refine ⟨hordered, (List.perm_ext_iff_of_nodup hordered hnodup).mpr fun table => ?_⟩
  constructor
  · exact mem_orderedTables
  · intro htable
    by_cases hkey : table ∈ groups.map Prod.fst
    · exact List.mem_append_left _ hkey
    · exact List.mem_append_right _ (List.mem_filter.mpr ⟨htable, decide_eq_true hkey⟩)

theorem mem_orderedTables_of_file {listed : List String} {f : ExportFile}
    (hf : f ∈ exportFiles config sources listed) :
    f.table ∈ orderedTables config (groupBy ExportFile.table (exportFiles config sources listed)) :=
  List.mem_append_left _ ((mem_keys_groupBy _ _ _).mpr ⟨f, hf, rfl⟩)

/-- The markers behind the end of an import without a flush per table. -/
theorem writeMarkers_progressed (tables : List String) (h : Progressed config sources files [] s) :
    wp (each (writeProgressMarker config sources) tables)
      (fun _ t => Progressed config sources files (markersOf config tables) t)
      (fun _ _ => True) s := by
  refine wp_each_done (fun done t => Progressed config sources files (markersOf config done) t)
    (fun done table rest t _ ht => ?_) ?_
  · rw [markersOf_append]
    exact writeProgressMarker_progressed ht table
  · rw [markersOf, List.map_nil, ite_self]
    exact h

theorem runRecovery_progressed (hnodup : config.tables.Nodup) (listed : List String)
    (hs : s.trace = []) :
    let tables := orderedTables config (groupBy ExportFile.table (exportFiles config sources listed))
    wp (runRecovery config sources handler schema listed)
      (fun _ t => Progressed config sources
        (tables.flatMap fun table =>
          (exportFiles config sources listed).filter fun f => decide (f.table = table))
        (markersOf config tables) t)
      (fun _ _ => True) s := by
  intro tables
  have hstart : Progressed config sources [] (keysBy config handler []) s := by
    refine ⟨by rw [hs]; rfl, ?_, by rw [hs]; exact guarded_nil⟩
    rw [hs, keysBy]
    split
    · rfl
    · exact (ite_self _).symm
  have htables : tables.Nodup := (orderedTables_perm hnodup listed).1
  rw [runRecovery, wp_bind]
  refine wp_post (wp_sumOver_done (fun done t => Progressed config sources (done.flatMap fun table =>
    (exportFiles config sources listed).filter fun f => decide (f.table = table))
    (keysBy config handler done) t) (fun done table rest t hsplit ht => ?_) hstart) fun total t ht => ?_
  · have hfresh : table ∉ done := by
      intro hmem
      have hparts : (done ++ table :: rest).Nodup := hsplit ▸ htables
      exact (List.nodup_append.mp hparts).2.2 table hmem table List.mem_cons_self rfl
    refine wp_post (importTable_progressed hfresh ht) fun _ u hu => ?_
    rw [List.flatMap_append, List.flatMap_cons, List.flatMap_nil, List.append_nil]
    exact hu
  · rw [wp_bind]
    refine wp_post (ht.embed _) fun _ u hu => ?_
    cases hflush : handler.flushImported with
    | some flush =>
      rw [keysBy, hflush] at hu
      exact hu
    | none =>
      rw [keysBy, hflush] at hu
      rw [wp_bind]
      exact wp_post (writeMarkers_progressed tables hu) fun _ v hv => hv

/-- The total of the replay by table, for any counts of the files. -/
theorem runRecovery_total {count : ExportFile → Nat}
    (hcount : ∀ f, Returns (processFile config sources handler schema f) fun n => n = count f)
    (hnodup : config.tables.Nodup) (listed : List String) :
    Returns (runRecovery config sources handler schema listed)
      fun total => total = ((exportFiles config sources listed).map count).sum := by
  let groups := groupBy ExportFile.table (exportFiles config sources listed)
  have htable : ∀ table, Returns (importTable config sources handler schema groups table)
      fun n => n = ((groupOf table groups).map count).sum := by
    intro table
    refine (returns_sumOver hcount _).bind fun n hn => ?_
    cases handler.flushImported with
    | none => exact returns_pure hn
    | some flush => exact (returns_any _).bind fun _ _ => (returns_any _).bind fun _ _ => returns_pure hn
  have hperm : ((orderedTables config groups).flatMap fun table => groupOf table groups).Perm
      (exportFiles config sources listed) := by
    have hparts : ∀ table, groupOf table groups =
        (exportFiles config sources listed).filter fun f => decide (f.table = table) :=
      fun table => groupOf_groupBy _ _ _
    simp only [hparts]
    exact flatMap_filter_perm _ (orderedTables_perm hnodup listed).1 fun f hf =>
      mem_orderedTables_of_file hf
  refine (returns_sumOver htable _).bind fun total htotal => ?_
  have hsame : total = ((exportFiles config sources listed).map count).sum := by
    rw [htotal, ← (hperm.map count).sum_nat, List.map_flatMap, List.flatMap_def, List.sum_flatten,
      List.map_map]
    rfl
  refine (returns_any _).bind fun _ _ => ?_
  cases handler.flushImported with
  | none => exact (returns_any _).bind fun _ _ => returns_pure hsame
  | some flush => exact returns_pure hsame

/-! ## The other replay -/

theorem replayInOrder_processed (listed : List String) (hs : s.trace = []) :
    wp (replayInOrder config sources handler schema listed)
      (fun _ t => processedFiles t.trace = exportFiles config sources listed)
      (fun _ _ => True) s := by
  rw [replayInOrder, wp_bind]
  refine wp_post (processFiles_processed fun f hf => exportFiles_parse hf) fun total t ht => ?_
  rw [hs] at ht
  rw [wp_bind, wp_embed]
  refine wp_any (fun _ u => ?_) (fun _ _ => trivial)
  rw [wp_pure, processedFiles_append, ht, processedFiles_handler]
  exact List.append_nil _

theorem replayInOrder_total {count : ExportFile → Nat}
    (hcount : ∀ f, Returns (processFile config sources handler schema f) fun n => n = count f)
    (listed : List String) :
    Returns (replayInOrder config sources handler schema listed)
      fun total => total = ((exportFiles config sources listed).map count).sum :=
  (returns_sumOver hcount _).bind fun _ htotal => (returns_any _).bind fun _ _ => returns_pure htotal

end Recovery

/-- Both replays of a listing process the same files, those of each table in the same order,
and return the same number; the replay by table writes one marker for each configured
table, and no event of a table comes behind its marker. -/
theorem recovery_replay_does_same_work (config : ImporterConfig) (sources : Sources W)
    (handler : Handler H W E) (schema : Dict String Schema) (listed : List String)
    (hnodup : config.tables.Nodup) (hsteady : Steady sources)
    {h h' : H} {w w' : W} {total total' : Nat} {u u' : RunState H W E}
    (hlegacy : replayInOrder config sources handler schema listed ⟨h, w, []⟩ = (.ok total, u))
    (hrecovery : runRecovery config sources handler schema listed ⟨h', w', []⟩ = (.ok total', u')) :
    (processedFiles u'.trace).Perm (processedFiles u.trace) ∧
    (∀ table, (processedFiles u'.trace).filter (fun f => decide (f.table = table)) =
      (processedFiles u.trace).filter fun f => decide (f.table = table)) ∧
    total' = total ∧
    (writtenKeys u'.trace).Perm (markersOf config config.tables) ∧
    ∀ table pre post, u'.trace = pre ++ .setKey (progressKey config.runId table) :: post →
      ∀ o ∈ post, ¬ EventOf sources table o := by
  obtain ⟨htables, hordered⟩ : (orderedTables config
      (groupBy ExportFile.table (exportFiles config sources listed))).Nodup ∧
      (orderedTables config (groupBy ExportFile.table (exportFiles config sources listed))).Perm
        config.tables := orderedTables_perm hnodup listed
  have hrun := wp_ok (runRecovery_progressed hnodup listed rfl) hrecovery
  have hfiles : processedFiles u.trace = exportFiles config sources listed :=
    wp_ok (replayInOrder_processed listed rfl) hlegacy
  have hcover : ∀ f ∈ exportFiles config sources listed, f.table ∈ orderedTables config
      (groupBy ExportFile.table (exportFiles config sources listed)) :=
    fun f hf => mem_orderedTables_of_file hf
  have hsteadily : ∀ f, ∃ n, Returns (processFile config sources handler schema f) fun m => m = n :=
    processFile_steady hsteady
  choose count hcount using hsteadily
  refine ⟨?_, fun table => ?_, ?_, ?_, fun table pre post hcut o ho htable => ?_⟩
  · rw [hrun.processed, hfiles]
    exact flatMap_filter_perm _ htables hcover
  · rw [hrun.processed, hfiles]
    exact filter_flatMap_filter _ htables hcover table
  · rw [(runRecovery_total hcount hnodup listed).reply hrecovery,
      (replayInOrder_total hcount listed).reply hlegacy]
  · rw [hrun.written, markersOf, markersOf]
    split
    · exact hordered.map _
    · exact List.Perm.nil
  · obtain ⟨front, back, rfl⟩ := List.append_of_mem ho
    refine hrun.unmarked (pre ++ .setKey (progressKey config.runId table) :: front) o back ?_ table
      htable ?_
    · rw [hcut, List.append_assoc]
      rfl
    · exact mem_writtenKeys.mpr (List.mem_append_right _ List.mem_cons_self)

theorem twoTables_steady : Steady twoTables where
  openDecoder _ := ⟨_, fun _ => rfl⟩
  validate _ := ⟨.ok (true, true, ""), fun _ => rfl⟩

/-- Three files of two tables, replayed both ways: the recovery takes the later file of the users
before that of the orders. -/
theorem recovery_replay_does_same_work_tables :
    let handler := Drivers.sqlHandler obliging tableImport
    let listed := exports.map Prod.fst
    let legacy := replayInOrder tableImport twoTables handler tableSchemas listed
      ⟨Drivers.ImportBuffer.empty, (), []⟩
    let recovery := runRecovery tableImport twoTables handler tableSchemas listed
      ⟨Drivers.ImportBuffer.empty, (), []⟩
    legacy.1 = .ok 4 ∧ recovery.1 = .ok 4 ∧
      (processedFiles legacy.2.trace).map ExportFile.file = [userFile, orderFile, laterFile] ∧
      (processedFiles recovery.2.trace).map ExportFile.file = [userFile, laterFile, orderFile] ∧
      (processedFiles recovery.2.trace).Perm (processedFiles legacy.2.trace) ∧
      (∀ table, (processedFiles recovery.2.trace).filter (fun f => decide (f.table = table)) =
        (processedFiles legacy.2.trace).filter fun f => decide (f.table = table)) ∧
      (writtenKeys recovery.2.trace).Perm [progressKey "run" "user", progressKey "run" "order"] := by
  intro handler listed legacy recovery
  have hlegacy : legacy.1 = .ok 4 := by decide +kernel
  have hrecovery : recovery.1 = .ok 4 := by decide +kernel
  obtain ⟨hperm, htables, -, hkeys, -⟩ := recovery_replay_does_same_work tableImport twoTables handler
    tableSchemas listed (by decide) twoTables_steady (Prod.ext hlegacy rfl) (Prod.ext hrecovery rfl)
  exact ⟨hlegacy, hrecovery, by decide +kernel, by decide +kernel, hperm, htables, hkeys⟩

end Importer
end Eds
