import Eds.Effects.History
import Eds.Drivers.SqlImport

/-!
# What a progress marker says

A marker `import-progress:{run_id}:{table}` is the only evidence that a later run
has for a table being done.  For a run that executes its batches, the marker is
written only after every record of the table was handed to the database by a call
that returned.  The buffer carries the argument: what is imported is in the buffer
or in an executed batch, and a table ends with a flush.

A dry run writes the same markers under the same run id, and hands over nothing.
-/

namespace Eds
namespace Importer

open Effects Effects.Prog Effects.Traced Collections Drivers

variable {W : Type}

/-! ## The texts handed over -/

def executedTexts (t : List ImportObs) : List String :=
  t.flatMap fun o => match o with
    | .executed texts => texts
    | _ => []

/-- The texts of the executed batches of a run. -/
def handed (t : List (Obs ImportObs)) : List String :=
  t.flatMap fun o => match o with
    | .handler (.executed texts) => texts
    | _ => []

theorem handed_append (t u : List (Obs ImportObs)) : handed (t ++ u) = handed t ++ handed u :=
  List.flatMap_append

theorem handed_map_handler (t : List ImportObs) : handed (t.map .handler) = executedTexts t := by
  rw [handed, List.flatMap_map]
  refine List.flatMap_congr fun o _ => ?_
  cases o with
  | executed texts => rfl
  | logged texts => rfl
  | refused texts => rfl

theorem executedTexts_refused (t : List ImportObs) (texts : List String) :
    executedTexts (t ++ [.refused texts]) = executedTexts t := by
  rw [executedTexts, List.flatMap_append]
  exact List.append_nil _

theorem executedTexts_batch (config : ImporterConfig) (t : List ImportObs) (texts : List String) :
    executedTexts (t ++ [batch config texts]) =
      executedTexts t ++ if config.dryRun then [] else texts := by
  rw [executedTexts, List.flatMap_append, batch]
  cases config.dryRun with
  | false => exact congrArg (executedTexts t ++ ·) (List.append_nil texts)
  | true => rfl

/-! ## The handler keeps what it was given -/

/-- A dry run hands over nothing; another run loses nothing. -/
structure Keeps (config : ImporterConfig) (s t : Traced ImportBuffer W ImportObs) : Prop where
  held : config.dryRun = false → ∀ sql ∈ executedTexts s.trace ++ s.vars.texts,
    sql ∈ executedTexts t.trace ++ t.vars.texts
  dry : config.dryRun = true → executedTexts t.trace = executedTexts s.trace

section Handler

variable {config : ImporterConfig} {dest : Destination W} {s t u : Traced ImportBuffer W ImportObs}

theorem Keeps.refl (s : Traced ImportBuffer W ImportObs) : Keeps config s s :=
  ⟨fun _ _ h => h, fun _ => rfl⟩

theorem Keeps.trans (h : Keeps config s t) (h' : Keeps config t u) : Keeps config s u where
  held hdry sql hsql := h'.held hdry sql (h.held hdry sql hsql)
  dry hdry := (h'.dry hdry).trans (h.dry hdry)

theorem keeps_of_trace_eq (htrace : t.trace = s.trace)
    (hsub : ∀ sql ∈ s.vars.texts, sql ∈ t.vars.texts) : Keeps config s t where
  held _ sql hsql := by
    rw [htrace]
    rcases List.mem_append.mp hsql with h | h
    · exact List.mem_append_left _ h
    · exact List.mem_append_right _ (hsub sql h)
  dry _ := by rw [htrace]

theorem keeps_of_refused {texts : List String} (htrace : t.trace = s.trace ++ [.refused texts])
    (hsub : ∀ sql ∈ s.vars.texts, sql ∈ t.vars.texts) : Keeps config s t where
  held _ sql hsql := by
    rw [htrace, executedTexts_refused]
    rcases List.mem_append.mp hsql with h | h
    · exact List.mem_append_left _ h
    · exact List.mem_append_right _ (hsub sql h)
  dry _ := by rw [htrace, executedTexts_refused]

theorem keeps_of_batch {texts : List String} (htrace : t.trace = s.trace ++ [batch config texts])
    (hsub : ∀ sql ∈ s.vars.texts, sql ∈ texts ∨ sql ∈ t.vars.texts) : Keeps config s t where
  held hdry sql hsql := by
    rw [htrace, executedTexts_batch, hdry]
    rcases List.mem_append.mp hsql with h | h
    · exact List.mem_append_left _ (List.mem_append_left _ h)
    · rcases hsub sql h with h | h
      · exact List.mem_append_left _ (List.mem_append_right _ h)
      · exact List.mem_append_right _ h
  dry hdry := by
    rw [htrace, executedTexts_batch, hdry]
    exact List.append_nil _

theorem keeps_executor {texts : List String} :
    Within (Keeps config) (executor dest config texts) := by
  intro s
  refine wp_state (wp_mono executor_spec (fun _ t h => ?_) (fun _ t h => ?_))
  · exact keeps_of_batch h.2 fun sql hsql => Or.inr (h.1 ▸ hsql)
  · exact keeps_of_refused h.2 fun sql hsql => h.1 ▸ hsql

theorem keeps_createDatasource (schema : Dict String Schema) :
    Within (Keeps config) (createDatasource dest config schema) := by
  refine within_each (fun table => ?_) Keeps.refl Keeps.trans _
  rw [createTable]
  cases schema.get? table with
  | none => exact within_raise Keeps.refl _
  | some data =>
    exact within_tryExcept keeps_executor (fun _ => within_raise Keeps.refl _) Keeps.refl Keeps.trans

theorem keeps_importCompleted : Within (Keeps config) (importCompleted dest config) := by
  intro s
  refine wp_state (wp_mono importCompleted_spec (fun _ t h => ?_) (fun _ t h => ?_))
  · rcases h.2 with htrace | ⟨_, htrace⟩
    · exact keeps_of_batch htrace fun sql hsql => Or.inr (h.1 ▸ hsql)
    · exact keeps_of_trace_eq htrace fun sql hsql => h.1 ▸ hsql
  · exact keeps_of_refused h.2 fun sql hsql => h.1 ▸ hsql

theorem keeps_flushImported : Within (Keeps config) (flushImported dest config) := by
  intro s
  refine wp_state (wp_mono flushImported_spec (fun _ t h => ?_) (fun _ t h => ?_))
  · rcases h with h | h
    · exact keeps_of_batch h.2 fun sql hsql => Or.inl hsql
    · exact keeps_of_trace_eq h.2.2 fun sql hsql => h.2.1 ▸ hsql
  · exact keeps_of_refused h.2 fun sql hsql => h.1 ▸ hsql

/-- The flush at the end of a table leaves an empty buffer. -/
theorem flushImported_empty :
    wp (flushImported dest config) (fun _ t => t.vars.texts = []) (fun _ _ => True) s := by
  refine wp_mono flushImported_spec (fun _ t h => ?_) (fun _ _ _ => trivial)
  rcases h with h | h
  · rw [h.1]
    rfl
  · rw [h.2.1]
    exact ImportBuffer.texts_eq_nil h.1

theorem mem_texts_add {b : ImportBuffer} {text : SqlText} {sql : String} (h : sql ∈ b.texts) :
    sql ∈ (b.add text).texts := by
  rw [ImportBuffer.texts_add]
  exact List.mem_append_left _ h

theorem keeps_importEvent {event : ImportedEvent} {data : Schema} :
    Within (Keeps config) (importEvent dest config event data) := by
  intro s
  refine wp_state (wp_mono importEvent_spec (fun _ t h => ?_) (fun _ t h => ?_))
  · obtain ⟨sql, _, h | h⟩ := h
    · exact keeps_of_trace_eq h.2 fun x hx => h.1 ▸ mem_texts_add hx
    · exact keeps_of_batch h.2 fun x hx => Or.inl (mem_texts_add hx)
  · rcases h with h | ⟨sql, _, h⟩
    · exact keeps_of_trace_eq h.2 fun x hx => h.1 ▸ hx
    · exact keeps_of_refused h.2 fun x hx => h.1 ▸ mem_texts_add hx

/-- An imported event is in the buffer or in an executed batch. -/
theorem importEvent_held {event : ImportedEvent} {data : Schema} :
    wp (importEvent dest config event data)
      (fun _ t => ∃ sql,
        dest.driver.toSqlFromObject dest.str data event.table (event.object.getD []) = .ok sql ∧
          (config.dryRun = false → sql.1 ∈ executedTexts t.trace ++ t.vars.texts))
      (fun _ _ => True) s := by
  refine wp_mono importEvent_spec (fun _ t h => ?_) (fun _ _ _ => trivial)
  obtain ⟨sql, hsql, h⟩ := h
  have hlast : sql.1 ∈ (s.vars.add sql).texts := by
    rw [ImportBuffer.texts_add]
    exact List.mem_append_right _ (List.mem_singleton_self _)
  refine ⟨sql, hsql, fun hdry => ?_⟩
  rcases h with h | h
  · rw [h.1]
    exact List.mem_append_right _ hlast
  · rw [h.2, executedTexts_batch, hdry]
    exact List.mem_append_left _ (List.mem_append_right _ hlast)

end Handler

/-! ## The importer keeps it too -/

abbrev SqlRun (W : Type) := RunState ImportBuffer W ImportObs

/-- Everything handed over or still in the buffer. -/
def held (s : SqlRun W) : List String := handed s.trace ++ s.vars.texts

/-- What every part of a run does that writes no marker. -/
structure Advance (config : ImporterConfig) (s t : SqlRun W) : Prop where
  trace : ∃ es, t.trace = s.trace ++ es ∧ ∀ key, Obs.setKey key ∉ es
  held : config.dryRun = false → ∀ sql ∈ held s, sql ∈ held t
  dry : config.dryRun = true → handed t.trace = handed s.trace

section Frames

variable {config : ImporterConfig} {dest : Destination W} {sources : Sources W} {s t u : SqlRun W}
  {α : Type}

theorem Advance.refl (s : SqlRun W) : Advance config s s :=
  ⟨⟨[], (List.append_nil _).symm, fun _ h => by cases h⟩, fun _ _ h => h, fun _ => rfl⟩

theorem Advance.trans (h : Advance config s t) (h' : Advance config t u) : Advance config s u where
  trace := by
    obtain ⟨es, hes, hkey⟩ := h.trace
    obtain ⟨es', hes', hkey'⟩ := h'.trace
    refine ⟨es ++ es', by rw [hes', hes, List.append_assoc], fun key hmem => ?_⟩
    exact (List.mem_append.mp hmem).elim (hkey key) (hkey' key)
  held hdry sql hsql := h'.held hdry sql (h.held hdry sql hsql)
  dry hdry := (h'.dry hdry).trans (h.dry hdry)

theorem Advance.mem (h : Advance config s t) {o : Obs ImportObs} (ho : o ∈ s.trace) : o ∈ t.trace := by
  obtain ⟨es, hes, _⟩ := h.trace
  rw [hes]
  exact List.mem_append_left _ ho

theorem advance_outside (p : Prog Exn W α) :
    Within (Advance config) (outside p : RunProg ImportBuffer W ImportObs α) :=
  fun s => ⟨⟨[], (List.append_nil _).symm, fun _ h => by cases h⟩, fun _ _ h => h, fun _ => rfl⟩

/-- Neither a marker nor a batch. -/
def IsNote : Obs ImportObs → Prop
  | .setKey _ | .handler _ => False
  | _ => True

theorem advance_push {o : Obs ImportObs} (ho : IsNote o) : Advance config s (s.push o) where
  trace := by
    refine ⟨[o], rfl, fun key hmem => ?_⟩
    rw [← List.mem_singleton.mp hmem] at ho
    exact ho
  held _ sql hsql := by
    rw [Importer.held, push_trace, handed_append]
    rcases List.mem_append.mp hsql with h | h
    · exact List.mem_append_left _ (List.mem_append_left _ h)
    · exact List.mem_append_right _ h
  dry _ := by
    rw [push_trace, handed_append]
    cases o with
    | setKey key => exact ho.elim
    | handler o => exact ho.elim
    | _ => exact List.append_nil _

/-- A step of the handler, seen from the run. -/
def recorded (s : SqlRun W) (t : Traced ImportBuffer W ImportObs) : SqlRun W :=
  ⟨t.vars, t.world, s.trace ++ t.trace.map .handler⟩

theorem held_recorded (t : Traced ImportBuffer W ImportObs) :
    held (recorded s t) = handed s.trace ++ (executedTexts t.trace ++ t.vars.texts) := by
  rw [held, recorded, handed_append, handed_map_handler, List.append_assoc]

theorem advance_recorded {t : Traced ImportBuffer W ImportObs}
    (h : Keeps config ⟨s.vars, s.world, []⟩ t) : Advance config s (recorded s t) where
  trace := by
    refine ⟨_, rfl, fun key hmem => ?_⟩
    obtain ⟨o, _, ho⟩ := List.mem_map.mp hmem
    cases ho
  held hdry sql hsql := by
    rw [held_recorded]
    rcases List.mem_append.mp hsql with hmem | hmem
    · exact List.mem_append_left _ hmem
    · exact List.mem_append_right _ (h.held hdry sql hmem)
  dry hdry := by
    rw [recorded, handed_append, handed_map_handler, h.dry hdry]
    exact List.append_nil _

theorem advance_embed {p : ImportProg W α} (h : Within (Keeps config) p) :
    Within (Advance config) (embed .handler p : RunProg ImportBuffer W ImportObs α) := by
  intro s
  refine wp_state (wp_embed.mpr (wp_mono (h.wp _) (fun _ t ht => ?_) (fun _ t ht => ?_)))
  · exact advance_recorded ht
  · exact advance_recorded ht

theorem advance_completed : Within (Advance config)
    (embed .handler (importCompleted dest config) : RunProg ImportBuffer W ImportObs Unit) :=
  advance_embed keeps_importCompleted

theorem advance_exceptOsError {p : RunProg ImportBuffer W ImportObs α} {msg : Exn → String}
    (hp : Within (Advance config) p) : Within (Advance config) (exceptOsError p msg) :=
  within_exceptOsError hp Advance.refl Advance.trans

end Frames

/-! ## What is settled after a file -/

/-- The SQL of a record. -/
def statement (dest : Destination W) (json : JsonLib) (data : Schema) (table raw : String) :
    Except Exn SqlText := do
  let o ← getObject json raw
  dest.driver.toSqlFromObject dest.str data (.str table) (o.getD [])

section Files

variable (dest : Destination W) (sources : Sources W)

/-- The record was rejected by the validator, or its SQL is among the texts. -/
def Settled (data : Schema) (file table : String) (t : List (Obs ImportObs)) (texts : List String)
    (record : String) : Prop :=
  .rejected file record ∈ t ∨
    ∃ sql, statement dest sources.json data table record = .ok sql ∧ sql.1 ∈ texts

/-- Every record that could be read of the file is settled. -/
def FileDone (schema : Dict String Schema) (t : List (Obs ImportObs)) (texts : List String)
    (f : ExportFile) : Prop :=
  ∃ data lines, schema.get? f.table = some data ∧ .opened f.file lines ∈ t ∧
    ∀ record ∈ contents (readable lines), Settled dest sources data f.file f.table t texts record

end Files

section Records

variable {config : ImporterConfig} {dest : Destination W} {sources : Sources W} {s t : SqlRun W}
  {data : Schema} {file table : String} {unixNano : Int} {schema : Dict String Schema}

theorem Settled.advance {record : String} (hdry : config.dryRun = false) (h : Advance config s t)
    (hs : Settled dest sources data file table s.trace (held s) record) :
    Settled dest sources data file table t.trace (held t) record := by
  rcases hs with hs | ⟨sql, hsql, hmem⟩
  · exact Or.inl (h.mem hs)
  · exact Or.inr ⟨sql, hsql, h.held hdry _ hmem⟩

theorem FileDone.advance {f : ExportFile} (hdry : config.dryRun = false) (h : Advance config s t)
    (hs : FileDone dest sources schema s.trace (held s) f) :
    FileDone dest sources schema t.trace (held t) f := by
  obtain ⟨data, lines, hdata, hopened, hrecords⟩ := hs
  exact ⟨data, lines, hdata, h.mem hopened, fun r hr => (hrecords r hr).advance hdry h⟩

theorem processRecord_spec {raw : String} :
    wp (processRecord config sources (sqlHandler dest config) file table data unixNano raw)
      (fun _ t => Advance config s t ∧ (config.dryRun = false →
        Settled dest sources data file table t.trace (held t) raw))
      (fun _ t => Advance config s t) s := by
  rw [processRecord, wp_bind]
  refine wp_mono ((within_exceptValueError Advance.refl).wp s) (fun _ s₁ h₁ => ?_) (fun _ _ h => h)
  rw [wp_bind]
  refine wp_mono exceptValueError_spec (fun o s₂ h₂ => ?_) (fun _ t ht => ht ▸ h₁)
  obtain ⟨rfl, ho⟩ := h₂
  rw [wp_bind]
  have hquiet : Within (Advance config)
      (validated config sources (syntheticEvent sources.json (sources.eventId file) table data
        unixNano raw o) : RunProg ImportBuffer W ImportObs (Option ImportedEvent)) :=
    within_validated (advance_outside _) Advance.refl Advance.trans
  refine wp_mono (wp_and (hquiet.wp s₂) validated_event) (fun r s₃ h₃ => ?_)
    (fun _ _ h => h₁.trans h.1)
  have hs₃ := h₁.trans h₃.1
  cases r with
  | none =>
    -- A skipped record is settled by the note of it.
    rw [wp_bind, wp_note, wp_pure]
    refine ⟨hs₃.trans (advance_push trivial), fun _ => Or.inl ?_⟩
    exact List.mem_append_right _ (List.mem_singleton_self _)
  | some event =>
    obtain ⟨htable, hobject⟩ := h₃.2 event rfl
    rw [wp_bind, wp_note, wp_bind, wp_embed]
    have hs₄ := hs₃.trans (advance_push (o := .offered file raw) trivial)
    refine wp_mono (wp_and (keeps_importEvent.wp _) importEvent_held) (fun _ u hu => ?_)
      (fun _ u hu => hs₄.trans (advance_recorded hu.1))
    refine ⟨hs₄.trans (advance_recorded hu.1), fun hdry => Or.inr ?_⟩
    -- The event that is imported may carry a validated path, which the SQL does not read.
    obtain ⟨sql, hsql, hheld⟩ := hu.2
    rw [htable, hobject] at hsql
    refine ⟨sql, ?_, ?_⟩
    · rw [statement, ho]
      exact hsql
    · show sql.1 ∈ held (recorded (s₃.push (.offered file raw)) u)
      rw [held_recorded]
      exact List.mem_append_right _ (hheld hdry)

theorem processRecords_spec (lines : List Reading) :
    wp (processRecords config sources (sqlHandler dest config) file table data unixNano lines)
      (fun _ t => Advance config s t ∧ (config.dryRun = false →
        ∀ r ∈ contents (readable lines), Settled dest sources data file table t.trace (held t) r))
      (fun _ t => Advance config s t) s := by
  induction lines generalizing s with
  | nil => exact ⟨Advance.refl s, fun _ r hr => by cases hr⟩
  | cons reading rest ih =>
    cases reading with
    | cut => exact ⟨Advance.refl s, fun _ r hr => by cases hr⟩
    | raised e => exact Advance.refl s
    | line text =>
      rw [processRecords]
      split
      · next hblank =>
        rw [contents_readable_blank hblank]
        exact ih
      · next hblank =>
        rw [contents_readable_line hblank, wp_bind]
        refine wp_post processRecord_spec fun n s₁ h₁ => ?_
        rw [wp_bind]
        refine wp_mono ih (fun count s₂ h₂ => ?_) (fun _ _ h => h₁.1.trans h)
        rw [wp_pure]
        refine ⟨h₁.1.trans h₂.1, fun hdry r hr => ?_⟩
        rcases List.mem_cons.mp hr with rfl | hr
        · exact (h₁.2 hdry).advance hdry h₂.1
        · exact h₂.2 hdry r hr

theorem processFile_spec (f : ExportFile) :
    wp (processFile config sources (sqlHandler dest config) schema f)
      (fun _ t => Advance config s t ∧ (config.dryRun = false →
        FileDone dest sources schema t.trace (held t) f))
      (fun _ t => Advance config s t) s := by
  rw [processFile]
  cases hdata : schema.get? f.table with
  | none => exact Advance.refl s
  | some data =>
    rw [wp_bind, wp_note, wp_bind]
    have h₁ : Advance config s (s.push (.processing f.file f.table f.unixNano)) := advance_push trivial
    refine wp_mono ((advance_exceptOsError (advance_outside _)).wp _) (fun lines s₂ h₂ => ?_)
      (fun _ _ h => h₁.trans h)
    rw [wp_bind, wp_note, wp_ensure]
    have h₃ := (h₁.trans h₂).trans (advance_push (o := .opened f.file lines) trivial)
    have hopened : Obs.opened f.file lines ∈ (s₂.push (.opened f.file lines)).trace :=
      List.mem_append_right _ (List.mem_singleton_self _)
    have hclose : Within (Advance config)
        (outside (sources.closeDecoder f.file) : RunProg ImportBuffer W ImportObs Unit) :=
      advance_outside _
    refine wp_mono (processRecords_spec lines) (fun n s₄ h₄ => ?_) (fun e s₄ h₄ => ?_)
    · refine wp_mono (hclose.wp s₄) (fun _ s₅ h₅ => ?_)
        (fun _ _ h => (h₃.trans h₄.1).trans h)
      refine ⟨(h₃.trans h₄.1).trans h₅, fun hdry => ?_⟩
      refine ⟨data, lines, hdata, (h₄.1.trans h₅).mem hopened, fun r hr => ?_⟩
      exact (h₄.2 hdry r hr).advance hdry h₅
    · refine wp_mono (hclose.wp s₄) (fun _ _ h => ?_) (fun _ _ h => ?_)
      · exact (h₃.trans h₄).trans h
      · exact (h₃.trans h₄).trans h

/-- The loop over the files of a table. -/
theorem processFiles_spec (files : List ExportFile) :
    wp (sumOver (processFile config sources (sqlHandler dest config) schema) files)
      (fun _ t => Advance config s t ∧ (config.dryRun = false →
        ∀ f ∈ files, FileDone dest sources schema t.trace (held t) f))
      (fun _ t => Advance config s t) s := by
  induction files generalizing s with
  | nil => exact ⟨Advance.refl s, fun _ f hf => by cases hf⟩
  | cons f rest ih =>
    rw [sumOver, wp_bind]
    refine wp_post (processFile_spec f) fun n s₁ h₁ => ?_
    rw [wp_bind]
    refine wp_mono ih (fun total s₂ h₂ => ?_) (fun _ _ h => h₁.1.trans h)
    refine ⟨h₁.1.trans h₂.1, fun hdry g hg => ?_⟩
    rcases List.mem_cons.mp hg with rfl | hg
    · exact (h₁.2 hdry).advance hdry h₂.1
    · exact h₂.2 hdry g hg

end Records

/-! ## The marker -/

section Marker

variable (dest : Destination W) (sources : Sources W) (config : ImporterConfig)

/-- Every record of the files of the table was handed over, but for what a validator
rejected and for files that could not be read to their end. -/
def Delivered (t : List (Obs ImportObs)) (table : String) : Prop :=
  ∃ schema files, .listed schema files ∈ t ∧
    ∀ file ∈ files, ∀ unixNano, sources.parseCrdbExportFile file = some (table, unixNano) →
      ∃ data lines, schema.get? table = some data ∧ .opened file lines ∈ t ∧
        (.cut ∉ lines → ∀ record ∈ contents lines, .rejected file record ∉ t →
          ∃ sql, statement dest sources.json data table record = .ok sql ∧ sql.1 ∈ handed t)

/-- What a run has done when it writes a key. -/
def Allowed (pre : List (Obs ImportObs)) (o : Obs ImportObs) : Prop :=
  ∀ key, o = .setKey key → ∃ table, key = progressKey config.runId table ∧
    (config.dryRun = false → Delivered dest sources pre table) ∧
    (config.dryRun = true → handed pre = [])

/-- Between two tables. -/
structure Between (schema : Dict String Schema) (files : List String) (s : SqlRun W) : Prop where
  guarded : Guarded (Allowed dest sources config) s.trace
  listed : .listed schema files ∈ s.trace
  dry : config.dryRun = true → handed s.trace = []

end Marker

section Marker

variable {dest : Destination W} {sources : Sources W} {config : ImporterConfig}
  {schema : Dict String Schema} {files : List String} {s t : SqlRun W}

theorem Advance.guarded (h : Advance config s t)
    (hs : Guarded (Allowed dest sources config) s.trace) :
    Guarded (Allowed dest sources config) t.trace := by
  obtain ⟨es, hes, hkey⟩ := h.trace
  rw [hes]
  refine hs.append fun o ho pre key hsame => ?_
  rw [hsame] at ho
  exact absurd ho (hkey key)

theorem Between.advance (h : Advance config s t) (hs : Between dest sources config schema files s) :
    Between dest sources config schema files t where
  guarded := h.guarded hs.guarded
  listed := h.mem hs.listed
  dry hdry := (h.dry hdry).trans (hs.dry hdry)

theorem mem_exportFiles {file table : String} {unixNano : Int} (hfile : file ∈ files)
    (hparse : sources.parseCrdbExportFile file = some (table, unixNano)) (htable : table ∈ config.tables) :
    ⟨file, table, unixNano⟩ ∈ exportFiles config sources files := by
  refine List.mem_filterMap.mpr ⟨file, hfile, ?_⟩
  rw [hparse]
  exact if_pos htable

theorem exportFiles_table {f : ExportFile} (hf : f ∈ exportFiles config sources files) :
    f.table ∈ config.tables := by
  obtain ⟨file, _, hf⟩ := List.mem_filterMap.mp hf
  cases hparse : sources.parseCrdbExportFile file with
  | none => rw [hparse] at hf; cases hf
  | some parsed =>
    rw [hparse] at hf
    obtain ⟨htable, hf⟩ := Option.ite_none_right_eq_some.mp hf
    rw [← Option.some.inj hf]
    exact htable

theorem exportFiles_parse {f : ExportFile}
    (hf : f ∈ exportFiles config sources files) :
    sources.parseCrdbExportFile f.file = some (f.table, f.unixNano) := by
  obtain ⟨file, _, hf⟩ := List.mem_filterMap.mp hf
  cases hparse : sources.parseCrdbExportFile file with
  | none => rw [hparse] at hf; cases hf
  | some parsed =>
    rw [hparse] at hf
    obtain ⟨_, hf⟩ := Option.ite_none_right_eq_some.mp hf
    rw [← Option.some.inj hf]
    exact hparse

/-- With an empty buffer, what is settled was handed over. -/
theorem delivered_of_done {table : String} (htable : table ∈ config.tables)
    (hlisted : .listed schema files ∈ s.trace) (hbuffer : s.vars.texts = [])
    (hdone : ∀ f ∈ exportFiles config sources files, f.table = table →
      FileDone dest sources schema s.trace (held s) f) : Delivered dest sources s.trace table := by
  refine ⟨schema, files, hlisted, fun file hfile unixNano hparse => ?_⟩
  obtain ⟨data, lines, hdata, hopened, hrecords⟩ :=
    hdone _ (mem_exportFiles hfile hparse htable) rfl
  refine ⟨data, lines, hdata, hopened, fun hwhole record hrecord hrejected => ?_⟩
  rw [← readable_eq_self hwhole] at hrecord
  rcases hrecords record hrecord with hmem | ⟨sql, hsql, hmem⟩
  · exact absurd hmem hrejected
  · rw [held, hbuffer, List.append_nil] at hmem
    exact ⟨sql, hsql, hmem⟩

theorem writeProgressMarker_spec {table : String} (htable : table ∈ config.tables)
    (hs : Between dest sources config schema files s) (hbuffer : s.vars.texts = [])
    (hdone : config.dryRun = false → ∀ f ∈ exportFiles config sources files, f.table = table →
      FileDone dest sources schema s.trace (held s) f) :
    wp (writeProgressMarker config sources table : RunProg ImportBuffer W ImportObs Unit)
      (fun _ t => Between dest sources config schema files t)
      (fun _ t => Guarded (Allowed dest sources config) t.trace) s := by
  rw [writeProgressMarker]
  split
  · have hallowed : Allowed dest sources config s.trace (.setKey (progressKey config.runId table)) := by
      intro key hkey
      cases hkey
      refine ⟨table, rfl, fun hdry => ?_, hs.dry⟩
      exact delivered_of_done htable hs.listed hbuffer (hdone hdry)
    have hguarded := hs.guarded.snoc hallowed
    rw [wp_bind, wp_note]
    refine wp_outside (fun _ w _ => ?_) (fun _ w _ => hguarded)
    refine ⟨hguarded, List.mem_append_left _ hs.listed, fun hdry => ?_⟩
    show handed (s.trace ++ _) = []
    rw [handed_append, hs.dry hdry]
    rfl
  · exact hs

theorem importTable_spec {table : String} (htable : table ∈ config.tables)
    (hs : Between dest sources config schema files s) :
    wp (importTable config sources (sqlHandler dest config) schema
        (groupBy ExportFile.table (exportFiles config sources files)) table)
      (fun _ t => Between dest sources config schema files t)
      (fun _ t => Guarded (Allowed dest sources config) t.trace) s := by
  rw [importTable, groupOf_groupBy, wp_bind]
  refine wp_mono (processFiles_spec _) (fun total s₁ h₁ => ?_) (fun _ _ h => h.guarded hs.guarded)
  show wp (embed .handler (flushImported dest config) >>= fun _ => _) _ _ s₁
  rw [wp_bind, wp_embed]
  refine wp_mono (wp_and (keeps_flushImported.wp _) flushImported_empty) (fun _ u hu => ?_)
    (fun _ u hu => (h₁.1.trans (advance_recorded hu.1)).guarded hs.guarded)
  -- The flush has emptied the buffer, so what the files settled was handed over.
  have hflush : Advance config s₁ (recorded s₁ u) := advance_recorded hu.1
  rw [wp_bind]
  refine wp_post (writeProgressMarker_spec htable (hs.advance (h₁.1.trans hflush)) hu.2
    fun hdry f hf hft => ?_) fun _ t ht => ht
  exact (h₁.2 hdry f (List.mem_filter.mpr ⟨hf, decide_eq_true hft⟩)).advance hdry hflush

theorem mem_orderedTables {table : String}
    (h : table ∈ orderedTables config (groupBy ExportFile.table (exportFiles config sources files))) :
    table ∈ config.tables := by
  rcases List.mem_append.mp h with h | h
  · obtain ⟨f, hf, rfl⟩ := (mem_keys_groupBy _ _ _).mp h
    exact exportFiles_table hf
  · exact (List.mem_filter.mp h).1

theorem runRecovery_spec (hs : Between dest sources config schema files s) :
    wp (runRecovery config sources (sqlHandler dest config) schema files)
      (fun _ t => Guarded (Allowed dest sources config) t.trace)
      (fun _ t => Guarded (Allowed dest sources config) t.trace) s := by
  rw [runRecovery, wp_bind]
  refine wp_post (wp_sumOver
    (fun rest t => (∀ table ∈ rest, table ∈ config.tables) ∧ Between dest sources config schema files t)
    (fun table rest t ht => ?_) _ s ⟨fun _ => mem_orderedTables, hs⟩) fun total s₁ h₁ => ?_
  · refine wp_post (importTable_spec (ht.1 table List.mem_cons_self) ht.2) fun _ u hu => ?_
    exact ⟨fun table' h => ht.1 table' (List.mem_cons_of_mem _ h), hu⟩
  · rw [wp_bind]
    refine wp_mono (advance_completed.wp s₁) (fun _ t ht => ?_) (fun _ t ht => ht.guarded h₁.2.guarded)
    exact ht.guarded h₁.2.guarded

theorem replayInOrder_spec (hs : Between dest sources config schema files s) :
    wp (replayInOrder config sources (sqlHandler dest config) schema files)
      (fun _ t => Guarded (Allowed dest sources config) t.trace)
      (fun _ t => Guarded (Allowed dest sources config) t.trace) s := by
  rw [replayInOrder, wp_bind]
  refine wp_mono (processFiles_spec _) (fun total s₁ h₁ => ?_) (fun _ _ h => h.guarded hs.guarded)
  rw [wp_bind]
  refine wp_mono (advance_completed.wp s₁) (fun _ t ht => ?_) (fun _ t ht => ?_)
  · exact (h₁.1.trans ht).guarded hs.guarded
  · exact (h₁.1.trans ht).guarded hs.guarded

theorem replay_spec (hs : Between dest sources config schema files s) :
    wp (replay config sources (sqlHandler dest config) schema files)
      (fun _ t => Guarded (Allowed dest sources config) t.trace)
      (fun _ t => Guarded (Allowed dest sources config) t.trace) s := by
  rw [replay]
  split
  · exact runRecovery_spec hs
  · exact replayInOrder_spec hs

theorem advance_prepare : Within (Advance config)
    (prepare config (sqlHandler dest config) schema : RunProg ImportBuffer W ImportObs Unit) := by
  rw [prepare]
  split
  · exact within_pure Advance.refl ()
  · exact advance_embed (keeps_createDatasource schema)

theorem run_spec (hs : s.trace = []) :
    wp (run config sources (sqlHandler dest config))
      (fun _ t => Guarded (Allowed dest sources config) t.trace)
      (fun _ t => Guarded (Allowed dest sources config) t.trace) s := by
  have hstart : Guarded (Allowed dest sources config) s.trace := hs ▸ guarded_nil
  have hschema : Within (Advance config) (tryExcept (outside sources.getLatestSchema)
      fun e => raise (.exception s!"unable to get schema: {e.str}") :
        RunProg ImportBuffer W ImportObs (Dict String Schema)) :=
    within_tryExcept (advance_outside _) (fun _ => within_raise Advance.refl _) Advance.refl
      Advance.trans
  rw [run, wp_bind]
  refine wp_mono (hschema.wp s) (fun schema s₁ h₁ => ?_) (fun _ _ h => h.guarded hstart)
  rw [wp_bind]
  refine wp_mono (advance_prepare.wp s₁) (fun _ s₂ h₂ => ?_)
    (fun _ _ h => (h₁.trans h).guarded hstart)
  split
  · exact (h₁.trans h₂).guarded hstart
  · rw [wp_bind]
    refine wp_mono ((advance_exceptOsError (advance_outside _)).wp s₂) (fun files s₃ h₃ => ?_)
      (fun _ _ h => ((h₁.trans h₂).trans h).guarded hstart)
    have h₄ := ((h₁.trans h₂).trans h₃).trans (advance_push (o := .listed schema files) trivial)
    have hbetween : Between dest sources config schema files (s₃.push (.listed schema files)) := by
      refine ⟨h₄.guarded hstart, List.mem_append_right _ (List.mem_singleton_self _), fun hdry => ?_⟩
      rw [h₄.dry hdry, hs]
      rfl
    rw [wp_bind, wp_note, wp_bind]
    exact wp_post (replay_spec hbetween) fun _ _ h => h

/-- No run writes a key that it is not allowed to, however it ends. -/
theorem runImport_guarded (hs : s.trace = []) :
    Guarded (Allowed dest sources config) (runImport dest config sources s).2.trace := by
  refine wp_state (I := fun t : SqlRun W => Guarded (Allowed dest sources config) t.trace) ?_
  have hstart : Guarded (Allowed dest sources config) s.trace := hs ▸ guarded_nil
  rw [runImport, wp_bind]
  refine wp_outside (fun _ w _ => ?_) (fun _ w _ => hstart)
  rw [wp_bind, wp_assign, wp_ensure]
  refine wp_mono (run_spec hs) (fun _ t ht => ?_) (fun _ t ht => ?_)
  · exact wp_outside (fun _ _ _ => ht) (fun _ _ _ => ht)
  · exact wp_outside (fun _ _ _ => ht) (fun _ _ _ => ht)

end Marker

end Importer
end Eds
