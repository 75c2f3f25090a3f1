import Eds.Importer.Resume

/-!
# What the batches of an import hold

Every record that is offered to the handler becomes one SQL text, and the texts of
the batches, one batch after the other, are the texts of the records in the order
they were offered.  The CREATE TABLE texts of the configured tables come before them.

The invariant is an equation: the texts already executed and the texts in the buffer
are together the texts of the records.  At a marker the buffer is empty, and a batch
that is refused is the whole buffer.
-/

namespace Eds
namespace Importer

open Effects Effects.Prog Effects.Traced Collections Drivers

variable {W : Type}

/-! ## The two sides of the equation -/

/-- The texts of every batch that the executor took. -/
def batches (t : List (Obs ImportObs)) : List String :=
  t.flatMap fun o => match o with
    | .handler (.executed texts) => texts
    | .handler (.logged texts) => texts
    | _ => []

section Definitions

variable (dest : Destination W) (sources : Sources W) (config : ImporterConfig)
  (schema : Dict String Schema)

/-- The SQL of a record of a file, if there is one. -/
def sqlOf (file raw : String) : Option String := do
  let (table, _) ← sources.parseCrdbExportFile file
  let data ← schema.get? table
  let sql ← (statement dest sources.json data table raw).toOption
  pure sql.1

/-- One entry for each record that was offered. -/
def generated (t : List (Obs ImportObs)) : List (Option String) :=
  t.filterMap fun o => match o with
    | .offered file raw => some (sqlOf dest sources schema file raw)
    | _ => none

def createTexts (tables : List String) : List String :=
  tables.filterMap fun table => (schema.get? table).map dest.createTableSql

/-- The CREATE TABLE texts of a run. -/
def creations : List String :=
  if config.noDelete then [] else createTexts dest schema config.tables

/-- With what is still to be executed, the batches are `made` and then one text for each
record that was offered. -/
def Balanced (made pending : List String) (t : List (Obs ImportObs)) : Prop :=
  ∃ sqls, generated dest sources schema t = sqls.map some ∧ batches t ++ pending = made ++ sqls

/-- What holds at a marker and at a batch that is refused.  A CREATE TABLE that is refused
ends the run before anything is offered. -/
def Kept (pre : List (Obs ImportObs)) : Obs ImportObs → Prop
  | .setKey _ => Balanced dest sources schema (creations dest config schema) [] pre
  | .handler (.refused texts) =>
    Balanced dest sources schema (creations dest config schema) texts pre ∨
      (generated dest sources schema pre = [] ∧ batches pre ++ texts <+: creations dest config schema)
  | _ => True

/-- Between two steps of the replay. -/
structure Tally (s : SqlRun W) : Prop where
  kept : Guarded (Kept dest sources config schema) s.trace
  balanced : Balanced dest sources schema (creations dest config schema) s.vars.texts s.trace

end Definitions

theorem batches_append (t u : List (Obs ImportObs)) : batches (t ++ u) = batches t ++ batches u :=
  List.flatMap_append

theorem batches_batch (config : ImporterConfig) (texts : List String) :
    batches [.handler (batch config texts)] = texts := by
  rw [batch]
  cases config.dryRun with
  | false => exact List.append_nil texts
  | true => exact List.append_nil texts

section Tally

variable {dest : Destination W} {sources : Sources W} {config : ImporterConfig}
  {schema : Dict String Schema} {s t : SqlRun W}

theorem generated_append (t u : List (Obs ImportObs)) :
    generated dest sources schema (t ++ u) =
      generated dest sources schema t ++ generated dest sources schema u := List.filterMap_append

/-- An event on neither side of the equation. -/
def Neutral : Obs ImportObs → Prop
  | .offered _ _ | .handler (.executed _) | .handler (.logged _) => False
  | _ => True

theorem Balanced.push {made pending : List String} {t : List (Obs ImportObs)} {o : Obs ImportObs}
    (ho : Neutral o) (h : Balanced dest sources schema made pending t) :
    Balanced dest sources schema made pending (t ++ [o]) := by
  have hsides : generated dest sources schema [o] = [] ∧ batches [o] = [] := by
    cases o with
    | offered file raw => exact ho.elim
    | handler o =>
      cases o with
      | refused texts => exact ⟨rfl, rfl⟩
      | _ => exact ho.elim
    | _ => exact ⟨rfl, rfl⟩
  obtain ⟨sqls, hgenerated, hbatches⟩ := h
  refine ⟨sqls, ?_, ?_⟩
  · rw [generated_append, hsides.1, List.append_nil, hgenerated]
  · rw [batches_append, hsides.2, List.append_nil, hbatches]

/-- A record is offered, and its text goes to the end of what is pending. -/
theorem Balanced.offer {made pending : List String} {t : List (Obs ImportObs)}
    {file raw sql : String} (hsql : sqlOf dest sources schema file raw = some sql)
    (h : Balanced dest sources schema made pending t) :
    Balanced dest sources schema made (pending ++ [sql]) (t ++ [.offered file raw]) := by
  obtain ⟨sqls, hgenerated, hbatches⟩ := h
  have hone : generated dest sources schema [.offered file raw] = [some sql] := by
    rw [← hsql]
    rfl
  refine ⟨sqls ++ [sql], ?_, ?_⟩
  · rw [generated_append, hgenerated, hone, List.map_append]
    rfl
  · rw [batches_append, ← List.append_assoc made, ← hbatches]
    show batches t ++ [] ++ (pending ++ [sql]) = _
    rw [List.append_nil, List.append_assoc]

/-- What was pending is executed. -/
theorem Balanced.execute {made pending : List String} {t : List (Obs ImportObs)}
    (h : Balanced dest sources schema made pending t) :
    Balanced dest sources schema made [] (t ++ [.handler (batch config pending)]) := by
  obtain ⟨sqls, hgenerated, hbatches⟩ := h
  refine ⟨sqls, ?_, ?_⟩
  · rw [generated_append, hgenerated]
    exact List.append_nil _
  · rw [batches_append, batches_batch, List.append_nil, hbatches]

theorem Tally.push (h : Tally dest sources config schema s) {o : Obs ImportObs} (ho : Neutral o)
    (hkept : Kept dest sources config schema s.trace o) :
    Tally dest sources config schema (s.push o) :=
  ⟨h.kept.snoc hkept, h.balanced.push ho⟩

theorem Tally.quiet (h : Tally dest sources config schema s) (hquiet : Quiet s t) :
    Tally dest sources config schema t where
  kept := by
    rw [hquiet.2]
    exact h.kept
  balanced := by
    rw [hquiet.1, hquiet.2]
    exact h.balanced

end Tally

/-! ## The replay keeps the balance -/

section Replay

variable {dest : Destination W} {sources : Sources W} {config : ImporterConfig}
  {schema : Dict String Schema} {s : SqlRun W}

theorem Tally.refused (h : Tally dest sources config schema s) :
    Guarded (Kept dest sources config schema)
      (s.trace ++ [.handler (.refused s.vars.texts)]) :=
  h.kept.snoc (Or.inl h.balanced)

theorem kept_batch (pre : List (Obs ImportObs)) (texts : List String) :
    Kept dest sources config schema pre (.handler (batch config texts)) := by
  rw [batch]
  cases config.dryRun with
  | false => exact trivial
  | true => exact trivial

theorem importEvent_tally {event : ImportedEvent} {data : Schema} {file raw : String}
    (hs : Tally dest sources config schema s)
    (hsql : ∀ sql,
      dest.driver.toSqlFromObject dest.str data event.table (event.object.getD []) = .ok sql →
        sqlOf dest sources schema file raw = some sql.1) :
    wp (embed .handler (importEvent dest config event data) : RunProg ImportBuffer W ImportObs Unit)
      (fun _ t => Tally dest sources config schema t)
      (fun _ t => Guarded (Kept dest sources config schema) t.trace)
      (s.push (.offered file raw)) := by
  have hkept : Guarded (Kept dest sources config schema) (s.trace ++ [.offered file raw]) :=
    hs.kept.snoc trivial
  rw [wp_embed]
  refine wp_mono importEvent_spec (fun _ u hu => ?_) (fun _ u hu => ?_)
  · obtain ⟨sql, hok, hu⟩ := hu
    have hoffer := hs.balanced.offer (hsql sql hok)
    rw [← ImportBuffer.texts_add] at hoffer
    rcases hu with ⟨hvars, htrace⟩ | ⟨hvars, htrace⟩
    · rw [htrace]
      refine ⟨by rw [List.map_nil, List.append_nil]; exact hkept, ?_⟩
      rw [hvars, List.map_nil, List.append_nil]
      exact hoffer
    · rw [htrace]
      refine ⟨hkept.snoc (kept_batch _ _), ?_⟩
      rw [hvars]
      exact hoffer.execute
  · rcases hu with ⟨_, htrace⟩ | ⟨sql, hok, _, htrace⟩
    · rw [htrace, List.map_nil, List.append_nil]
      exact hkept
    · have hoffer := hs.balanced.offer (hsql sql hok)
      rw [← ImportBuffer.texts_add] at hoffer
      rw [htrace]
      exact hkept.snoc (Or.inl hoffer)

section Files

variable {file table : String} {unixNano : Int} {data : Schema}

theorem processRecord_tally {raw : String} (hs : Tally dest sources config schema s)
    (hparse : sources.parseCrdbExportFile file = some (table, unixNano))
    (hdata : schema.get? table = some data) :
    wp (processRecord config sources (sqlHandler dest config) file table data unixNano raw)
      (fun _ t => Tally dest sources config schema t)
      (fun _ t => Guarded (Kept dest sources config schema) t.trace) s := by
  rw [processRecord, wp_bind]
  refine wp_mono exceptValueError_spec (fun _ s₁ h₁ => ?_) (fun _ t ht => ht ▸ hs.kept)
  rw [h₁.1, wp_bind]
  refine wp_mono exceptValueError_spec (fun o s₂ h₂ => ?_) (fun _ t ht => ht ▸ hs.kept)
  obtain ⟨rfl, ho⟩ := h₂
  rw [wp_bind]
  have hquiet : Within Quiet
      (validated config sources (syntheticEvent sources.json (sources.eventId file) table data
        unixNano raw o) : RunProg ImportBuffer W ImportObs (Option ImportedEvent)) :=
    within_validated (quiet_outside _) Quiet.refl Quiet.trans
  refine wp_mono (wp_and (hquiet.wp s₂) validated_event) (fun r s₃ h₃ => ?_)
    (fun _ _ h => (hs.quiet h.1).kept)
  have hs₃ := hs.quiet h₃.1
  cases r with
  | none => exact hs₃.push trivial trivial
  | some event =>
    obtain ⟨htable, hobject⟩ := h₃.2 event rfl
    rw [wp_bind, wp_note, wp_bind]
    refine wp_post (importEvent_tally hs₃ fun sql hok => ?_) fun _ _ h => h
    -- The event that is imported may carry a validated path, which the SQL does not read.
    rw [htable, hobject] at hok
    have hstatement : statement dest sources.json data table raw = .ok sql := by
      rw [statement, ho]
      exact hok
    rw [sqlOf, hparse]
    show (schema.get? table).bind _ = _
    rw [hdata, Option.bind_some, hstatement]
    rfl

theorem processRecords_tally (hs : Tally dest sources config schema s)
    (hparse : sources.parseCrdbExportFile file = some (table, unixNano))
    (hdata : schema.get? table = some data) (lines : List Reading) :
    wp (processRecords config sources (sqlHandler dest config) file table data unixNano lines)
      (fun _ t => Tally dest sources config schema t)
      (fun _ t => Guarded (Kept dest sources config schema) t.trace) s := by
  induction lines generalizing s with
  | nil => exact hs
  | cons reading rest ih =>
    cases reading with
    | cut => exact hs
    | raised e => exact hs.kept
    | line text =>
      rw [processRecords]
      split
      · exact ih hs
      · rw [wp_bind]
        refine wp_post (processRecord_tally hs hparse hdata) fun n s₁ h₁ => ?_
        rw [wp_bind]
        exact wp_post (ih h₁) fun _ _ h => h

theorem processFile_tally (hs : Tally dest sources config schema s) (f : ExportFile)
    (hparse : sources.parseCrdbExportFile f.file = some (f.table, f.unixNano)) :
    wp (processFile config sources (sqlHandler dest config) schema f)
      (fun _ t => Tally dest sources config schema t)
      (fun _ t => Guarded (Kept dest sources config schema) t.trace) s := by
  rw [processFile]
  cases hdata : schema.get? f.table with
  | none => exact hs.kept
  | some data =>
    rw [wp_bind, wp_note, wp_bind]
    have hs₁ : Tally dest sources config schema (s.push (.processing f.file f.table f.unixNano)) :=
      hs.push trivial trivial
    have hopen : Within Quiet (exceptOsError (outside (sources.openDecoder f.file))
        (fun e => s!"unable to create JSON decoder for {f.file}: {e.str}") :
          RunProg ImportBuffer W ImportObs (List Reading)) :=
      within_exceptOsError (quiet_outside _) Quiet.refl Quiet.trans
    have hclose : Within Quiet
        (outside (sources.closeDecoder f.file) : RunProg ImportBuffer W ImportObs Unit) :=
      quiet_outside _
    refine wp_mono (hopen.wp _) (fun lines s₂ h₂ => ?_) (fun _ _ h => (hs₁.quiet h).kept)
    rw [wp_bind, wp_note, wp_ensure]
    have hs₃ : Tally dest sources config schema (s₂.push (.opened f.file lines)) :=
      (hs₁.quiet h₂).push trivial trivial
    refine wp_mono (processRecords_tally hs₃ hparse hdata lines) (fun n s₄ h₄ => ?_)
      (fun e s₄ h₄ => ?_)
    · exact wp_mono (hclose.wp s₄) (fun _ _ h => h₄.quiet h) (fun _ _ h => (h₄.quiet h).kept)
    · refine wp_mono (hclose.wp s₄) (fun _ _ h => ?_) (fun _ _ h => ?_)
      · rw [h.2]
        exact h₄
      · rw [h.2]
        exact h₄

/-- The loop over some of the files. -/
theorem processFiles_tally (hs : Tally dest sources config schema s) {files : List ExportFile}
    (hfiles : ∀ f ∈ files, sources.parseCrdbExportFile f.file = some (f.table, f.unixNano)) :
    wp (sumOver (processFile config sources (sqlHandler dest config) schema) files)
      (fun _ t => Tally dest sources config schema t)
      (fun _ t => Guarded (Kept dest sources config schema) t.trace) s := by
  refine wp_post (wp_sumOver (fun rest t => (∀ f ∈ rest, f ∈ files) ∧ Tally dest sources config schema t)
    (fun f rest t ht => ?_) files s ⟨fun _ hf => hf, hs⟩) fun _ _ h => h.2
  have hf := hfiles f (ht.1 f List.mem_cons_self)
  refine wp_post (processFile_tally ht.2 f hf) fun _ u hu => ⟨fun g hg => ?_, hu⟩
  exact ht.1 g (List.mem_cons_of_mem _ hg)

end Files

/-- After the flush at the end of a table nothing is pending. -/
theorem flushImported_tally (hs : Tally dest sources config schema s) :
    wp (embed .handler (flushImported dest config) : RunProg ImportBuffer W ImportObs Unit)
      (fun _ t => Tally dest sources config schema t ∧ t.vars.texts = [])
      (fun _ t => Guarded (Kept dest sources config schema) t.trace) s := by
  rw [wp_embed]
  refine wp_mono (wp_and flushImported_spec flushImported_empty) (fun _ u hu => ?_) (fun _ u hu => ?_)
  · refine ⟨?_, hu.2⟩
    rcases hu.1 with ⟨hvars, htrace⟩ | ⟨_, hvars, htrace⟩
    · rw [htrace]
      refine ⟨hs.kept.snoc (kept_batch _ _), ?_⟩
      rw [hvars]
      exact hs.balanced.execute
    · rw [htrace, hvars]
      exact hs.quiet ⟨rfl, List.append_nil _⟩
  · rw [hu.1.2]
    exact hs.refused

/-- The end of a run executes what is pending, and leaves it in the buffer. -/
theorem importCompleted_tally (hs : Tally dest sources config schema s) :
    wp (embed .handler (importCompleted dest config) : RunProg ImportBuffer W ImportObs Unit)
      (fun _ t => Guarded (Kept dest sources config schema) t.trace ∧
        Balanced dest sources schema (creations dest config schema) [] t.trace)
      (fun _ t => Guarded (Kept dest sources config schema) t.trace) s := by
  rw [wp_embed]
  refine wp_mono importCompleted_spec (fun _ u hu => ?_) (fun _ u hu => ?_)
  · rcases hu.2 with htrace | ⟨hsize, htrace⟩
    · rw [htrace]
      exact ⟨hs.kept.snoc (kept_batch _ _), hs.balanced.execute⟩
    · have hbalanced := hs.balanced
      rw [ImportBuffer.texts_eq_nil hsize] at hbalanced
      rw [htrace, List.map_nil, List.append_nil]
      exact ⟨hs.kept, hbalanced⟩
  · rw [hu.2]
    exact hs.refused

theorem writeProgressMarker_tally (hs : Tally dest sources config schema s)
    (hbuffer : s.vars.texts = []) (table : String) :
    wp (writeProgressMarker config sources table : RunProg ImportBuffer W ImportObs Unit)
      (fun _ t => Tally dest sources config schema t)
      (fun _ t => Guarded (Kept dest sources config schema) t.trace) s := by
  rw [writeProgressMarker]
  split
  · have hmarker : Kept dest sources config schema s.trace
        (.setKey (progressKey config.runId table)) := by
      have hbalanced := hs.balanced
      rw [hbuffer] at hbalanced
      exact hbalanced
    have hpush := hs.push (o := .setKey (progressKey config.runId table)) trivial hmarker
    rw [wp_bind, wp_note]
    exact wp_outside (fun _ w _ => hpush.quiet ⟨rfl, rfl⟩) (fun _ w _ => hpush.kept)
  · exact hs

theorem importTable_tally (hs : Tally dest sources config schema s) (files : List String)
    (table : String) :
    wp (importTable config sources (sqlHandler dest config) schema
        (groupBy ExportFile.table (exportFiles config sources files)) table)
      (fun _ t => Tally dest sources config schema t)
      (fun _ t => Guarded (Kept dest sources config schema) t.trace) s := by
  rw [importTable, groupOf_groupBy, wp_bind]
  refine wp_post (processFiles_tally hs fun f hf => exportFiles_parse (List.mem_of_mem_filter hf))
    fun total s₁ h₁ => ?_
  show wp (embed .handler (flushImported dest config) >>= fun _ => _) _ _ s₁
  rw [wp_bind]
  refine wp_post (flushImported_tally h₁) fun _ s₂ h₂ => ?_
  rw [wp_bind]
  exact wp_post (writeProgressMarker_tally h₂.1 h₂.2 table) fun _ _ h => h

theorem replay_tally (hs : Tally dest sources config schema s) (files : List String) :
    wp (replay config sources (sqlHandler dest config) schema files)
      (fun _ t => Guarded (Kept dest sources config schema) t.trace ∧
        Balanced dest sources schema (creations dest config schema) [] t.trace)
      (fun _ t => Guarded (Kept dest sources config schema) t.trace) s := by
  rw [replay]
  split
  · rw [runRecovery, wp_bind]
    refine wp_post (wp_sumOver (fun _ t => Tally dest sources config schema t)
      (fun table _ t ht => importTable_tally ht files table) _ s hs) fun total s₁ h₁ => ?_
    rw [wp_bind]
    exact wp_post (importCompleted_tally h₁) fun _ _ h => h
  · rw [replayInOrder, wp_bind]
    refine wp_post (processFiles_tally hs fun f hf => exportFiles_parse hf) fun total s₁ h₁ => ?_
    rw [wp_bind]
    exact wp_post (importCompleted_tally h₁) fun _ _ h => h

end Replay

/-! ## The tables come first -/

section Create

variable {dest : Destination W} {sources : Sources W} {config : ImporterConfig}
  {schema : Dict String Schema}

/-- One batch for each text. -/
def oneByOne (config : ImporterConfig) (texts : List String) : List ImportObs :=
  texts.map fun text => batch config [text]

theorem batches_oneByOne (texts : List String) :
    batches ((oneByOne config texts).map .handler) = texts := by
  induction texts with
  | nil => rfl
  | cons text rest ih =>
    show batches ([.handler (batch config [text])] ++ (oneByOne config rest).map .handler) = _
    rw [batches_append, batches_batch, ih]
    rfl

theorem generated_oneByOne (texts : List String) :
    generated dest sources schema ((oneByOne config texts).map .handler) = [] := by
  refine List.filterMap_eq_nil_iff.mpr fun o ho => ?_
  obtain ⟨b, _, rfl⟩ := List.mem_map.mp ho
  rfl

theorem balanced_oneByOne (texts : List String) :
    Balanced dest sources schema texts [] ((oneByOne config texts).map .handler) :=
  ⟨[], generated_oneByOne texts, by rw [batches_oneByOne]⟩

theorem kept_oneByOne (texts : List String) :
    Guarded (Kept dest sources config schema) ((oneByOne config texts).map .handler) := by
  refine guarded_nil.append fun o ho pre => ?_
  obtain ⟨b, hb, rfl⟩ := List.mem_map.mp ho
  obtain ⟨text, _, rfl⟩ := List.mem_map.mp hb
  exact kept_batch pre [text]

/-- The loop over the tables: each CREATE TABLE is a batch of its own, and the first that is
refused, or the first table without a schema, ends it. -/
theorem createTables_spec (tables : List String) {s : Traced ImportBuffer W ImportObs} :
    wp (each (createTable dest config schema) tables)
      (fun _ t => t.vars = s.vars ∧
        t.trace = s.trace ++ oneByOne config (createTexts dest schema tables))
      (fun _ t => ∃ made refused, made ++ refused <+: createTexts dest schema tables ∧
        t.trace = s.trace ++ oneByOne config made ++ if refused = [] then [] else [.refused refused])
      s := by
  induction tables generalizing s with
  | nil => exact ⟨rfl, (List.append_nil _).symm⟩
  | cons table rest ih =>
    rw [each, wp_bind, createTable]
    cases hdata : schema.get? table with
    | none =>
      refine ⟨[], [], List.nil_prefix, ?_⟩
      rw [if_pos rfl, List.append_nil]
      exact (List.append_nil _).symm
    | some data =>
      have hcons : createTexts dest schema (table :: rest) =
          dest.createTableSql data :: createTexts dest schema rest :=
        List.filterMap_cons_some (by rw [hdata]; rfl)
      rw [hcons]
      refine wp_tryExcept (wp_mono executor_spec (fun _ t ht => ?_) (fun e t ht => ?_))
      · refine wp_mono ih (fun _ u hu => ?_) (fun _ u hu => ?_)
        · refine ⟨hu.1.trans ht.1, ?_⟩
          rw [hu.2, ht.2, List.append_assoc]
          rfl
        · obtain ⟨made, refused, hprefix, htrace⟩ := hu
          refine ⟨dest.createTableSql data :: made, refused, ?_, ?_⟩
          · exact (List.prefix_cons_inj _).mpr hprefix
          · rw [htrace, ht.2]
            simp [oneByOne]
      · have hrefused : ∃ made refused,
            made ++ refused <+: dest.createTableSql data :: createTexts dest schema rest ∧
              t.trace = s.trace ++ oneByOne config made ++
                if refused = [] then [] else [.refused refused] := by
          refine ⟨[], [dest.createTableSql data], ?_, ?_⟩
          · exact (List.prefix_cons_inj _).mpr List.nil_prefix
          · rw [ht.2, if_neg (List.cons_ne_nil _ _)]
            exact (congrArg (· ++ _) (List.append_nil s.trace)).symm
        exact ⟨fun _ => hrefused, fun _ => hrefused⟩

theorem prepare_tally {s : SqlRun W} (htrace : s.trace = []) (hvars : s.vars.texts = []) :
    wp (prepare config (sqlHandler dest config) schema : RunProg ImportBuffer W ImportObs Unit)
      (fun _ t => Tally dest sources config schema t ∧ t.vars.texts = [])
      (fun _ t => Guarded (Kept dest sources config schema) t.trace) s := by
  rw [prepare]
  split
  · next hkeep =>
    refine ⟨⟨htrace ▸ guarded_nil, ?_⟩, hvars⟩
    rw [htrace, hvars, creations, if_pos hkeep]
    exact ⟨[], rfl, rfl⟩
  · next hkeep =>
    have hmade : creations dest config schema = createTexts dest schema config.tables := if_neg hkeep
    show wp (embed .handler (createDatasource dest config schema)) _ _ s
    rw [wp_embed, htrace]
    refine wp_mono (createTables_spec config.tables) (fun _ u hu => ?_) (fun _ u hu => ?_)
    · have htexts : u.vars.texts = [] := by rw [hu.1, hvars]
      rw [hu.2]
      refine ⟨⟨kept_oneByOne _, ?_⟩, htexts⟩
      rw [htexts, hmade]
      exact balanced_oneByOne _
    · obtain ⟨made, refused, hprefix, hu⟩ := hu
      rw [hu, List.nil_append, List.nil_append, List.map_append]
      split
      · rw [List.map_nil, List.append_nil]
        exact kept_oneByOne made
      · refine (kept_oneByOne made).snoc (Or.inr ⟨generated_oneByOne made, ?_⟩)
        rw [batches_oneByOne, hmade]
        exact hprefix

/-- The whole run, from an empty buffer. -/
theorem run_tally {w : W} (hschema : (sources.getLatestSchema w).1 = .ok schema) :
    wp (run config sources (sqlHandler dest config))
      (fun _ t => Guarded (Kept dest sources config schema) t.trace ∧
        Balanced dest sources schema (creations dest config schema) [] t.trace)
      (fun _ t => Guarded (Kept dest sources config schema) t.trace)
      ⟨ImportBuffer.empty, w, []⟩ := by
  rw [run, wp_bind]
  refine wp_tryExcept (wp_outside (fun schema' w₁ hcall => ?_) (fun e w₁ hcall => ?_))
  · have hsame : schema' = schema := by
      rw [hcall] at hschema
      exact Except.ok.inj hschema
    rw [hsame, wp_bind]
    refine wp_post (prepare_tally rfl rfl) fun _ s₂ h₂ => ?_
    split
    · have hbalanced := h₂.1.balanced
      rw [h₂.2] at hbalanced
      exact ⟨h₂.1.kept, hbalanced⟩
    · rw [wp_bind]
      have hlist : Within Quiet (exceptOsError (outside (sources.listDir config.dataDir))
          (fun e => s!"unable to list files in directory: {e.str}") :
            RunProg ImportBuffer W ImportObs (List String)) :=
        within_exceptOsError (quiet_outside _) Quiet.refl Quiet.trans
      refine wp_mono (hlist.wp s₂) (fun files s₃ h₃ => ?_) (fun _ _ h => (h₂.1.quiet h).kept)
      rw [wp_bind, wp_note, wp_bind]
      have hs₄ : Tally dest sources config schema (s₃.push (.listed schema files)) :=
        (h₂.1.quiet h₃).push trivial trivial
      exact wp_post (replay_tally hs₄ files) fun _ _ h => h
  · rw [hcall] at hschema
    cases hschema

end Create

/-- A run that returns has executed the CREATE TABLE texts and then the SQL of every record
that was offered, each once and in order.  So it has by each marker that it writes, with
an empty buffer, and a batch that is refused is everything that was not executed yet. -/
theorem import_batches_lose_nothing (dest : Destination W) (sources : Sources W)
    (config : ImporterConfig) {w : W} {schema : Dict String Schema}
    (hschema : (sources.getLatestSchema w).1 = .ok schema) :
    let out := run config sources (sqlHandler dest config) ⟨ImportBuffer.empty, w, []⟩
    (out.1 = .ok () →
      Balanced dest sources schema (creations dest config schema) [] out.2.trace) ∧
    (∀ pre key post, out.2.trace = pre ++ .setKey key :: post →
      Balanced dest sources schema (creations dest config schema) [] pre) ∧
    (∀ u, (flushImported dest config u).1 = .ok () →
      (flushImported dest config u).2.vars.pending = []) ∧
    ∀ pre texts post, out.2.trace = pre ++ .handler (.refused texts) :: post →
      Balanced dest sources schema (creations dest config schema) texts pre ∨
        (generated dest sources schema pre = [] ∧
          batches pre ++ texts <+: creations dest config schema) := by
  have hrun : wp (run config sources (sqlHandler dest config))
      (fun _ t => Guarded (Kept dest sources config schema) t.trace ∧
        Balanced dest sources schema (creations dest config schema) [] t.trace)
      (fun _ t => Guarded (Kept dest sources config schema) t.trace)
      ⟨ImportBuffer.empty, w, []⟩ := run_tally hschema
  have hkept : Guarded (Kept dest sources config schema)
      (run config sources (sqlHandler dest config) ⟨ImportBuffer.empty, w, []⟩).2.trace :=
    wp_state (wp_mono hrun (fun _ _ h => h.1) (fun _ _ h => h))
  refine ⟨fun hok => ?_, fun pre key post hcut => hkept pre _ post hcut, fun u hok => ?_,
    fun pre texts post hcut => hkept pre _ post hcut⟩
  · rcases wp_elim hrun with ⟨_, _, h⟩ | ⟨e, he, _⟩
    · exact h.2
    · rw [he] at hok
      cases hok
  · have hflush : wp (flushImported dest config) (fun _ t => t.vars.texts = []) (fun _ _ => True) u :=
      flushImported_empty
    rcases wp_elim hflush with ⟨_, _, h⟩ | ⟨e, he, _⟩
    · exact List.map_eq_nil_iff.mp h
    · rw [he] at hok
      cases hok

/-- Two records of the users fill a batch. -/
def smallBatches : Destination Unit :=
  { obliging with
    createTableSql := fun data => "CREATE TABLE " ++ data.table ++ " (id TEXT, name TEXT);\n"
    maxBytes := 100 }

/-- What was executed, batch by batch. -/
def executions (t : List (Obs ImportObs)) : List (List String) :=
  t.filterMap fun o => match o with
    | .handler (.executed texts) => some texts
    | _ => none

/-- Two tables are created, and four records come in three batches. -/
theorem import_batches_lose_nothing_tables :
    (twoTables.getLatestSchema ()).1 = .ok tableSchemas ∧
    (let out := run tableImport twoTables (sqlHandler smallBatches tableImport)
      ⟨ImportBuffer.empty, (), []⟩
    (executions out.2.trace).map List.length = [1, 1, 2, 1, 1] ∧
    (generated smallBatches twoTables tableSchemas out.2.trace).length = 4 ∧
    Balanced smallBatches twoTables tableSchemas
      (creations smallBatches tableImport tableSchemas) [] out.2.trace ∧
    ∀ pre key post, out.2.trace = pre ++ .setKey key :: post →
      Balanced smallBatches twoTables tableSchemas
        (creations smallBatches tableImport tableSchemas) [] pre) := by
  have hall := import_batches_lose_nothing smallBatches twoTables tableImport
    (show (twoTables.getLatestSchema ()).1 = .ok tableSchemas from rfl)
  refine ⟨rfl, by decide +kernel, by decide +kernel, hall.1 (by decide +kernel), hall.2.1⟩

end Importer
end Eds
