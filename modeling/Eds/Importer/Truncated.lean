import Eds.Importer.Decoder
import Eds.Importer.Resume

/-!
# Files that cannot be read to their end

The loop over a decoder takes a read that fails with an `OSError` or an `EOFError`, as one of a
truncated file does, for the end of the file: the records behind it are not missed, and the table is
marked as done.  Of what comes before it no record is left out.

A read that fails in another way leaves `process_file` with its exception, and the run writes no
marker for the table of such a file.
-/

namespace Eds
namespace Importer

open Effects Effects.Prog Effects.Traced Collections

variable {H W E : Type}

/-! ## The loop over a decoder -/

section Loop

variable (config : ImporterConfig) (sources : Sources W) (handler : Handler H W E)

/-- The body of the loop behind the call of `decode_raw`. -/
def importRecord (file table : String) (data : Schema) (unixNano : Int) (raw : String) :
    RunProg H W E Nat := do
  let o ← exceptValueError (getObject sources.json raw) fun m => s!"unable to get object: {m}"
  let event := syntheticEvent sources.json (sources.eventId file) table data unixNano raw o
  match ← validated config sources event with
  | none => do
    note (.rejected file raw)
    pure 0
  | some event => do
    note (.offered file raw)
    embed .handler (handler.importEvent event data)
    pure 1

/-- `while dec.more():`, with fuel. -/
def decoderLoop (file table : String) (data : Schema) (unixNano : Int) :
    Nat → NDJSONDecoder → RunProg H W E Nat
  | 0, _ => pure 0
  | fuel + 1, d =>
    match d.more with
    | (.error e, _) => raise e
    | (.ok false, _) => pure 0
    | (.ok true, d) => do
      let raw ← exceptValueError (d.decodeRaw sources.json).1 fun m => s!"unable to decode JSON: {m}"
      let n ← importRecord config sources handler file table data unixNano raw
      let count ← decoderLoop file table data unixNano fuel (d.decodeRaw sources.json).2
      pure (n + count)

end Loop

section Loops

variable {config : ImporterConfig} {sources : Sources W} {handler : Handler H W E} {file table : String}
  {data : Schema} {unixNano : Int}

/-- The loop over a decoder is the loop over the lines. -/
theorem decoderLoop_eq (lines : List Reading) {fuel : Nat} (hfuel : lines.length < fuel) (count : Nat) :
    decoderLoop config sources handler file table data unixNano fuel ⟨lines, none, false, count⟩ =
      processRecords config sources handler file table data unixNano lines := by
  induction lines generalizing fuel count with
  | nil =>
    obtain ⟨fuel, rfl⟩ := Nat.exists_eq_add_one_of_ne_zero (Nat.ne_zero_of_lt hfuel)
    rfl
  | cons reading rest ih =>
    obtain ⟨fuel, rfl⟩ := Nat.exists_eq_add_one_of_ne_zero (Nat.ne_zero_of_lt hfuel)
    have hrest : rest.length < fuel := Nat.lt_of_succ_lt_succ hfuel
    cases reading with
    | cut => rfl
    | raised e => rfl
    | line text =>
      by_cases hblank : strip text = ""
      · have hmore : NDJSONDecoder.more ⟨.line text :: rest, none, false, count⟩ =
            NDJSONDecoder.more ⟨rest, none, false, count⟩ := by
          rw [NDJSONDecoder.more, NDJSONDecoder.fill, if_pos hblank]
          rfl
        rw [processRecords, if_pos hblank, ← ih (hrest.trans (Nat.lt_succ_self fuel)) count,
          decoderLoop, decoderLoop, hmore]
      · have hmore : NDJSONDecoder.more ⟨.line text :: rest, none, false, count⟩ =
            (.ok true, ⟨rest, some (strip text), true, count⟩) := by
          rw [NDJSONDecoder.more, NDJSONDecoder.fill, if_neg hblank]
          rfl
        rw [processRecords, if_neg hblank, decoderLoop, hmore, processRecord]
        have hpeeked : NDJSONDecoder.more ⟨rest, some (strip text), true, count⟩ =
            (.ok true, ⟨rest, some (strip text), true, count⟩) := rfl
        cases hjson : sources.json.checkJson (strip text) with
        | ok u =>
          have hdecode : NDJSONDecoder.decodeRaw sources.json ⟨rest, some (strip text), true, count⟩ =
              (.ok (strip text), ⟨rest, none, false, count + 1⟩) := by
            simp only [NDJSONDecoder.decodeRaw, hpeeked, hjson]
          dsimp only
          rw [hdecode, ← ih hrest (count + 1)]
          rfl
        | error e =>
          have hdecode : NDJSONDecoder.decodeRaw sources.json ⟨rest, some (strip text), true, count⟩ =
              (.error e, ⟨rest, none, false, count⟩) := by
            simp only [NDJSONDecoder.decodeRaw, hpeeked, hjson]
          dsimp only
          rw [hdecode]
          cases e <;> rfl

/-- A read that fails with an `OSError` or an `EOFError` ends the loop like the end of the file. -/
theorem processRecords_readable (lines : List Reading) :
    processRecords config sources handler file table data unixNano lines =
      processRecords config sources handler file table data unixNano (readable lines) := by
  induction lines with
  | nil => rfl
  | cons reading rest ih =>
    cases reading with
    | cut => rfl
    | raised e => rfl
    | line text =>
      rw [readable, List.takeWhile_cons_of_pos rfl, processRecords, processRecords, ih]
      rfl

end Loops

/-! ## One file -/

/-- The records of a file that were offered to the handler or rejected by the validator. -/
def handled (file : String) (t : List (Obs E)) : List String :=
  t.filterMap fun o => match o with
    | .offered file' record | .rejected file' record => if file' = file then some record else none
    | _ => none

/-- What the trace shows of the records of a file. -/
def Importing (file : String) : Obs E → Prop
  | .offered file' _ | .rejected file' _ => file' = file
  | .handler _ => True
  | _ => False

/-- A read fails in another way before any that counts as the end of the file. -/
def Broken (lines : List Reading) : Prop := ∃ e, .raised e ∈ readable lines

theorem handled_append (file : String) (t u : List (Obs E)) :
    handled file (t ++ u) = handled file t ++ handled file u := List.filterMap_append

theorem handled_handler (file : String) (t : List E) : handled file (t.map Obs.handler) = [] := by
  refine List.filterMap_eq_nil_iff.mpr fun o ho => ?_
  obtain ⟨b, -, rfl⟩ := List.mem_map.mp ho
  rfl

theorem broken_line {text : String} {rest : List Reading} :
    Broken (.line text :: rest) ↔ Broken rest := by
  rw [Broken, readable, List.takeWhile_cons_of_pos rfl]
  refine exists_congr fun e => ?_
  rw [List.mem_cons, or_iff_right (by rintro ⟨⟩)]
  rfl

theorem not_broken_nil : ¬ Broken [] := fun ⟨_, h⟩ => List.not_mem_nil h

theorem not_broken_cut (rest : List Reading) : ¬ Broken (.cut :: rest) :=
  fun ⟨_, h⟩ => List.not_mem_nil h

section Files

variable {config : ImporterConfig} {sources : Sources W} {handler : Handler H W E} {file table : String}
  {data : Schema} {unixNano : Int} {schema : Dict String Schema} {s : RunState H W E}

theorem importing_processRecord {raw : String} : Within (Adds (Importing file))
    (processRecord config sources handler file table data unixNano raw) := by
  rw [processRecord]
  refine (within_exceptValueError Adds.refl).bind (fun _ => ?_) Adds.trans
  refine (within_exceptValueError Adds.refl).bind (fun o => ?_) Adds.trans
  refine (within_validated (adds_outside _) Adds.refl Adds.trans).bind (fun r => ?_) Adds.trans
  have hrejected : Importing file (.rejected file raw : Obs E) := rfl
  have hoffered : Importing file (.offered file raw : Obs E) := rfl
  cases r with
  | none => exact (adds_note hrejected).bind (fun _ => within_pure Adds.refl 0) Adds.trans
  | some event =>
    refine (adds_note hoffered).bind (fun _ => ?_) Adds.trans
    exact (adds_embed (fun _ => trivial) _).bind (fun _ => within_pure Adds.refl 1) Adds.trans

theorem importing_processRecords (lines : List Reading) : Within (Adds (Importing file))
    (processRecords config sources handler file table data unixNano lines) := by
  induction lines with
  | nil => exact within_pure Adds.refl 0
  | cons reading rest ih =>
    cases reading with
    | cut => exact within_pure Adds.refl 0
    | raised e => exact within_raise Adds.refl e
    | line text =>
      rw [processRecords]
      split
      · exact ih
      · refine importing_processRecord.bind (fun n => ?_) Adds.trans
        exact ih.bind (fun count => within_pure Adds.refl _) Adds.trans

theorem processRecord_handled {raw : String} :
    wp (processRecord config sources handler file table data unixNano raw)
      (fun _ t => (∃ es, t.trace = s.trace ++ es ∧ handled file es = [raw]) ∧
        sources.json.checkJson raw = .ok ())
      (fun _ _ => True) s := by
  rw [processRecord, wp_bind]
  refine wp_mono exceptValueError_spec (fun _ s₁ h₁ => ?_) (fun _ _ _ => trivial)
  obtain ⟨rfl, hjson⟩ := h₁
  rw [wp_bind]
  refine wp_mono exceptValueError_spec (fun o s₂ h₂ => ?_) (fun _ _ _ => trivial)
  obtain ⟨rfl, -⟩ := h₂
  rw [wp_bind]
  have hquiet : Within Quiet (validated config sources (syntheticEvent sources.json
      (sources.eventId file) table data unixNano raw o) : RunProg H W E (Option ImportedEvent)) :=
    within_validated (quiet_outside _) Quiet.refl Quiet.trans
  refine wp_mono (hquiet.wp s₂) (fun r s₃ h₃ => ?_) (fun _ _ _ => trivial)
  cases r with
  | none =>
    rw [wp_bind, wp_note, wp_pure, push_trace, h₃.2]
    exact ⟨⟨_, rfl, by simp [handled]⟩, hjson⟩
  | some event =>
    rw [wp_bind, wp_note, wp_bind, wp_embed]
    refine wp_any (fun _ u => ?_) (fun _ _ => trivial)
    rw [wp_pure]
    refine ⟨⟨.offered file raw :: u.trace.map .handler, ?_, ?_⟩, hjson⟩
    · rw [push_trace, h₃.2, List.append_assoc]
      rfl
    · rw [← List.singleton_append, handled_append, handled_handler]
      simp [handled]

theorem processRecords_handled (lines : List Reading) :
    wp (processRecords config sources handler file table data unixNano lines)
      (fun _ t => (∃ es, t.trace = s.trace ++ es ∧ handled file es = contents (readable lines)) ∧
        ¬ Broken lines ∧ ∀ record ∈ contents (readable lines), sources.json.checkJson record = .ok ())
      (fun _ _ => True) s := by
  induction lines generalizing s with
  | nil => exact ⟨⟨[], (List.append_nil _).symm, rfl⟩, not_broken_nil, fun _ h => absurd h List.not_mem_nil⟩
  | cons reading rest ih =>
    cases reading with
    | cut =>
      exact ⟨⟨[], (List.append_nil _).symm, rfl⟩, not_broken_cut rest,
        fun _ h => absurd h List.not_mem_nil⟩
    | raised e => exact trivial
    | line text =>
      rw [broken_line, processRecords]
      split
      · next hblank =>
        rw [contents_readable_blank hblank]
        exact ih
      · next hblank =>
        rw [contents_readable_line hblank, wp_bind]
        refine wp_post processRecord_handled fun n s₁ h₁ => ?_
        obtain ⟨⟨es, hes, hrecord⟩, hjson⟩ := h₁
        rw [wp_bind]
        refine wp_post ih fun count s₂ h₂ => ?_
        obtain ⟨⟨es', hes', hrest⟩, hbroken, hall⟩ := h₂
        rw [wp_pure]
        refine ⟨⟨es ++ es', ?_, ?_⟩, hbroken, List.forall_mem_cons.mpr ⟨hjson, hall⟩⟩
        · rw [hes', hes, List.append_assoc]
        · rw [handled_append, hrecord, hrest]
          rfl

/-- What the trace shows of a call of `process_file` that returns: the records before the end of
the file, or before the read that counts as it, each of them JSON, once and in order. -/
def Complete (sources : Sources W) (f : ExportFile) (es : List (Obs E)) : Prop :=
  ∃ lines rest, es = .processing f.file f.table f.unixNano :: .opened f.file lines :: rest ∧
    (∀ o ∈ rest, Importing f.file o) ∧ ¬ Broken lines ∧
    handled f.file rest = contents (readable lines) ∧
    ∀ record ∈ contents (readable lines), sources.json.checkJson record = .ok ()

/-- What the trace shows of a call that does not. -/
def OfFile (file : String) : Obs E → Prop
  | .opened file' _ => file' = file
  | .listed _ _ | .setKey _ => False
  | _ => True

theorem Importing.ofFile {o : Obs E} (h : Importing file o) : OfFile file o := by
  cases o with
  | opened file' lines => exact h.elim
  | listed schema files => exact h.elim
  | setKey key => exact h.elim
  | _ => exact trivial

theorem processFile_complete (f : ExportFile) :
    wp (processFile config sources handler schema f)
      (fun _ t => ∃ es, t.trace = s.trace ++ es ∧ Complete sources f es)
      (fun _ t => Adds (OfFile f.file) s t) s := by
  rw [processFile]
  cases schema.get? f.table with
  | none => exact Adds.refl s
  | some data =>
    rw [wp_bind, wp_note, wp_bind]
    have hopen : Within Quiet (exceptOsError (outside (sources.openDecoder f.file))
        (fun e => s!"unable to create JSON decoder for {f.file}: {e.str}") :
          RunProg H W E (List Reading)) :=
      within_exceptOsError (quiet_outside _) Quiet.refl Quiet.trans
    have hstart : Adds (OfFile f.file) s (s.push (.processing f.file f.table f.unixNano)) :=
      Adds.one rfl trivial
    refine wp_mono (hopen.wp _) (fun lines s₁ h₁ => ?_) (fun _ t ht => ?_)
    · rw [wp_bind, wp_note, wp_ensure]
      have hopened := (hstart.trans (Adds.nothing h₁.2)).trans
        (Adds.one (t := s₁.push (.opened f.file lines)) rfl rfl)
      have himport : Within (Adds (Importing f.file)) (processRecords config sources handler f.file
        f.table data f.unixNano lines) := importing_processRecords lines
      refine wp_mono (wp_and (himport.wp _) (processRecords_handled lines)) (fun n s₂ h₂ => ?_)
        (fun e s₂ h₂ => ?_)
      · obtain ⟨⟨es', hes', himporting⟩, ⟨es, hes, hrecords⟩, hbroken, hall⟩ := h₂
        obtain rfl : es' = es := List.append_cancel_left (hes'.symm.trans hes)
        refine wp_outside (fun _ w _ => ?_) (fun _ w _ => ?_)
        · refine ⟨.processing f.file f.table f.unixNano :: .opened f.file lines :: es', ?_, ?_⟩
          · rw [inWorld_trace, hes, push_trace, h₁.2, push_trace, List.append_assoc, List.append_assoc]
            rfl
          · exact ⟨lines, es', rfl, himporting, hbroken, hrecords, hall⟩
        · exact hopened.trans ⟨es', hes', fun o ho => (himporting o ho).ofFile⟩
      · obtain ⟨es, hes, himporting⟩ := h₂.1
        have hfailed : Adds (OfFile f.file) s s₂ :=
          hopened.trans ⟨es, hes, fun o ho => (himporting o ho).ofFile⟩
        exact wp_outside (fun _ _ _ => hfailed) (fun _ _ _ => hfailed)
    · exact hstart.trans (Adds.nothing ht.2)

end Files

/-! ## A run -/

section Runs

variable (config : ImporterConfig) (sources : Sources W)

/-- No marker is written for the table of a broken file. -/
def Spared (t : List (Obs E)) : Prop :=
  ∀ file lines, .opened file lines ∈ t → Broken lines → ∀ table unixNano,
    sources.parseCrdbExportFile file = some (table, unixNano) →
      .setKey (progressKey config.runId table) ∉ t

/-- While no file was broken, with the markers of the tables that are done. -/
structure Safe (done : List String) (t : List (Obs E)) : Prop where
  sound : ∀ file lines, .opened file lines ∈ t → ¬ Broken lines
  keys : ∀ key, .setKey key ∈ t → ∃ table ∈ done, key = progressKey config.runId table

/-- Neither a file nor a marker. -/
def Silent : Obs E → Prop
  | .opened _ _ | .setKey _ => False
  | _ => True

end Runs

section Runs

variable {config : ImporterConfig} {sources : Sources W} {handler : Handler H W E}
  {schema : Dict String Schema} {done : List String} {table : String} {s t : RunState H W E}

theorem Safe.spared {t : List (Obs E)} (h : Safe config done t) : Spared config sources t :=
  fun file lines hopened hbroken => absurd hbroken (h.sound file lines hopened)

theorem Safe.append {t es : List (Obs E)} (h : Safe config done t)
    (hsound : ∀ file lines, .opened file lines ∈ es → ¬ Broken lines)
    (hkeys : ∀ key, .setKey key ∈ es → ∃ table ∈ done, key = progressKey config.runId table) :
    Safe config done (t ++ es) where
  sound file lines hmem := (List.mem_append.mp hmem).elim (h.sound file lines) (hsound file lines)
  keys key hmem := (List.mem_append.mp hmem).elim (h.keys key) (hkeys key)

theorem Safe.mono {t : List (Obs E)} {more : List String} (h : Safe config done t) :
    Safe config (done ++ more) t where
  sound := h.sound
  keys key hmem := by
    obtain ⟨table, htable, hkey⟩ := h.keys key hmem
    exact ⟨table, List.mem_append_left _ htable, hkey⟩

theorem Safe.silent (h : Safe config done s.trace) (hst : Adds Silent s t) : Safe config done t.trace := by
  obtain ⟨es, hes, hsilent⟩ := hst
  rw [hes]
  exact h.append (fun _ _ hmem => (hsilent _ hmem).elim) fun _ hmem => (hsilent _ hmem).elim

/-- A step that neither opens a file nor writes a marker. -/
theorem safe_silent {α : Type} {p : RunProg H W E α} (hp : Within (Adds Silent) p)
    (h : Safe config done s.trace) :
    wp p (fun _ t => Safe config done t.trace) (fun _ t => Spared config sources t.trace) s :=
  wp_mono (hp.wp s) (fun _ _ ht => h.silent ht) (fun _ _ ht => (h.silent ht).spared)

theorem processFile_safe {f : ExportFile}
    (hparse : sources.parseCrdbExportFile f.file = some (f.table, f.unixNano)) (hfresh : f.table ∉ done)
    (h : Safe config done s.trace) :
    wp (processFile config sources handler schema f) (fun _ t => Safe config done t.trace)
      (fun _ t => Spared config sources t.trace) s := by
  refine wp_mono (processFile_complete f) (fun _ t ht => ?_) (fun _ t ht => ?_)
  · obtain ⟨_, hes, lines, rest, rfl, himporting, hbroken, -, -⟩ := ht
    rw [hes]
    refine h.append (fun file' lines' hmem => ?_) (fun key hmem => ?_)
    · rcases List.mem_cons.mp hmem with heq | hmem
      · cases heq
      · rcases List.mem_cons.mp hmem with heq | hmem
        · cases heq
          exact hbroken
        · exact (himporting _ hmem).elim
    · rcases List.mem_cons.mp hmem with heq | hmem
      · cases heq
      · rcases List.mem_cons.mp hmem with heq | hmem
        · cases heq
        · exact (himporting _ hmem).elim
  · -- a broken file is the one at hand, whose table is not done
    obtain ⟨es, hes, hfile⟩ := ht
    intro file lines hopened hbroken table unixNano htable hkey
    rw [hes] at hopened hkey
    rcases List.mem_append.mp hopened with hmem | hmem
    · exact h.sound file lines hmem hbroken
    · have hsame : file = f.file := hfile _ hmem
      rw [hsame, hparse] at htable
      obtain ⟨rfl, -⟩ := Prod.mk.inj (Option.some.inj htable)
      rcases List.mem_append.mp hkey with hkey | hkey
      · obtain ⟨table', hdone, heq⟩ := h.keys _ hkey
        rw [progressKey_injective heq] at hfresh
        exact hfresh hdone
      · exact (hfile _ hkey).elim

theorem processFiles_safe {files : List ExportFile}
    (hfiles : ∀ f ∈ files, sources.parseCrdbExportFile f.file = some (f.table, f.unixNano) ∧
      f.table ∉ done) (h : Safe config done s.trace) :
    wp (sumOver (processFile config sources handler schema) files)
      (fun _ t => Safe config done t.trace) (fun _ t => Spared config sources t.trace) s := by
  refine wp_post (wp_sumOver (fun rest t => (∀ f ∈ rest, f ∈ files) ∧ Safe config done t.trace)
    (fun f rest t ht => ?_) files s ⟨fun _ hf => hf, h⟩) fun _ _ ht => ht.2
  obtain ⟨hparse, hfresh⟩ := hfiles f (ht.1 f List.mem_cons_self)
  refine wp_post (processFile_safe hparse hfresh ht.2) fun _ u hu => ?_
  exact ⟨fun g hg => ht.1 g (List.mem_cons_of_mem _ hg), hu⟩

theorem writeProgressMarker_safe (table : String) (h : Safe config done s.trace) :
    wp (writeProgressMarker config sources table : RunProg H W E Unit)
      (fun _ t => Safe config (done ++ [table]) t.trace)
      (fun _ t => Spared config sources t.trace) s := by
  rw [writeProgressMarker]
  split
  · rw [wp_bind, wp_note]
    have hmarked : Safe config (done ++ [table])
        (s.push (.setKey (progressKey config.runId table))).trace := by
      refine h.mono.append (fun _ _ hmem => ?_) (fun key hmem => ?_)
      · cases List.mem_singleton.mp hmem
      · cases List.mem_singleton.mp hmem
        exact ⟨table, List.mem_append_right _ (List.mem_singleton_self _), rfl⟩
    exact wp_outside (fun _ _ _ => hmarked) (fun _ _ _ => hmarked.spared)
  · exact h.mono

theorem silent_embed {α : Type} (p : Prog Exn (Traced H W E) α) :
    Within (Adds Silent) (embed .handler p : RunProg H W E α) := adds_embed (fun _ => trivial) p

theorem importTable_safe {listed : List String}
    (hfresh : ∀ f ∈ exportFiles config sources listed, f.table = table → table ∉ done)
    (h : Safe config done s.trace) :
    wp (importTable config sources handler schema
        (groupBy ExportFile.table (exportFiles config sources listed)) table)
      (fun _ t => Safe config (done ++ [table]) t.trace)
      (fun _ t => Spared config sources t.trace) s := by
  rw [importTable, groupOf_groupBy, wp_bind]
  refine wp_post (processFiles_safe (fun f hf => ?_) h) fun total t ht => ?_
  · obtain ⟨hf, htable⟩ := List.mem_filter.mp hf
    have hsame : f.table = table := of_decide_eq_true htable
    exact ⟨exportFiles_parse hf, hsame ▸ hfresh f hf hsame⟩
  · cases handler.flushImported with
    | none => exact ht.mono
    | some flush =>
      rw [wp_bind]
      refine wp_post (safe_silent (silent_embed flush) ht) fun _ u hu => ?_
      rw [wp_bind]
      exact wp_post (writeProgressMarker_safe table hu) fun _ v hv => hv

/-- A table with files comes once in the order of the replay. -/
theorem notMem_of_orderedTables {listed rest : List String} {f : ExportFile}
    (hf : f ∈ exportFiles config sources listed)
    (hsplit : orderedTables config (groupBy ExportFile.table (exportFiles config sources listed)) =
      done ++ f.table :: rest) : f.table ∉ done := by
  have hkey : f.table ∈ (groupBy ExportFile.table (exportFiles config sources listed)).map Prod.fst :=
    (mem_keys_groupBy _ _ _).mpr ⟨f, hf, rfl⟩
  have hother : f.table ∉ config.tables.filter fun t =>
      t ∉ (groupBy ExportFile.table (exportFiles config sources listed)).map Prod.fst := fun hmem =>
    of_decide_eq_true (List.mem_filter.mp hmem).2 hkey
  have hcount := congrArg (List.count f.table) hsplit
  rw [orderedTables, List.count_append, List.count_append, List.count_cons_self,
    List.count_eq_one_of_mem (keys_groupBy_nodup _ _) hkey, List.count_eq_zero.mpr hother] at hcount
  exact List.count_eq_zero.mp (by omega)

theorem runRecovery_safe (listed : List String) (h : Safe config [] s.trace) :
    wp (runRecovery config sources handler schema listed)
      (fun _ t => ∃ done, Safe config done t.trace) (fun _ t => Spared config sources t.trace) s := by
  rw [runRecovery, wp_bind]
  refine wp_post (wp_sumOver_done (fun done t => Safe config done t.trace)
    (fun done table rest t hsplit ht => ?_) h) fun total t ht => ?_
  · refine importTable_safe (fun f hf htable => ?_) ht
    subst htable
    exact notMem_of_orderedTables hf hsplit
  · rw [wp_bind]
    refine wp_post (safe_silent (silent_embed _) ht) fun _ u hu => ?_
    cases handler.flushImported with
    | some flush => exact ⟨_, hu⟩
    | none =>
      rw [wp_bind]
      refine wp_post (wp_each (fun (_ : List String) v => ∃ done, Safe config done v.trace)
        (fun table rest v hv => ?_) _ u ⟨_, hu⟩) fun _ v hv => wp_pure.mpr hv
      obtain ⟨done, hv⟩ := hv
      exact wp_post (writeProgressMarker_safe table hv) fun _ _ hw => ⟨_, hw⟩

theorem replayInOrder_safe (listed : List String) (h : Safe config [] s.trace) :
    wp (replayInOrder config sources handler schema listed)
      (fun _ t => ∃ done, Safe config done t.trace) (fun _ t => Spared config sources t.trace) s := by
  rw [replayInOrder, wp_bind]
  refine wp_post (processFiles_safe (fun f hf => ⟨exportFiles_parse hf, List.not_mem_nil⟩) h)
    fun total t ht => ?_
  rw [wp_bind]
  exact wp_post (safe_silent (silent_embed _) ht) fun _ _ hu => ⟨[], hu⟩

theorem run_safe (hs : s.trace = []) :
    wp (run config sources handler) (fun _ t => ∃ done, Safe config done t.trace)
      (fun _ t => Spared config sources t.trace) s := by
  have hstart : Safe config [] s.trace := by
    rw [hs]
    exact ⟨fun _ _ hmem => absurd hmem List.not_mem_nil, fun _ hmem => absurd hmem List.not_mem_nil⟩
  have hschema : Within (Adds Silent) (tryExcept (outside sources.getLatestSchema)
      fun e => raise (.exception s!"unable to get schema: {e.str}") :
        RunProg H W E (Dict String Schema)) :=
    within_tryExcept (adds_outside _) (fun _ => within_raise Adds.refl _) Adds.refl Adds.trans
  rw [run, wp_bind]
  refine wp_post (safe_silent hschema hstart) fun schema s₁ h₁ => ?_
  rw [wp_bind]
  have hprepare : Within (Adds Silent) (prepare config handler schema : RunProg H W E Unit) := by
    rw [prepare]
    split
    · exact within_pure Adds.refl ()
    · exact silent_embed _
  refine wp_post (safe_silent hprepare h₁) fun _ s₂ h₂ => ?_
  split
  · exact ⟨[], h₂⟩
  · have hlist : Within (Adds Silent) (exceptOsError (outside (sources.listDir config.dataDir))
        fun e => s!"unable to list files in directory: {e.str}" : RunProg H W E (List String)) :=
      within_exceptOsError (adds_outside _) Adds.refl Adds.trans
    rw [wp_bind]
    refine wp_post (safe_silent hlist h₂) fun files s₃ h₃ => ?_
    rw [wp_bind, wp_note, wp_bind]
    have h₄ : Safe config [] (s₃.push (.listed schema files)).trace :=
      h₃.silent (Adds.one rfl trivial)
    refine wp_post ?_ fun _ t ht => ht
    rw [replay]
    split
    · exact runRecovery_safe files h₄
    · exact replayInOrder_safe files h₄

end Runs

/-- A call of `process_file` that returns has imported every record before the end of the file or
before the read that counts as it, which is the same; and a run that meets a read failing in another
way before that raises, and writes no marker for the table of the file. -/
theorem file_imported_to_cut (config : ImporterConfig) (sources : Sources W) (handler : Handler H W E) :
    (∀ schema f s n t, processFile config sources handler schema f s = (.ok n, t) →
      ∃ es, t.trace = s.trace ++ es ∧ Complete sources f es) ∧
    (∀ file table data unixNano lines,
      processRecords config sources handler file table data unixNano lines =
        processRecords config sources handler file table data unixNano (readable lines)) ∧
    ∀ s, s.trace = [] → ∀ file lines, .opened file lines ∈ (run config sources handler s).2.trace →
      Broken lines → (∃ e, (run config sources handler s).1 = .error e) ∧
        ∀ table unixNano, sources.parseCrdbExportFile file = some (table, unixNano) →
          .setKey (progressKey config.runId table) ∉ (run config sources handler s).2.trace := by
  refine ⟨fun schema f s n t h => wp_ok (processFile_complete f) h,
    fun file table data unixNano => processRecords_readable, fun s hs file lines hopened hbroken => ?_⟩
  have hrun : wp (run config sources handler) (fun _ t => ∃ done, Safe config done t.trace)
      (fun _ t => Spared config sources t.trace) s := run_safe hs
  rcases wp_elim hrun with ⟨_, -, _, hsafe⟩ | ⟨e, he, hspared⟩
  · exact absurd hbroken (hsafe.sound file lines hopened)
  · exact ⟨⟨e, he⟩, hspared file lines hopened hbroken⟩

/-! ## One user, and another one -/

def otherRecord : String := "\x7b\"id\":\"u2\"\x7d"

/-- The export directory of one user, with a file of these readings. -/
def userReadings (lines : List Reading) : Sources Unit :=
  { oneUser with
    openDecoder _ := pure lines
    json :=
      { checkJson raw := if raw = userRecord ∨ raw = otherRecord then .ok ()
          else .error (.valueError "Expecting value")
        loads raw :=
          if raw = userRecord then .ok (.obj [("id", .str "u1")])
          else if raw = otherRecord then .ok (.obj [("id", .str "u2")])
          else .error (.valueError "Expecting value") } }

def runUser (lines : List Reading) : Except Exn Unit × RunState Drivers.ImportBuffer Unit Drivers.ImportObs :=
  run (userImport false) (userReadings lines) (Drivers.sqlHandler obliging (userImport false))
    ⟨Drivers.ImportBuffer.empty, (), []⟩

/-- A line that is not UTF-8 comes before the end. -/
def undecodable : List Reading := [.line userRecord, .raised (.valueError "invalid start byte")]

theorem file_imported_to_cut_user : (∃ e, (runUser undecodable).1 = .error e) ∧
    .setKey (progressKey "run" "user") ∉ (runUser undecodable).2.trace := by
  have hall := file_imported_to_cut (userImport false) (userReadings undecodable)
    (Drivers.sqlHandler obliging (userImport false))
  have hbroken : Broken undecodable := ⟨.valueError "invalid start byte", by decide +kernel⟩
  have hrun := hall.2.2 ⟨Drivers.ImportBuffer.empty, (), []⟩ rfl userFile undecodable
    (by decide +kernel) hbroken
  exact ⟨hrun.1, hrun.2 "user" 1728235829951000000 rfl⟩

/-- The compressed data of the file ends behind the first record. -/
def truncated : List Reading := [.line userRecord, .cut, .line otherRecord]

/-- The run of a truncated file returns and marks the table, without the record that is missing. -/
theorem truncated_marked :
    (runUser truncated).1 = .ok () ∧ .setKey (progressKey "run" "user") ∈ (runUser truncated).2.trace ∧
      .opened userFile truncated ∈ (runUser truncated).2.trace ∧
      otherRecord ∈ contents truncated ∧
      (userReadings truncated).json.checkJson otherRecord = .ok () ∧
      otherRecord ∉ handled userFile (runUser truncated).2.trace := by
  decide +kernel

end Importer
end Eds
