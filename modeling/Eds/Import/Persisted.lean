import Eds.Import.Once
import Eds.Import.Command
import Eds.Collections.Traverse

/-!
# Which imported tables get a cutoff

The cutoffs the command saves are those the attempts downloaded.  An attempt that was
imported contributes one for each of its tables, unless none of them has a file:
then the download returns before it and drops what it had.
-/

namespace Eds
namespace Import

open Effects Effects.Prog Effects.Traced Collections

variable {W : Type}

/-- Some table among `tables` has a file. -/
def HasFile (job : ExportJobResponse) (tables : List String) : Prop :=
  ∃ entry ∈ subsetOf job tables, entry.2.urls ≠ []

def HasCutoff (infos : List TableExportInfo) (x : String) : Prop := ∃ info ∈ infos, info.table = x

theorem hasCutoff_iff {infos : List TableExportInfo} {x : String} :
    HasCutoff infos x ↔ x ∈ infos.map TableExportInfo.table := by
  rw [List.mem_map]
  rfl

theorem hasCutoff_append {infos infos' : List TableExportInfo} {x : String} :
    HasCutoff (infos ++ infos') x ↔ HasCutoff infos x ∨ HasCutoff infos' x := by
  simp only [hasCutoff_iff, List.map_append, List.mem_append]

/-! ## The download -/

section Download

variable {services : Services W} {fuel : Nat}

theorem tableInfo_table {files : Files W} {entry : String × ExportJobTableData}
    {info : TableExportInfo} (h : tableInfo files entry = .ok info) : info.table = entry.1 := by
  unfold tableInfo at h
  cases hnanos : exportNanos files entry.2 with
  | error e => simp [hnanos, bind, Except.bind] at h
  | ok nanos =>
    cases hdate : nanosToDt nanos with
    | error e => simp [hnanos, hdate, bind, Except.bind] at h
    | ok timestamp =>
      simp only [hnanos, hdate, bind, Except.bind, pure, Except.pure] at h
      cases h
      rfl

theorem mapM_tableInfo {files : Files W} {data : List (String × ExportJobTableData)}
    {infos : List TableExportInfo} (h : data.mapM (tableInfo files) = .ok infos) :
    infos.map TableExportInfo.table = data.map Prod.fst :=
  map_of_mapM h fun _ _ _ hinfo => tableInfo_table hinfo

/-- A download without any file returns nothing; any other returns the tables it was
given. -/
theorem bulkDownloadData_spec {files : Files W} {data : List (String × ExportJobTableData)}
    {directory : String} {w : W} :
    wp (bulkDownloadData files data directory)
      (fun infos _ =>
        ((∃ entry ∈ data, entry.2.urls ≠ []) → infos.map TableExportInfo.table = data.map Prod.fst) ∧
        ((∀ entry ∈ data, entry.2.urls = []) → infos = []))
      (fun _ _ => True) w := by
  unfold bulkDownloadData
  cases hinfos : data.mapM (tableInfo files) with
  | error e => trivial
  | ok infos =>
    dsimp only
    by_cases hnone : (data.flatMap fun entry => entry.2.urls) = []
    · rw [if_pos hnone, wp_pure]
      rw [List.flatMap_eq_nil_iff] at hnone
      refine ⟨?_, fun _ => rfl⟩
      intro h
      obtain ⟨entry, hmem, hurls⟩ := h
      exact absurd (hnone entry hmem) hurls
    · rw [if_neg hnone, wp_bind]
      refine wp_any (fun _ w => ?_) (fun _ _ => trivial)
      rw [wp_pure]
      refine ⟨fun _ => mapM_tableInfo hinfos, fun hall => ?_⟩
      exact absurd (List.flatMap_eq_nil_iff.mpr hall) hnone

theorem mem_subsetOf {job : ExportJobResponse} {tables : List String} {x : String} :
    x ∈ (subsetOf job tables).map Prod.fst ↔ x ∈ tables ∧ x ∈ job.tables.keys := by
  simp only [subsetOf, List.mem_map, List.mem_filter, decide_eq_true_eq, Dict.mem_keys]
  constructor
  · intro h
    obtain ⟨⟨y, td⟩, ⟨hmem, hy⟩, rfl⟩ := h
    exact ⟨hy, td, hmem⟩
  · intro h
    obtain ⟨hx, td, hmem⟩ := h
    exact ⟨(x, td), ⟨hmem, hx⟩, rfl⟩

/-- The cutoffs of an attempt are those of its tables, if one of them has a file. -/
theorem downloaded_cutoffs {job : ExportJobResponse} {tables : List String}
    {infos : List TableExportInfo} (h : (wire services fuel).Downloaded job tables infos)
    (hkeys : ∀ x ∈ tables, x ∈ job.tables.keys) (x : String) :
    HasCutoff infos x ↔ x ∈ tables ∧ HasFile job tables := by
  obtain ⟨jobId, w, dir, w', hrun⟩ := h
  have hspec : wp (downloadFn services job tables jobId)
      (fun r _ => HasCutoff r.1 x ↔ x ∈ tables ∧ HasFile job tables) (fun _ _ => True) w := by
    rw [downloadFn, wp_bind]
    refine wp_any (fun attemptDir w => ?_) (fun _ _ => trivial)
    rw [wp_bind]
    refine wp_tryExcept (wp_mono bulkDownloadData_spec (fun infos w hinfos => ?_)
      (fun _ _ _ => ⟨fun _ => trivial, fun _ => trivial⟩))
    rw [wp_bind]
    refine wp_any (fun stop w => ?_) (fun _ _ => trivial)
    cases stop with
    | true => trivial
    | false =>
      rw [if_neg Bool.false_ne_true, wp_pure]
      by_cases hfile : HasFile job tables
      · rw [hasCutoff_iff, hinfos.1 hfile, mem_subsetOf]
        exact ⟨fun hx => ⟨hx.1, hfile⟩, fun hx => ⟨hx.1, hkeys x hx.1⟩⟩
      · have hnone : ∀ entry ∈ subsetOf job tables, entry.2.urls = [] := fun entry hmem =>
          not_not.mp fun hurls => hfile ⟨entry, hmem, hurls⟩
        rw [hinfos.2 hnone]
        simp [HasCutoff, hfile]
  exact wp_ok hspec hrun

end Download

/-! ## The loop -/

structure Covered (stages : Stages W) (req : Request) (x : Point × View) : Prop where
  inHand : ∀ job infos, x.1 = .importing job infos →
    stages.Downloaded job (readyIn job x.2.imported) infos
  loaded : ∀ job tables, .loaded job tables ∈ x.2.trace → ∀ t ∈ tables,
    t ∈ x.2.imported ∧ (HasCutoff x.2.infoAll t ↔ HasFile job tables)
  cutoff : ∀ t, HasCutoff x.2.infoAll t → t ∈ x.2.imported
  imported : ∀ t ∈ x.2.imported, t ∈ req.completedTables ∨
    (∃ response, .flushed response t ∈ x.2.trace) ∨
    ∃ job tables, .loaded job tables ∈ x.2.trace ∧ t ∈ tables

/-- A move that loads nothing: it adds `es`, and what joins `imported` was flushed. -/
theorem Covered.extend {stages : Stages W} {req : Request} {p p' : Point} {v v' : View}
    (h : Covered stages req (p, v)) (es : List Event) (htrace : v'.trace = v.trace ++ es)
    (hes : ∀ job tables, .loaded job tables ∉ es) (hinfo : v'.infoAll = v.infoAll)
    (hold : ∀ t ∈ v.imported, t ∈ v'.imported)
    (hnew : ∀ t ∈ v'.imported, t ∈ v.imported ∨ ∃ response, .flushed response t ∈ es)
    (hin : ∀ job infos, p' = .importing job infos →
      stages.Downloaded job (readyIn job v'.imported) infos) :
    Covered stages req (p', v') := by
  refine ⟨hin, fun job tables hmem t ht => ?_, fun t ht => ?_, fun t ht => ?_⟩
  · have hmem : .loaded job tables ∈ v.trace ++ es := htrace ▸ hmem
    have hmem := (List.mem_append.mp hmem).resolve_right (hes job tables)
    show t ∈ v'.imported ∧ (HasCutoff v'.infoAll t ↔ _)
    rw [hinfo]
    exact ⟨hold t (h.loaded job tables hmem t ht).1, (h.loaded job tables hmem t ht).2⟩
  · have ht : HasCutoff v.infoAll t := hinfo ▸ ht
    exact hold t (h.cutoff t ht)
  · show _ ∨ (∃ response, .flushed response t ∈ v'.trace) ∨
      ∃ job tables, .loaded job tables ∈ v'.trace ∧ t ∈ tables
    rw [htrace]
    rcases hnew t ht with hmem | ⟨response, hmem⟩
    · rcases h.imported t hmem with hcompleted | ⟨response, hflushed⟩ | ⟨job, tables, hloaded, ht⟩
      · exact Or.inl hcompleted
      · exact Or.inr (Or.inl ⟨response, List.mem_append_left es hflushed⟩)
      · exact Or.inr (Or.inr ⟨job, tables, List.mem_append_left es hloaded, ht⟩)
    · exact Or.inr (Or.inl ⟨response, List.mem_append_right v.trace hmem⟩)

section Moves

variable {services : Services W} {fuel : Nat} {req : Request}

theorem covered_load {job : ExportJobResponse} {infos : List TableExportInfo} {v v' : View}
    (h : Covered (wire services fuel) req (.importing job infos, v))
    (himported : v'.imported = adjoin v.imported (readyIn job v.imported))
    (hinfo : v'.infoAll = v.infoAll ++ infos)
    (htrace : v'.trace = v.trace ++ [.loaded job (readyIn job v.imported)] ++
      [.imported (adjoin v.imported (readyIn job v.imported))]) :
    Covered (wire services fuel) req (.settled, v') := by
  have hready : ∀ t ∈ readyIn job v.imported, t ∈ job.tables.keys ∧ t ∉ v.imported := fun t ht =>
    mem_presentIn.mp (mem_readyIn.mp ht).1
  have hcutoff := downloaded_cutoffs (h.inHand job infos rfl) fun t ht => (hready t ht).1
  refine ⟨nofun, fun job' tables hmem t ht => ?_, fun t ht => ?_, fun t ht => ?_⟩
  · show t ∈ v'.imported ∧ (HasCutoff v'.infoAll t ↔ _)
    rw [himported, hinfo, mem_adjoin, hasCutoff_append, hcutoff]
    have hmem : .loaded job' tables ∈ v.trace ∨
        job' = job ∧ tables = readyIn job v.imported := by
      have hmem : Event.loaded job' tables ∈ v'.trace := hmem
      simpa [htrace] using hmem
    rcases hmem with hmem | ⟨rfl, rfl⟩
    · -- A table loaded before is not ready, so that the new cutoffs are not its own.
      have hloaded := h.loaded job' tables hmem t ht
      have hpast : t ∉ readyIn job v.imported := fun hr => (hready t hr).2 hloaded.1
      exact ⟨Or.inl hloaded.1, by rw [hloaded.2]; simp [hpast]⟩
    · have hfresh : ¬ HasCutoff v.infoAll t := fun hc => (hready t ht).2 (h.cutoff t hc)
      exact ⟨Or.inr ht, by simp [hfresh, ht]⟩
  · have ht : HasCutoff v.infoAll t ∨ HasCutoff infos t := by
      rw [← hasCutoff_append, ← hinfo]
      exact ht
    show t ∈ v'.imported
    rw [himported, mem_adjoin]
    exact ht.imp (h.cutoff t) fun hc => ((hcutoff t).mp hc).1
  · have ht : t ∈ v.imported ∨ t ∈ readyIn job v.imported := by
      rw [← mem_adjoin, ← himported]
      exact ht
    show _ ∨ (∃ response, .flushed response t ∈ v'.trace) ∨
      ∃ job tables, .loaded job tables ∈ v'.trace ∧ t ∈ tables
    rw [htrace, List.append_assoc]
    rcases ht with ht | ht
    · rcases h.imported t ht with hcompleted | ⟨response, hflushed⟩ | ⟨job, tables, hloaded, ht⟩
      · exact Or.inl hcompleted
      · exact Or.inr (Or.inl ⟨response, List.mem_append_left _ hflushed⟩)
      · exact Or.inr (Or.inr ⟨job, tables, List.mem_append_left _ hloaded, ht⟩)
    · exact Or.inr (Or.inr ⟨job, _, List.mem_append_right _ List.mem_cons_self, ht⟩)

theorem covered_move {x y : Point × View} (h : Move (wire services fuel) req x y)
    (hx : Covered (wire services fuel) req x) : Covered (wire services fuel) req y := by
  have hkeep : ∀ {p' : Point} {v' : View} (es : List Event), v'.trace = x.2.trace ++ es →
      (∀ job tables, .loaded job tables ∉ es) → v'.infoAll = x.2.infoAll →
      v'.imported = x.2.imported → (∀ job infos, p' ≠ .importing job infos) →
      Covered (wire services fuel) req (p', v') := by
    intro p' v' es htrace hes hinfo himported hp
    refine hx.extend es htrace hes hinfo (fun t ht => himported ▸ ht) (fun t ht => ?_)
      (fun job infos heq => absurd heq (hp job infos))
    exact Or.inl (himported ▸ ht)
  cases h with
  | start => exact hkeep [] (by simp) (by simp) rfl rfl nofun
  | @poll v job _ => exact hkeep [.polled job v.imported] rfl (by simp) rfl rfl nofun
  | postRaised e => exact hkeep [] (by simp) (by simp) rfl rfl nofun
  | downloadRaised e => exact hkeep [] (by simp) (by simp) rfl rfl nofun
  | @download job v infos hready hinfo =>
    refine hx.extend [.importing job (readyIn job v.imported)] rfl (by simp) rfl
      (fun t ht => ht) (fun t ht => Or.inl ht) (fun job' infos' heq => ?_)
    cases heq
    exact hinfo
  | importRaised e => exact hkeep [] (by simp) (by simp) rfl rfl nofun
  | load => exact covered_load hx rfl rfl rfl
  | skip _ => exact hkeep [] (by simp) (by simp) rfl rfl nofun
  | settle => exact hkeep [] (by simp) (by simp) rfl rfl nofun
  | giveUp e => exact hkeep [] (by simp) (by simp) rfl rfl nofun
  | @lookupRaised e v e' => exact hkeep [.failed e] rfl (by simp) rfl rfl nofun
  | @recover e v => exact hkeep [.failed e] rfl (by simp) rfl rfl nofun
  | @recoverFlushed e v scope flushed _ _ =>
    refine hx.extend (.failed e :: (flushed.map (.flushed v.response) ++
      [.imported (adjoin v.imported flushed)])) (by simp) (by simp) rfl
      (fun t ht => mem_adjoin.mpr (Or.inl ht)) (fun t ht => ?_) nofun
    refine (mem_adjoin.mp ht).imp id fun hflushed => ⟨v.response, ?_⟩
    simp [hflushed]
  | sleep n => exact hkeep [.slept n] rfl (by simp) rfl rfl nofun
  | abort e => exact hkeep [] (by simp) (by simp) rfl rfl nofun

theorem covered_initial (req : Request) (w : W) :
    Covered (wire services fuel) req (.between, view (RState.initial req w)) where
  inHand := nofun
  loaded _ _ hmem := absurd hmem List.not_mem_nil
  cutoff _ h := by
    obtain ⟨_, hmem, _⟩ := h
    exact absurd hmem List.not_mem_nil
  imported _ ht := Or.inl (List.mem_dedup.mp ht)

/-- What a run that returned has saved cutoffs for. -/
theorem run_covered {w : W} {r : RecoveryResult} {t : RState W}
    (h : runWithRecovery (wire services fuel) req (RState.initial req w) = (.ok r, t)) :
    (∀ job tables, .loaded job tables ∈ t.trace → ∀ x ∈ tables,
      (HasCutoff r.tableExportInfo x ↔ HasFile job tables)) ∧
    ∀ x ∈ r.imported, x ∈ req.completedTables ∨ (∃ response, .flushed response x ∈ t.trace) ∨
      ∃ job tables, .loaded job tables ∈ t.trace ∧ x ∈ tables := by
  have hrun : wp (runWithRecovery (wire services fuel) req) _ _ _ := runWithRecovery_path w
  obtain ⟨hpath, exhausted, _, rfl⟩ := wp_ok hrun h
  have hcovered := path_invariant covered_move hpath (covered_initial req w)
  exact ⟨fun job tables hmem x hx => (hcovered.loaded job tables hmem x hx).2, hcovered.imported⟩

end Moves

/-! ## The command -/

section Command

variable {services : Services W} {fuel : Nat} {args : Args} {s : CState W}

/-- The variable and the trace are untouched. -/
def Quiet (s t : CState W) : Prop := t.vars = s.vars ∧ t.trace = s.trace

theorem recordVersions_quiet {latest : Dict String Schema} {result : RecoveryResult} :
    wp (recordVersions services args latest result) (fun _ t => Quiet s t) (fun _ _ => True) s := by
  unfold recordVersions
  split
  · refine wp_each (fun _ t => Quiet s t) (fun info rest t ht => ?_) _ s ⟨rfl, rfl⟩
    unfold recordVersion
    split
    · split
      · exact wp_outside (fun _ _ _ => ht) (fun _ _ _ => trivial)
      · exact ht
    · exact ht
  · exact ⟨rfl, rfl⟩

theorem resetMarkers_quiet :
    wp (resetMarkers services) (fun _ t => Quiet s t) (fun _ _ => True) s := by
  rw [resetMarkers, wp_bind]
  refine wp_outside (fun _ w _ => ?_) (fun _ _ _ => trivial)
  rw [wp_bind]
  exact wp_outside (fun _ _ _ => ⟨rfl, rfl⟩) (fun _ _ _ => trivial)

theorem conclude_quiet {result : RecoveryResult} :
    wp (conclude services result) (fun _ t => Quiet s t) (fun _ _ => True) s := by
  unfold conclude
  split
  · rw [wp_bind]
    refine wp_tryExcept (wp_outside (fun _ w _ => ⟨rfl, rfl⟩) (fun e w _ => ?_))
    exact ⟨fun _ => ⟨rfl, rfl⟩, fun _ => trivial⟩
  · exact resetMarkers_quiet

/-- The write, which is either made or noted as failed. -/
def Saved (infos : List TableExportInfo) (s t : CState W) : Prop :=
  (t.vars = some infos ∧ t.trace = s.trace ++ [.saved infos]) ∨
  ∃ e, t.trace = s.trace ++ [.unsaved e]

theorem saveCutoffs_spec {infos : List TableExportInfo} :
    wp (saveCutoffs services infos) (fun _ t => Saved infos s t) (fun _ _ => True) s := by
  refine wp_tryExcept (wp_bind.mpr (wp_outside (fun _ w _ => ?_) (fun e w _ => ?_)))
  · rw [wp_bind, wp_note, wp_assign]
    exact Or.inl ⟨rfl, rfl⟩
  · exact ⟨fun _ => Or.inr ⟨e, rfl⟩, fun _ => trivial⟩

theorem finish_spec {latest : Dict String Schema} {result : RecoveryResult} :
    wp (finish services args latest result) (fun _ t => Saved result.tableExportInfo s t)
      (fun _ _ => True) s := by
  rw [finish, wp_bind]
  apply wp_post recordVersions_quiet
  intro _ t ht
  rw [wp_bind]
  apply wp_post saveCutoffs_spec
  intro _ u hu
  apply wp_post conclude_quiet
  intro _ v hv
  unfold Saved at hu ⊢
  rw [hv.1, hv.2, ← ht.2]
  exact hu

/-- The loop returned `r` and left the trace `events`. -/
def Recovers (services : Services W) (fuel : Nat) (req : Request) (r : RecoveryResult)
    (events : List Event) : Prop :=
  ∃ w u, runWithRecovery (wire services fuel) req (RState.initial req w) = (.ok r, u) ∧
    u.trace = events

theorem recovery_spec {req : Request} :
    wp (recovery services fuel req)
      (fun ending t => match ending with
        | .exit _ => t.trace = s.trace
        | .result r => ∃ events, Recovers services fuel req r events ∧
            t.trace = s.trace ++ [.recovered r events])
      (fun _ _ => True) s := by
  unfold recovery wp
  dsimp only
  cases hrun : runWithRecovery (wire services fuel) req (RState.initial req s.world) with
  | mk outcome u =>
    cases outcome with
    | ok r => exact ⟨u.trace, ⟨s.world, u, hrun, rfl⟩, rfl⟩
    | error e =>
      cases e with
      | usage msg code => rfl
      | base msg => trivial
      | _ => rfl

/-- What the command leaves behind when it returns: no outcome of the loop, or the
tables resumed, that outcome and the write. -/
def Outcome (services : Services W) (fuel : Nat) (args : Args) (t : CState W) : Prop :=
  (∀ result events, .recovered result events ∉ t.trace) ∨
  ∃ latest completed result events, ∃ s : CState W,
    Recovers services fuel (args.request latest completed) result events ∧
    s.trace = [.resumed completed, .recovered result events] ∧
    Saved result.tableExportInfo s t

theorem doImport_outcome (tableExport : Option (List TableExportInfo)) (w : W) :
    wp (doImportWithRecovery services fuel args) (fun _ t => Outcome services fuel args t)
      (fun _ _ => True) (CState.initial tableExport w) := by
  rw [doImportWithRecovery, wp_bind]
  refine wp_tryExcept (wp_bind.mpr (wp_outside (fun latest w _ => ?_) (fun e w _ => ?_)))
  · rw [wp_pure, wp_bind]
    refine wp_outside (fun completed w _ => ?_) (fun _ _ _ => trivial)
    rw [wp_bind, wp_note]
    split
    · apply wp_post resetMarkers_quiet
      intro _ t ht
      refine Or.inl fun result events hmem => ?_
      rw [ht.2] at hmem
      simp [CState.initial] at hmem
    · rw [wp_bind]
      apply wp_post recovery_spec
      intro ending t ht
      cases ending with
      | exit code =>
        refine Or.inl fun result events hmem => ?_
        rw [ht] at hmem
        simp [CState.initial] at hmem
      | result r =>
        obtain ⟨events, hrun, htrace⟩ := ht
        apply wp_post finish_spec
        intro _ u hu
        exact Or.inr ⟨latest, completed, r, events, t, hrun, htrace, hu⟩
  · exact ⟨fun _ => Or.inl (by simp [CState.initial]), fun _ => trivial⟩

/-- When the command ends with success after a run of the loop, and the write of the
cutoffs was made, an imported table that was neither resumed nor found flushed was
loaded by an attempt, and a table loaded by an attempt has a cutoff in the list
saved exactly when some table of that attempt has a file. -/
theorem loaded_tables_persisted (services : Services W) (fuel : Nat) (args : Args)
    (tableExport : Option (List TableExportInfo)) (w : W) (t : CState W)
    (result : RecoveryResult) (events : List Event)
    (h : doImportWithRecovery services fuel args (CState.initial tableExport w) =
      (.ok exitSuccess, t))
    (hrecovered : .recovered result events ∈ t.trace) (hsaved : ∀ e, .unsaved e ∉ t.trace) :
    ∃ infos completed, t.vars = some infos ∧ .resumed completed ∈ t.trace ∧
      (∀ x ∈ result.imported, x ∈ completed ∨ (∃ response, .flushed response x ∈ events) ∨
        ∃ job tables, .loaded job tables ∈ events ∧ x ∈ tables) ∧
      ∀ job tables, .loaded job tables ∈ events → ∀ x ∈ tables,
        ((∃ info ∈ infos, info.table = x) ↔ HasFile job tables) := by
  have hspec : wp (doImportWithRecovery services fuel args) _ _ _ := doImport_outcome tableExport w
  rcases wp_ok hspec h with hnone | ⟨latest, completed, r, events', s, hrun, hs, hwrite⟩
  · exact absurd hrecovered (hnone result events)
  · rcases hwrite with ⟨hvars, htrace⟩ | ⟨e, htrace⟩
    · rw [hs] at htrace
      have hsame : result = r ∧ events = events' := by
        rw [htrace] at hrecovered
        simpa using hrecovered
      obtain ⟨rfl, rfl⟩ := hsame
      obtain ⟨w', u, hloop, rfl⟩ := hrun
      obtain ⟨hloaded, himported⟩ := run_covered hloop
      refine ⟨result.tableExportInfo, completed, hvars, ?_, himported, hloaded⟩
      rw [htrace]
      exact List.mem_cons_self
    · refine absurd ?_ (hsaved e)
      rw [htrace]
      exact List.mem_append_right _ (List.mem_singleton_self _)

end Command

/-! ## Success without a cutoff -/

/-- A complete job whose only table is `a`, with the given files. -/
def ExportJobResponse.ofA (urls : List String) : ExportJobResponse where
  completed := true
  tables := ⟨[("a", ⟨"", "Completed", urls, "1767225600000000000"⟩)], List.nodup_singleton "a"⟩

def ExportJobResponse.fileless : ExportJobResponse := .ofA []

def ExportJobResponse.filed : ExportJobResponse :=
  .ofA ["https://export/202601010000000000000000000000000-1-1-a-1.ndjson.gz"]

/-- The tracker takes no writes. -/
def Services.readOnly (job : ExportJobResponse) : Services Unit :=
  { Services.serving job with
    setTableExport := fun _ => raise (.exception "attempt to write a readonly database") }

def Args.all : Args where
  only := []
  jobId := ""
  maxRetries := 5
  supportsMigration := false

/-- Everything is imported in the first attempt. -/
def oneAttempt (job : ExportJobResponse) : List Event :=
  [.polled job [], .importing job ["a"], .loaded job ["a"], .imported ["a"]]

def RecoveryResult.onlyA (infos : List TableExportInfo) : RecoveryResult where
  imported := ["a"]
  permanentlyFailed := []
  tableExportInfo := infos
  jobId := "job"
  lastError := ""

def cutoffOfA : TableExportInfo where
  table := "a"
  timestamp := 1767225600000000

/-- A full import, with one poll a job and an empty tracker. -/
def importAll (services : Services Unit) : Except Exn Int × CState Unit :=
  doImportWithRecovery services 1 .all (CState.initial none ())

/-- `a` is imported with success and the list saved, if any, has no cutoff for it:
its export has no file, or the write fails. -/
theorem success_without_cutoff :
    ((importAll (Services.serving .fileless)).1 = .ok exitSuccess ∧
      .recovered (.onlyA []) (oneAttempt .fileless) ∈
        (importAll (Services.serving .fileless)).2.trace ∧
      (importAll (Services.serving .fileless)).2.vars = some [] ∧ ¬ HasCutoff [] "a") ∧
    ((importAll (Services.readOnly .filed)).1 = .ok exitSuccess ∧
      .recovered (.onlyA [cutoffOfA]) (oneAttempt .filed) ∈
        (importAll (Services.readOnly .filed)).2.trace ∧
      (importAll (Services.readOnly .filed)).2.vars = none) := by
  refine ⟨⟨by decide +kernel, by decide +kernel, by decide +kernel, ?_⟩,
    by decide +kernel, by decide +kernel, by decide +kernel⟩
  intro h
  obtain ⟨_, hmem, _⟩ := h
  exact absurd hmem List.not_mem_nil

theorem filed_trace :
    (importAll (Services.serving .filed)).2.trace =
      [.resumed [], .recovered (.onlyA [cutoffOfA]) (oneAttempt .filed), .saved [cutoffOfA]] := by
  decide +kernel

theorem loaded_tables_persisted_filed :
    (importAll (Services.serving .filed)).1 = .ok exitSuccess ∧
    ∃ infos completed, (importAll (Services.serving .filed)).2.vars = some infos ∧
      .resumed completed ∈ (importAll (Services.serving .filed)).2.trace ∧
      ∀ job tables, .loaded job tables ∈ oneAttempt .filed → ∀ x ∈ tables,
        ((∃ info ∈ infos, info.table = x) ↔ HasFile job tables) := by
  obtain ⟨infos, completed, hvars, hresumed, _, hloaded⟩ :=
    loaded_tables_persisted (Services.serving .filed) 1 .all none ()
      (importAll (Services.serving .filed)).2 (.onlyA [cutoffOfA]) (oneAttempt .filed)
      (Prod.ext (by decide +kernel) rfl) (by rw [filed_trace]; simp) (by rw [filed_trace]; simp)
  exact ⟨by decide +kernel, infos, completed, hvars, hresumed, hloaded⟩

end Import
end Eds
