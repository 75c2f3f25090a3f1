import Eds.Import.Persisted

/-!
# The table filter

`--only` names the tables to import.  Without retries `_do_import` drops the other tables
of the response before it calls the importer.  `_do_import_with_recovery` puts the filter
into the request for an export job and looks at it nowhere else, and with `--job-id` no job
is requested: the importer is given every table of the response.

`Services.watched` writes down the list that each call of the importer is given, beside
the world.
-/

namespace Eds
namespace Import

open Effects Effects.Prog Effects.Traced Collections

variable {W : Type}

/-! ## The path without retries -/

/-- The tables to import, given what was downloaded. -/
def Args.selected (args : Args) (infos : List TableExportInfo) : List String :=
  let tables := infos.map TableExportInfo.table
  if args.only ≠ [] then tables.filter fun t => t ∈ args.only else tables

structure Download where
  jobId : String
  dir : String
  infos : List TableExportInfo

def exportJob (services : Services W) (args : Args) : Prog Exn W String :=
  if args.jobId = "" then services.createExportJob args.only else pure args.jobId

/-- `none` when the run is cancelled. -/
def download (services : Services W) (fuel : Nat) (args : Args) : Prog Exn W (Option Download) := do
  let jobId ← exportJob services args
  let job ← pollUntilComplete services.server jobId true fuel
  match job with
  | none => pure none
  | some job => do
    let stop ← services.server.cancelled
    if stop then pure none
    else do
      let dir ← services.makeDir jobId
      let infos ← bulkDownloadData services.files job.tables.items dir
      let stop ← services.server.cancelled
      if stop then pure none else pure (some { jobId := jobId, dir := dir, infos := infos })

def recordMigrated (services : Services W) (args : Args) (infos : List TableExportInfo) :
    CProg W Unit :=
  if args.supportsMigration then do
    let latest ← outside services.getLatestSchema
    each (recordVersion services latest (args.selected infos)) infos
  else pure ()

/-- The cutoffs of a run that succeeds. -/
def importOnce (services : Services W) (fuel : Nat) (args : Args) :
    CProg W (Option (List TableExportInfo)) := do
  let fetched ← outside (download services fuel args)
  match fetched with
  | none => pure none
  | some d => do
    let loaded ← tryExcept
      (do
        outside (services.runImport d.jobId (args.selected d.infos) d.dir)
        pure true)
      fun _ => pure false
    if loaded then do
      recordMigrated services args d.infos
      pure (some d.infos)
    else pure none

def singleAttempt (services : Services W) (fuel : Nat) (args : Args) : CProg W Int := do
  let infos ← tryExcept (importOnce services fuel args) fun _ => pure none
  match infos with
  | some infos => do
    saveCutoffs services infos
    pure exitSuccess
  | none => pure exitError

/-- `_do_import` for an export that is not on disk and not of the schema only. -/
def doImport (services : Services W) (fuel : Nat) (args : Args) : CProg W Int :=
  if args.maxRetries > 0 then doImportWithRecovery services fuel args
  else singleAttempt services fuel args

/-! ## What the importer is given -/

/-- The world, and the lists that the importer was given so far. -/
abbrev Watched (W : Type) := W × List (List String)

def Services.watched (services : Services W) : Services (Watched W) :=
  { services.beside (List (List String)) with
    runImport := fun jobId tables dir => do
      update fun w => (w.1, w.2 ++ [tables])
      first (services.runImport jobId tables dir) }

/-- The lists given to the importer in a run of the command. -/
def importerCalls (services : Services W) (fuel : Nat) (args : Args)
    (tableExport : Option (List TableExportInfo)) (w : W) : List (List String) :=
  (doImport services.watched fuel args (CState.initial tableExport (w, []))).2.world.2

/-- The table is in one of the lists. -/
def Passed (calls : List (List String)) (table : String) : Prop := ∃ tables ∈ calls, table ∈ tables

/-- The service answers every request for a job with `job`. -/
def Services.Answers (services : Services W) (job : ExportJobResponse) : Prop :=
  ∀ jobId, Returns (services.server.fetch jobId) fun reply => reply = job

/-- Only the importer sets progress markers, and `unmarked` says that there are none. -/
structure ImporterMarks (services : Services W) (unmarked : W → Prop) : Prop where
  present : ∀ table w, unmarked w →
    wp (services.progressMarkerPresent table) (fun found w' => found = false ∧ unmarked w')
      (fun _ w' => unmarked w') w
  fetch : ∀ jobId, Within (fun w w' => unmarked w → unmarked w') (services.server.fetch jobId)
  cancelled : Within (fun w w' => unmarked w → unmarked w') services.server.cancelled
  pause : Within (fun w w' => unmarked w → unmarked w') services.server.sleep
  fetchAll : ∀ urls dir,
    Within (fun w w' => unmarked w → unmarked w') (services.files.fetchAll urls dir)
  createExportJob : ∀ tables,
    Within (fun w w' => unmarked w → unmarked w') (services.createExportJob tables)
  makeDir : ∀ jobId, Within (fun w w' => unmarked w → unmarked w') (services.makeDir jobId)
  sleep : ∀ seconds, Within (fun w w' => unmarked w → unmarked w') (services.sleep seconds)
  getLatestSchema : Within (fun w w' => unmarked w → unmarked w') services.getLatestSchema

/-! ## The path without retries passes what the filter selects -/

section Single

variable {services : Services W} {fuel : Nat} {args : Args} {job : ExportJobResponse}

/-- The importer is not called. -/
def SameCalls (w w' : Watched W) : Prop := w'.2 = w.2

theorem sameCalls_refl (w : Watched W) : SameCalls w w := rfl

theorem SameCalls.trans {u v w : Watched W} (h : SameCalls u v) (h' : SameCalls v w) :
    SameCalls u w := Eq.trans h' h

theorem sameCalls_first {α : Type} (p : Prog Exn W α) : Within SameCalls (first p) := fun _ => rfl

theorem download_calls : Within SameCalls (download services.watched fuel args) := by
  have hjobId : Within SameCalls (exportJob services.watched args) := by
    unfold exportJob
    split
    · exact sameCalls_first _
    · exact within_pure sameCalls_refl _
  have hpoll : ∀ jobId, Within SameCalls (pollUntilComplete services.watched.server jobId true fuel) :=
    fun jobId => pollUntilComplete_within sameCalls_refl SameCalls.trans (sameCalls_first _)
      (sameCalls_first _) (sameCalls_first _) true fuel
  refine hjobId.bind (fun jobId => (hpoll jobId).bind (fun job => ?_) SameCalls.trans) SameCalls.trans
  cases job with
  | none => exact within_pure sameCalls_refl none
  | some job =>
    refine (sameCalls_first _).bind (fun stop => ?_) SameCalls.trans
    split
    · exact within_pure sameCalls_refl none
    · refine (sameCalls_first _).bind (fun dir => ?_) SameCalls.trans
      have hdata : Within SameCalls (bulkDownloadData services.watched.files job.tables.items dir) :=
        bulkDownloadData_within sameCalls_refl SameCalls.trans (fun _ _ => sameCalls_first _) _ dir
      refine hdata.bind (fun infos => (sameCalls_first _).bind (fun stop => ?_) SameCalls.trans)
        SameCalls.trans
      split <;> exact within_pure sameCalls_refl _

theorem download_returns (hjob : services.Answers job)
    (hfiles : ∃ entry ∈ job.tables.items, entry.2.urls ≠ []) :
    Returns (download services.watched fuel args) fun fetched =>
      ∀ d, fetched = some d → d.infos.map TableExportInfo.table = job.tables.keys := by
  refine (returns_any _).bind fun jobId _ => ?_
  have hpoll : Returns (pollUntilComplete services.watched.server jobId true fuel) fun r =>
      ∀ reply, r = some reply → reply = job :=
    pollUntilComplete_returns (returns_first (hjob jobId)) true fuel
  refine hpoll.bind fun reply hreply => ?_
  cases reply with
  | none => exact returns_pure nofun
  | some reply =>
    rw [hreply reply rfl]
    refine (returns_any services.watched.server.cancelled).bind fun stop _ => ?_
    split
    · exact returns_pure nofun
    · refine (returns_any (services.watched.makeDir jobId)).bind fun dir _ => ?_
      have hdata : Returns (bulkDownloadData services.watched.files job.tables.items dir) fun infos =>
          infos.map TableExportInfo.table = job.tables.keys :=
        fun w => wp_mono bulkDownloadData_spec (fun _ _ h => h.1 hfiles) (fun _ _ _ => trivial)
      refine hdata.bind fun infos hinfos => ?_
      refine (returns_any services.watched.server.cancelled).bind fun stop _ => ?_
      split
      · exact returns_pure nofun
      · refine returns_pure fun d hd => ?_
        rw [← Option.some.inj hd]
        exact hinfos

/-- The importer is called once, with the tables that the filter selects, or not at all. -/
def CalledOnce (args : Args) (job : ExportJobResponse) (calls : List (List String)) : Prop :=
  calls = [] ∨ ∃ infos : List TableExportInfo,
    infos.map TableExportInfo.table = job.tables.keys ∧ calls = [args.selected infos]

theorem recordMigrated_calls {infos : List TableExportInfo} {s : CState (Watched W)} :
    wp (recordMigrated services.watched args infos) (fun _ t => t.world.2 = s.world.2)
      (fun _ t => t.world.2 = s.world.2) s := by
  unfold recordMigrated
  split
  · rw [wp_bind]
    refine wp_outside (fun latest w hw => ?_) (fun e w hw => (sameCalls_first _).reply hw)
    have hsame : w.2 = s.world.2 := (sameCalls_first _).reply hw
    refine wp_each (fun _ (t : CState (Watched W)) => t.world.2 = s.world.2)
      (fun info rest t ht => ?_) _ _ hsame
    unfold recordVersion
    split
    · split
      · exact wp_outside (fun _ w hw => Eq.trans ((sameCalls_first _).reply hw) ht)
          (fun _ w hw => Eq.trans ((sameCalls_first _).reply hw) ht)
      · exact ht
    · exact ht
  · rfl

theorem importOnce_calls (hjob : services.Answers job)
    (hfiles : ∃ entry ∈ job.tables.items, entry.2.urls ≠ []) {s : CState (Watched W)}
    (hs : s.world.2 = []) :
    wp (importOnce services.watched fuel args) (fun _ t => CalledOnce args job t.world.2)
      (fun _ t => CalledOnce args job t.world.2) s := by
  rw [importOnce, wp_bind]
  refine wp_outside (fun fetched w hw => ?_) (fun e w hw => ?_)
  · have hcalls : w.2 = [] := Eq.trans (download_calls.reply hw) hs
    have hfetched := (download_returns hjob hfiles).reply hw
    cases fetched with
    | none => exact Or.inl hcalls
    | some d =>
      -- The importer has been called, whatever comes of it.
      have hcalled : ∀ w' : Watched W, w'.2 = w.2 ++ [args.selected d.infos] →
          CalledOnce args job w'.2 := by
        intro w' hw'
        rw [hcalls] at hw'
        exact Or.inr ⟨d.infos, hfetched d rfl, hw'⟩
      rw [wp_bind]
      refine wp_tryExcept (wp_bind.mpr (wp_outside (fun _ w₁ h₁ => ?_) (fun e w₁ h₁ => ?_)))
      · have hw₁ : w₁.2 = w.2 ++ [args.selected d.infos] := congrArg (fun r => r.2.2) h₁.symm
        rw [wp_pure, if_pos rfl, wp_bind]
        refine wp_mono recordMigrated_calls (fun _ t ht => ?_) (fun e t ht => ?_)
        · exact hcalled t.world (ht.trans hw₁)
        · exact hcalled t.world (ht.trans hw₁)
      · have hw₁ : w₁.2 = w.2 ++ [args.selected d.infos] := congrArg (fun r => r.2.2) h₁.symm
        exact ⟨fun _ => hcalled w₁ hw₁, fun _ => hcalled w₁ hw₁⟩
  · exact Or.inl (Eq.trans (download_calls.reply hw) hs)

theorem singleAttempt_calls (hjob : services.Answers job)
    (hfiles : ∃ entry ∈ job.tables.items, entry.2.urls ≠ []) {s : CState (Watched W)}
    (hs : s.world.2 = []) :
    CalledOnce args job (singleAttempt services.watched fuel args s).2.world.2 := by
  refine wp_state (I := fun t : CState (Watched W) => CalledOnce args job t.world.2) ?_
  rw [singleAttempt, wp_bind]
  refine wp_tryExcept (wp_mono (importOnce_calls hjob hfiles hs) (fun infos t ht => ?_)
    (fun e t ht => ⟨fun _ => ht, fun _ => ht⟩))
  cases infos with
  | none => exact ht
  | some infos =>
    rw [wp_bind]
    refine wp_tryExcept (wp_bind.mpr (wp_outside (fun _ w hw => ?_) (fun e w hw => ?_)))
    · have hsame : w.2 = t.world.2 := (sameCalls_first _).reply hw
      rw [wp_bind, wp_note, wp_assign, wp_pure]
      show CalledOnce args job w.2
      rw [hsame]
      exact ht
    · have hsame : w.2 = t.world.2 := (sameCalls_first _).reply hw
      have hcalled : CalledOnce args job w.2 := by
        rw [hsame]
        exact ht
      exact ⟨fun _ => hcalled, fun _ => hcalled⟩

end Single

/-! ## The path with retries passes everything -/

/-- A step that neither calls the importer nor sets a marker. -/
def Idle (unmarked : W → Prop) (w w' : Watched W) : Prop :=
  (unmarked w.1 → unmarked w'.1) ∧ w'.2 = w.2

theorem Idle.refl {unmarked : W → Prop} (w : Watched W) : Idle unmarked w w := ⟨id, rfl⟩

theorem Idle.trans {unmarked : W → Prop} {u v w : Watched W} (h : Idle unmarked u v)
    (h' : Idle unmarked v w) : Idle unmarked u w :=
  ⟨fun hu => h'.1 (h.1 hu), h'.2.trans h.2⟩

section Loop

variable {α β : Type} {services : Services W} {fuel : Nat} {req : Request}
  {unmarked : W → Prop} {job : ExportJobResponse}

/-- The first call was given every table of the response, and no call any other table. -/
def Given (job : ExportJobResponse) (calls : List (List String)) : Prop :=
  ∃ rest, calls = job.tables.keys :: rest ∧ ∀ tables ∈ rest, ∀ t ∈ tables, t ∈ job.tables.keys

theorem Given.snoc {calls : List (List String)} (h : Given job calls) {tables : List String}
    (htables : ∀ t ∈ tables, t ∈ job.tables.keys) : Given job (calls ++ [tables]) := by
  obtain ⟨rest, rfl, hrest⟩ := h
  refine ⟨rest ++ [tables], rfl, fun given hgiven => ?_⟩
  rcases List.mem_append.mp hgiven with hgiven | hgiven
  · exact hrest given hgiven
  · rw [List.mem_singleton.mp hgiven]
    exact htables

theorem Given.passed_iff {calls : List (List String)} (h : Given job calls) (t : String) :
    Passed calls t ↔ t ∈ job.tables.keys := by
  obtain ⟨rest, rfl, hrest⟩ := h
  constructor
  · intro hpassed
    obtain ⟨tables, hmem, ht⟩ := hpassed
    rcases List.mem_cons.mp hmem with rfl | hmem
    · exact ht
    · exact hrest tables hmem t ht
  · exact fun ht => ⟨_, List.mem_cons_self, ht⟩

structure Untouched (unmarked : W → Prop) (s : RState (Watched W)) : Prop where
  unmarked : unmarked s.world.1
  calls : s.world.2 = []
  imported : s.vars.imported = []

/-- The invariant of the loop. -/
def Held (unmarked : W → Prop) (job : ExportJobResponse) (s : RState (Watched W)) : Prop :=
  Untouched unmarked s ∨ Given job s.world.2

def Holding (unmarked : W → Prop) (job : ExportJobResponse) (p : RProg (Watched W) α) : Prop :=
  Within (fun s t => Held unmarked job s → Held unmarked job t) p

theorem Held.idle {s t : RState (Watched W)} (h : Held unmarked job s)
    (hidle : Idle unmarked s.world t.world) (himported : t.vars.imported = s.vars.imported) :
    Held unmarked job t := by
  rcases h with h | h
  · exact Or.inl ⟨hidle.1 h.unmarked, hidle.2.trans h.calls, himported.trans h.imported⟩
  · right
    rw [hidle.2]
    exact h

theorem Holding.bind {p : RProg (Watched W) α} {f : α → RProg (Watched W) β}
    (hp : Holding unmarked job p) (hf : ∀ a, Holding unmarked job (f a)) :
    Holding unmarked job (p >>= f) :=
  Within.bind hp hf fun h h' hs => h' (h hs)

theorem holding_pure (a : α) : Holding unmarked job (pure a : RProg (Watched W) α) := fun _ => id

theorem holding_read (f : Loop → α) : Holding unmarked job (read f : RProg (Watched W) α) :=
  fun _ => id

theorem holding_note (e : Event) : Holding unmarked job (note e : RProg (Watched W) Unit) :=
  fun _ h => h.idle (Idle.refl _) rfl

theorem holding_assign {f : Loop → Loop} (hf : ∀ l, (f l).imported = l.imported) :
    Holding unmarked job (assign f : RProg (Watched W) Unit) :=
  fun s h => h.idle (Idle.refl _) (hf s.vars)

theorem holding_outside {p : Prog Exn (Watched W) α} (hp : Within (Idle unmarked) p) :
    Holding unmarked job (outside p) :=
  fun s h => h.idle (hp s.world) rfl

/-! ### The stages -/

theorem pollFn_idle (hmarks : ImporterMarks services unmarked) (jobId : String) :
    Within (Idle unmarked) (pollFn services.watched fuel jobId) := by
  have hpoll : Within (Idle unmarked) (pollUntilComplete services.watched.server jobId false fuel) :=
    pollUntilComplete_within Idle.refl Idle.trans (within_first (hmarks.fetch jobId))
      (within_first hmarks.cancelled) (within_first hmarks.pause) false fuel
  refine hpoll.bind (fun job => ?_) Idle.trans
  cases job with
  | none => exact within_raise Idle.refl _
  | some job =>
    refine (within_first hmarks.cancelled).bind (fun stop => ?_) Idle.trans
    split
    · exact within_raise Idle.refl _
    · exact within_pure Idle.refl job

theorem pollFn_returns (hjob : services.Answers job) (jobId : String) :
    Returns (pollFn services.watched fuel jobId) fun reply => reply = job := by
  have hpoll : Returns (pollUntilComplete services.watched.server jobId false fuel) fun r =>
      ∀ reply, r = some reply → reply = job :=
    pollUntilComplete_returns (returns_first (hjob jobId)) false fuel
  refine hpoll.bind fun reply hreply => ?_
  cases reply with
  | none => exact returns_raise _
  | some reply =>
    refine (returns_any services.watched.server.cancelled).bind fun stop _ => ?_
    split
    · exact returns_raise _
    · exact returns_pure (hreply reply rfl)

theorem downloadFn_idle (hmarks : ImporterMarks services unmarked) (job : ExportJobResponse)
    (tables : List String) (jobId : String) :
    Within (Idle unmarked) (downloadFn services.watched job tables jobId) := by
  have hdata : ∀ dir, Within (Idle unmarked)
      (bulkDownloadData services.watched.files (subsetOf job tables) dir) := fun dir =>
    bulkDownloadData_within Idle.refl Idle.trans
      (fun urls dir => within_first (hmarks.fetchAll urls dir)) _ dir
  refine (within_first (hmarks.makeDir jobId)).bind (fun dir => ?_) Idle.trans
  refine (within_tryExcept (hdata dir) (fun e => within_raise Idle.refl _) Idle.refl Idle.trans).bind
    (fun infos => (within_first hmarks.cancelled).bind (fun stop => ?_) Idle.trans) Idle.trans
  split
  · exact within_raise Idle.refl _
  · exact within_pure Idle.refl _

/-- Without a marker nothing is found. -/
theorem marked_idle (hmarks : ImporterMarks services unmarked) (tables : List String)
    (w : Watched W) :
    wp (marked services.watched.progressMarkerPresent tables)
      (fun found w' => Idle unmarked w w' ∧ (unmarked w.1 → found = []))
      (fun _ w' => Idle unmarked w w') w := by
  induction tables generalizing w with
  | nil => exact ⟨Idle.refl w, fun _ => rfl⟩
  | cons t rest ih =>
    have hpresent : wp (services.watched.progressMarkerPresent t)
        (fun found w' => Idle unmarked w w' ∧ (unmarked w.1 → found = false))
        (fun _ w' => Idle unmarked w w') w := by
      show wp (first (services.progressMarkerPresent t)) _ _ w
      rw [first, wp_on]
      by_cases hw : unmarked w.1
      · exact wp_mono (hmarks.present t w.1 hw) (fun _ _ h => ⟨⟨fun _ => h.2, rfl⟩, fun _ => h.1⟩)
          (fun _ _ h => ⟨fun _ => h, rfl⟩)
      · exact wp_any (fun _ _ => ⟨⟨fun h => absurd h hw, rfl⟩, fun h => absurd h hw⟩)
          (fun _ _ => ⟨fun h => absurd h hw, rfl⟩)
    rw [marked, wp_bind]
    refine wp_post hpresent fun found w₁ h₁ => ?_
    rw [wp_bind]
    refine wp_mono (ih w₁) (fun more w₂ h₂ => ?_) (fun e w₂ h₂ => h₁.1.trans h₂)
    rw [wp_pure]
    refine ⟨h₁.1.trans h₂.1, fun hw => ?_⟩
    rw [h₁.2 hw, h₂.2 (h₁.1.1 hw)]
    rfl

/-! ### One attempt -/

theorem post_holds (hmarks : ImporterMarks services unmarked) :
    Holding unmarked job (post (wire services.watched fuel)) := by
  refine (holding_read _).bind fun needPost => (holding_read _).bind fun tables => ?_
  split
  · refine (holding_outside (within_first (hmarks.createExportJob tables))).bind fun jobId => ?_
    exact holding_assign fun _ => rfl
  · exact holding_pure ()

theorem pollJob_holds (hmarks : ImporterMarks services unmarked) :
    Holding unmarked job (pollJob (wire services.watched fuel)) := by
  refine (holding_read _).bind fun jobId => ?_
  refine (holding_outside (pollFn_idle hmarks jobId)).bind fun reply => ?_
  refine (holding_read _).bind fun imported => (holding_note _).bind fun _ => ?_
  exact Holding.bind (holding_assign fun _ => rfl) fun _ => holding_pure reply

theorem pollJob_returns (hjob : services.Answers job) :
    Returns (pollJob (wire services.watched fuel)) fun reply => reply = job := by
  refine (returns_any (read Loop.jobId)).bind fun jobId _ => ?_
  refine (returns_outside (pollFn_returns hjob jobId)).bind fun reply hreply => ?_
  refine (returns_any (read Loop.imported)).bind fun imported _ => ?_
  refine (returns_any (note _)).bind fun _ _ => (returns_any (assign _)).bind fun _ _ => ?_
  exact returns_pure hreply

/-- Before the first call nothing is imported, so that this call gets every table. -/
theorem load_holds (hmarks : ImporterMarks services unmarked) (hnone : failedTables job = [])
    {s : RState (Watched W)} (hs : Held unmarked job s) :
    wp (load (wire services.watched fuel) job (readyIn job s.vars.imported))
      (fun _ t => Held unmarked job t) (fun _ t => Held unmarked job t) s := by
  rw [load, wp_bind, wp_read, wp_bind]
  refine wp_outside (fun reply w hw => ?_) (fun e w hw => ?_)
  · have hidle : Idle unmarked s.world w := (downloadFn_idle hmarks job _ _).reply hw
    have hgiven : Given job (w.2 ++ [readyIn job s.vars.imported]) := by
      rcases hs with hs | hs
      · have hall : readyIn job [] = job.tables.keys := by
          simp [readyIn, presentIn, hnone]
        rw [hidle.2, hs.calls, hs.imported, hall]
        exact ⟨[], rfl, fun _ h => absurd h List.not_mem_nil⟩
      · rw [hidle.2]
        exact hs.snoc fun t ht => (mem_presentIn.mp (mem_readyIn.mp ht).1).1
    have hcalled : ∀ {r : Except Exn Unit} {w' : Watched W},
        services.watched.runImport s.vars.jobId (readyIn job s.vars.imported) reply.2 w = (r, w') →
        Given job w'.2 := by
      intro r w' hw'
      have hcalls : w'.2 = w.2 ++ [readyIn job s.vars.imported] :=
        congrArg (fun r => r.2.2) hw'.symm
      rw [hcalls]
      exact hgiven
    rw [wp_bind, wp_note, wp_bind]
    refine wp_outside (fun _ w' hw' => ?_) (fun e w' hw' => Or.inr (hcalled hw'))
    rw [wp_bind, wp_note, wp_bind, wp_read, wp_bind, wp_note, wp_assign]
    exact Or.inr (hcalled hw')
  · exact hs.idle ((downloadFn_idle hmarks job _ _).reply hw) rfl

theorem remaining_holds : Holding unmarked job (remaining : RProg (Watched W) Bool) := by
  refine (holding_read _).bind fun left => ?_
  split
  · exact holding_pure true
  · exact Holding.bind (holding_assign fun _ => rfl) fun _ => holding_pure false

theorem attempt_holds (hmarks : ImporterMarks services unmarked) (hjob : services.Answers job)
    (hnone : failedTables job = []) : Holding unmarked job (attempt (wire services.watched fuel)) := by
  refine Holding.bind (holding_assign fun _ => rfl) fun _ => (post_holds hmarks).bind fun _ => ?_
  intro s hs
  refine wp_state (I := fun t => Held unmarked job t) ?_
  have hpoll : wp (pollJob (wire services.watched fuel))
      (fun reply t => Held unmarked job t ∧ reply = job) (fun _ t => Held unmarked job t ∧ True) s :=
    wp_and (wp_mono (Within.wp (pollJob_holds hmarks) s) (fun _ _ ht => ht hs) (fun _ _ ht => ht hs))
      (pollJob_returns hjob s)
  rw [wp_bind]
  refine wp_mono hpoll (fun reply t ht => ?_) (fun _ t ht => ht.1)
  obtain ⟨ht, rfl⟩ := ht
  have hend : ∀ {u : RState (Watched W)}, Held unmarked reply u →
      wp remaining (fun _ t => Held unmarked reply t) (fun _ t => Held unmarked reply t) u :=
    fun {u} hu => wp_mono (Within.wp remaining_holds u) (fun _ _ h => h hu) (fun _ _ h => h hu)
  rw [wp_bind, wp_read]
  by_cases hready : readyIn reply t.vars.imported = []
  · rw [if_neg (not_not.mpr hready)]
    exact hend ht
  · rw [if_pos hready, wp_bind]
    exact wp_post (load_holds hmarks hnone ht) fun _ u hu => hend hu

/-! ### The loop -/

theorem recover_holds (hmarks : ImporterMarks services unmarked) (e : Exn) :
    Holding unmarked job (recover (wire services.watched fuel) req e) := by
  refine (holding_note _).bind fun _ => (holding_read _).bind fun working => ?_
  have hdrop : Holding unmarked job
      (dropFlushed (wire services.watched fuel) req (scopeOf req working)) := by
    cases scopeOf req working with
    | none => exact holding_pure none
    | some scope =>
      show Holding unmarked job (if req.marks then _ else _)
      by_cases hmarked : req.marks = true
      · rw [if_pos hmarked]
        intro s hs
        refine wp_state (I := fun t => Held unmarked job t) ?_
        rw [wp_bind, wp_outside_iff]
        refine wp_mono (marked_idle hmarks scope s.world) (fun flushed w hw => ?_)
          (fun e w hw => hs.idle hw rfl)
        rw [wp_bind, wp_read, wp_bind, wp_each_note, wp_bind, wp_read, wp_bind, wp_note, wp_bind,
          wp_assign, wp_pure]
        rcases hs with hs | hs
        · refine Or.inl ⟨hw.1.1 hs.unmarked, hw.1.2.trans hs.calls, ?_⟩
          show adjoin s.vars.imported flushed = []
          rw [hs.imported, hw.2 hs.unmarked]
          rfl
        · right
          show Given job w.2
          rw [hw.1.2]
          exact hs
      · rw [if_neg hmarked]
        exact holding_pure _
  exact hdrop.bind fun scope => holding_assign fun _ => rfl

theorem round_holds (hmarks : ImporterMarks services unmarked) (hjob : services.Answers job)
    (hnone : failedTables job = []) :
    Holding unmarked job (round (wire services.watched fuel) req) := by
  have htry : Holding unmarked job (tryAttempt (wire services.watched fuel) req) := by
    refine within_tryExcept (attempt_holds hmarks hjob hnone) (fun e => ?_) (fun _ => id)
      (fun h h' hs => h' (h hs))
    split
    · exact (recover_holds hmarks e).bind fun _ => holding_pure false
    · exact fun _ => id
  exact htry.bind fun done => (holding_read _).bind fun working => holding_pure _

theorem backOff_holds (hmarks : ImporterMarks services unmarked) (n : Nat) :
    Holding unmarked job (backOff (wire services.watched fuel) n) := by
  have hcheck : Holding unmarked job (checkCancelled (wire services.watched fuel)) := by
    refine (holding_outside (within_first hmarks.cancelled)).bind fun stop => ?_
    split
    · exact fun _ => id
    · exact holding_pure ()
  refine hcheck.bind fun _ => (holding_note _).bind fun _ => ?_
  exact (holding_outside (within_first (hmarks.sleep _))).bind fun _ => hcheck

theorem attempts_hold (hmarks : ImporterMarks services unmarked) (hjob : services.Answers job)
    (hnone : failedTables job = []) (done retries : Nat) :
    Holding unmarked job (attempts (wire services.watched fuel) req done retries) := by
  induction retries generalizing done with
  | zero => exact (round_holds hmarks hjob hnone).bind fun ended => holding_pure _
  | succ retries ih =>
    refine (round_holds hmarks hjob hnone).bind fun ended => ?_
    split
    · exact holding_pure false
    · exact (backOff_holds hmarks done).bind fun _ => ih (done + 1)

end Loop

/-! ### The command -/

section Command

variable {services : Services W} {fuel : Nat} {args : Args} {unmarked : W → Prop}
  {job : ExportJobResponse}

/-- The importer is not called. -/
def StillCalls (s t : CState (Watched W)) : Prop := t.world.2 = s.world.2

theorem stillCalls_refl (s : CState (Watched W)) : StillCalls s s := rfl

theorem StillCalls.trans {s t u : CState (Watched W)} (h : StillCalls s t) (h' : StillCalls t u) :
    StillCalls s u := Eq.trans h' h

theorem stillCalls_outside {α : Type} {p : Prog Exn (Watched W) α} (hp : Within SameCalls p) :
    Within StillCalls (outside p : CProg (Watched W) α) := fun s => hp s.world

theorem finish_calls {latest : Dict String Schema} {result : RecoveryResult} :
    Within StillCalls (finish services.watched args latest result) := by
  have hcall : ∀ {α : Type} (p : Prog Exn W α),
      Within StillCalls (outside (first p) : CProg (Watched W) α) :=
    fun p => stillCalls_outside (sameCalls_first p)
  have hversion : ∀ info, Within StillCalls
      (recordVersion services.watched latest result.imported info) := by
    intro info
    unfold recordVersion
    split
    · split
      · exact hcall _
      · exact within_pure stillCalls_refl ()
    · exact within_pure stillCalls_refl ()
  have hversions : Within StillCalls (recordVersions services.watched args latest result) := by
    unfold recordVersions
    split
    · exact within_each hversion stillCalls_refl StillCalls.trans _
    · exact within_pure stillCalls_refl ()
  have hsave : Within StillCalls (saveCutoffs services.watched result.tableExportInfo) := by
    refine within_tryExcept ?_ (fun e _ => rfl) stillCalls_refl StillCalls.trans
    exact (hcall _).bind (fun _ => Within.bind (fun _ => rfl) (fun _ _ => rfl) StillCalls.trans)
      StillCalls.trans
  have hconclude : Within StillCalls (conclude services.watched result) := by
    unfold conclude
    split
    · refine Within.bind ?_ (fun _ => within_pure stillCalls_refl exitError) StillCalls.trans
      exact within_tryExcept (hcall _) (fun _ => within_pure stillCalls_refl ()) stillCalls_refl
        StillCalls.trans
    · refine (hcall _).bind (fun _ => (hcall _).bind (fun _ => ?_) StillCalls.trans) StillCalls.trans
      exact within_pure stillCalls_refl exitSuccess
  exact hversions.bind (fun _ => hsave.bind (fun _ => hconclude) StillCalls.trans) StillCalls.trans

theorem recovery_world {services : Services W} {req : Request} (s : CState W) :
    (recovery services fuel req s).2.world =
      (runWithRecovery (wire services fuel) req (RState.initial req s.world)).2.world := by
  unfold recovery
  cases runWithRecovery (wire services fuel) req (RState.initial req s.world) with
  | mk outcome u =>
    cases outcome with
    | ok r => rfl
    | error e => cases e <;> rfl

/-- What a run of the command has passed on, when it starts without a marker. -/
theorem withRecovery_calls (fuel : Nat) (args : Args)
    (hmarks : ImporterMarks services unmarked) (hjob : services.Answers job)
    (hnone : failedTables job = []) (tableExport : Option (List TableExportInfo)) {w : W}
    (hw : unmarked w) :
    let calls := (doImportWithRecovery services.watched fuel args
      (CState.initial tableExport (w, []))).2.world.2
    calls = [] ∨ Given job calls := by
  refine wp_state (I := fun t : CState (Watched W) => t.world.2 = [] ∨ Given job t.world.2) ?_
  rw [doImportWithRecovery, wp_bind]
  refine wp_tryExcept (wp_bind.mpr (wp_outside (fun latest w₁ h₁ => ?_) (fun e w₁ h₁ => ?_)))
  · have hschema : Idle unmarked (w, []) w₁ := (within_first hmarks.getLatestSchema).reply h₁
    rw [wp_pure, wp_bind, wp_outside_iff]
    refine wp_mono (marked_idle hmarks _ w₁) (fun completed w₂ h₂ => ?_)
      (fun e w₂ h₂ => Or.inl (h₂.2.trans hschema.2))
    rw [h₂.2 (hschema.1 hw), wp_bind, wp_note, if_neg (fun h => h.1 rfl), wp_bind]
    have hidle : Idle unmarked (w, []) w₂ := hschema.trans h₂.1
    have hloop : ∀ s : CState (Watched W), s.world = w₂ → Within (fun s' t => s' = s →
        t.world.2 = [] ∨ Given job t.world.2)
        (recovery services.watched fuel (args.request latest [])) := by
      intro s hs s' hsame
      rw [hsame, recovery_world, hs]
      have hstart : Held unmarked job (RState.initial (args.request latest []) w₂) :=
        Or.inl ⟨hidle.1 hw, hidle.2, rfl⟩
      have hrun : Holding unmarked job
          (runWithRecovery (wire services.watched fuel) (args.request latest [])) :=
        (attempts_hold hmarks hjob hnone _ _).bind fun _ =>
          (holding_read _).bind fun _ => holding_pure _
      exact (hrun _ hstart).imp Untouched.calls id
    refine wp_mono ((hloop _ rfl).wp _) (fun ending t ht => ?_) (fun e t ht => ht rfl)
    cases ending with
    | exit code => exact ht rfl
    | result result =>
      refine wp_mono (finish_calls.wp t) (fun _ u hu => ?_) (fun _ u hu => ?_)
      · rw [show u.world.2 = t.world.2 from hu]
        exact ht rfl
      · rw [show u.world.2 = t.world.2 from hu]
        exact ht rfl
  · have hcalls : w₁.2 = [] := (sameCalls_first services.getLatestSchema).reply h₁
    exact ⟨fun _ => Or.inl hcalls, fun _ => Or.inl hcalls⟩

theorem CalledOnce.passed_iff {calls : List (List String)} (h : CalledOnce args job calls)
    (hcalls : calls ≠ []) (t : String) :
    Passed calls t ↔ t ∈ job.tables.keys ∧ (args.only = [] ∨ t ∈ args.only) := by
  rcases h with h | ⟨infos, hinfos, rfl⟩
  · exact absurd h hcalls
  · have hpassed : Passed [args.selected infos] t ↔ t ∈ args.selected infos := by simp [Passed]
    rw [hpassed, Args.selected, hinfos]
    by_cases honly : args.only = []
    · simp [honly]
    · simp [honly]

end Command

/-! ## Where the two paths agree -/

def Args.withRetries (args : Args) (retries : Int) : Args := { args with maxRetries := retries }

/-- The tables that a run with retries passes to the importer are those that a run without
passes, for a response that has every table completed and some file, when both get as far
as the importer and there is no marker: exactly when `--only` is empty or names every table
of the response. -/
theorem filter_respected_iff (services : Services W) (fuel fuel' : Nat) (args : Args)
    (job : ExportJobResponse) (unmarked : W → Prop) (retries : Int)
    (tableExport : Option (List TableExportInfo)) (w w' : W) (hretries : retries > 0)
    (hjob : services.Answers job)
    (hcompleted : ∀ entry ∈ job.tables.items, entry.2.status = "Completed")
    (hfiles : ∃ entry ∈ job.tables.items, entry.2.urls ≠ [])
    (hmarks : ImporterMarks services unmarked) (hw : unmarked w)
    (hrecovery : importerCalls services fuel (args.withRetries retries) tableExport w ≠ [])
    (hsingle : importerCalls services fuel' (args.withRetries 0) tableExport w' ≠ []) :
    (∀ t, Passed (importerCalls services fuel (args.withRetries retries) tableExport w) t ↔
      Passed (importerCalls services fuel' (args.withRetries 0) tableExport w') t) ↔
    (args.only = [] ∨ ∀ t ∈ job.tables.keys, t ∈ args.only) := by
  have hnone : failedTables job = [] := by
    rw [failedTables, List.map_eq_nil_iff, List.filter_eq_nil_iff]
    intro entry hentry
    rw [hcompleted entry hentry]
    decide
  have hall : ∀ t, Passed (importerCalls services fuel (args.withRetries retries) tableExport w) t ↔
      t ∈ job.tables.keys := by
    have hpath : doImport services.watched fuel (args.withRetries retries) =
        doImportWithRecovery services.watched fuel (args.withRetries retries) := if_pos hretries
    rw [importerCalls, hpath] at hrecovery ⊢
    have hcalls :=
      withRecovery_calls fuel (args.withRetries retries) hmarks hjob hnone tableExport hw
    exact (hcalls.resolve_left hrecovery).passed_iff
  have hfiltered : ∀ t, Passed (importerCalls services fuel' (args.withRetries 0) tableExport w') t ↔
      t ∈ job.tables.keys ∧ (args.only = [] ∨ t ∈ args.only) := by
    have hpath : doImport services.watched fuel' (args.withRetries 0) =
        singleAttempt services.watched fuel' (args.withRetries 0) := if_neg (Int.lt_irrefl 0)
    rw [importerCalls, hpath] at hsingle ⊢
    exact (singleAttempt_calls hjob hfiles rfl).passed_iff hsingle
  constructor
  · intro hsame
    by_cases honly : args.only = []
    · exact Or.inl honly
    · refine Or.inr fun t ht => ?_
      have hpassed := (hfiltered t).mp ((hsame t).mp ((hall t).mpr ht))
      exact hpassed.2.resolve_left honly
  · intro hcond t
    rw [hall, hfiltered]
    refine ⟨fun ht => ⟨ht, ?_⟩, And.left⟩
    exact hcond.imp id fun hnamed => hnamed t ht

/-! ## A job that is resumed with a filter -/

/-- The job has the tables `orders` and `users`, both completed and both with a file. -/
def ExportJobResponse.ordersAndUsers : ExportJobResponse where
  completed := true
  tables :=
    ⟨[("orders", ⟨"", "Completed",
        ["https://export/202601010000000000000000000000000-1-1-orders-1.ndjson.gz"], ""⟩),
      ("users", ⟨"", "Completed",
        ["https://export/202601010000000000000000000000000-1-1-users-1.ndjson.gz"], ""⟩)], by decide⟩

/-- `--only orders --job-id job` -/
def Args.onlyOrders : Args where
  only := ["orders"]
  jobId := "job"
  maxRetries := 5
  supportsMigration := false

theorem serving_answers (job : ExportJobResponse) : (Services.serving job).Answers job :=
  fun _ => returns_pure rfl

theorem serving_marks (job : ExportJobResponse) :
    ImporterMarks (Services.serving job) fun _ => True where
  present _ _ _ := ⟨rfl, trivial⟩
  fetch _ _ := id
  cancelled _ := id
  pause _ := id
  fetchAll _ _ _ := id
  createExportJob _ _ := id
  makeDir _ _ := id
  sleep _ _ := id
  getLatestSchema _ := id

theorem recoveryCalls_onlyOrders :
    importerCalls (Services.serving .ordersAndUsers) 1 (Args.onlyOrders.withRetries 5) none () =
      [["orders", "users"]] := by
  decide +kernel

theorem singleCalls_onlyOrders :
    importerCalls (Services.serving .ordersAndUsers) 1 (Args.onlyOrders.withRetries 0) none () =
      [["orders"]] := by
  decide +kernel

/-- With retries `users`, which the filter leaves out, is passed to the importer. -/
theorem filter_ignored_on_resume :
    let services := Services.serving .ordersAndUsers
    services.Answers .ordersAndUsers ∧
    (∀ entry ∈ ExportJobResponse.ordersAndUsers.tables.items,
      entry.2.status = "Completed" ∧ entry.2.urls ≠ []) ∧
    Passed (importerCalls services 1 (Args.onlyOrders.withRetries 5) none ()) "users" ∧
    ¬ Passed (importerCalls services 1 (Args.onlyOrders.withRetries 0) none ()) "users" := by
  refine ⟨serving_answers _, by decide, ?_, ?_⟩
  · rw [recoveryCalls_onlyOrders]
    exact ⟨_, List.mem_cons_self, by decide⟩
  · rw [singleCalls_onlyOrders]
    simp [Passed]

theorem filter_respected_iff_onlyOrders :
    ¬ ∀ t, Passed (importerCalls (Services.serving .ordersAndUsers) 1
        (Args.onlyOrders.withRetries 5) none ()) t ↔
      Passed (importerCalls (Services.serving .ordersAndUsers) 1
        (Args.onlyOrders.withRetries 0) none ()) t := by
  intro hsame
  have hcond := (filter_respected_iff (Services.serving .ordersAndUsers) 1 1 .onlyOrders
    .ordersAndUsers (fun _ => True) 5 none () () (by decide) (serving_answers _) (by decide) (by decide)
    (serving_marks _) trivial (by rw [recoveryCalls_onlyOrders]; nofun)
    (by rw [singleCalls_onlyOrders]; nofun)).mp hsame
  revert hcond
  decide

end Import
end Eds
