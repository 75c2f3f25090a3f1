import Eds.Import.Once
import Eds.Import.Command

/-!
# Which exports are imported

The poll of the recovery loop returns as soon as some table has failed, while others
may still be exporting, and the loop takes every table that has not failed as ready.
A table is imported in the state `Completed` as long as the responses the poll
returns have no table in progress, and a marker found after a failure belongs to the
attempt that failed.
-/

namespace Eds
namespace Import

open Effects Effects.Prog Effects.Traced Collections

variable {W : Type}

theorem mem_failedTables {job : ExportJobResponse} {x : String} :
    x ∈ failedTables job ↔ job.status x = some "Failed" := by
  simp only [failedTables, ExportJobResponse.status, List.mem_map, List.mem_filter,
    Option.map_eq_some_iff, Dict.get?_eq_some, decide_eq_true_eq]
  constructor
  · intro h
    obtain ⟨⟨y, td⟩, ⟨hmem, hfailed⟩, rfl⟩ := h
    exact ⟨td, hmem, hfailed⟩
  · intro h
    obtain ⟨td, hmem, hfailed⟩ := h
    exact ⟨(x, td), ⟨hmem, hfailed⟩, rfl⟩

/-- What an attempt imports, and what it leaves flushed, was `Completed` in the
response it had. -/
def OnlyCompleted (t : List Event) : Prop :=
  (∀ job tables, .importing job tables ∈ t → ∀ x ∈ tables, job.status x = some "Completed") ∧
  ∀ response x, .flushed response x ∈ t →
    ∃ job, response = some job ∧ job.status x = some "Completed"

/-- The table was handed to an import, or found flushed after a failure. -/
def Touched (t : List Event) (x : String) : Prop :=
  (∃ job tables, .importing job tables ∈ t ∧ x ∈ tables) ∨ ∃ response, .flushed response x ∈ t

/-- No response that is imported from has a table in progress, other than the tables
imported before. -/
def NoneInProgress (t : List Event) : Prop :=
  ∀ job imported, .polled job imported ∈ t → .importing job (readyIn job imported) ∈ t →
    ∀ x ∈ job.tables.keys, x ∉ imported →
      job.status x = some "Completed" ∨ job.status x = some "Failed"

/-- A marker is found only on a table that the failed attempt was importing. -/
def OwnMarkers (t : List Event) : Prop :=
  ∀ pre response x post, t = pre ++ .flushed response x :: post →
    ∃ job tables, response = some job ∧ .importing job tables ∈ pre ∧ x ∈ tables

/-! ## Every import is of a response -/

/-- The response in hand was polled with the present value of `imported`. -/
def InHand (v : View) : Point → Prop
  | .polled job => .polled job v.imported ∈ v.trace
  | .importing job _ => .polled job v.imported ∈ v.trace ∧
      .importing job (readyIn job v.imported) ∈ v.trace
  | _ => True

structure Sourced (req : Request) (x : Point × View) : Prop where
  inHand : InHand x.2 x.1
  importing : ∀ job tables, .importing job tables ∈ x.2.trace →
    ∃ imported, .polled job imported ∈ x.2.trace ∧ tables = readyIn job imported
  imported : ∀ t ∈ x.2.imported, t ∈ req.completedTables ∨ Touched x.2.trace t

theorem Touched.append {t : List Event} {x : String} (h : Touched t x) (t' : List Event) :
    Touched (t ++ t') x :=
  h.imp (fun ⟨job, tables, hmem, hx⟩ => ⟨job, tables, List.mem_append_left t' hmem, hx⟩)
    fun ⟨response, hmem⟩ => ⟨response, List.mem_append_left t' hmem⟩

/-- A move that imports nothing: it adds `es`, and what joins `imported` is touched. -/
theorem Sourced.extend {req : Request} {p p' : Point} {v v' : View} (h : Sourced req (p, v))
    (es : List Event) (htrace : v'.trace = v.trace ++ es)
    (hes : ∀ job tables, .importing job tables ∉ es) (hin : InHand v' p')
    (himported : ∀ t ∈ v'.imported, t ∈ v.imported ∨ Touched v'.trace t) :
    Sourced req (p', v') := by
  refine ⟨hin, fun job tables hmem => ?_, fun t ht => ?_⟩
  · rw [show ((p', v') : Point × View).2.trace = v.trace ++ es from htrace] at hmem ⊢
    rcases List.mem_append.mp hmem with hmem | hmem
    · obtain ⟨imported, hpolled, htables⟩ := h.importing job tables hmem
      exact ⟨imported, List.mem_append_left es hpolled, htables⟩
    · exact absurd hmem (hes job tables)
  · rcases himported t ht with hold | hnew
    · show _ ∨ Touched v'.trace t
      rw [htrace]
      exact (h.imported t hold).imp id fun htouched => htouched.append es
    · exact Or.inr hnew

section Moves

variable {stages : Stages W} {req : Request}

theorem sourced_move {x y : Point × View} (h : Move stages req x y) (hx : Sourced req x) :
    Sourced req y := by
  have hkeep : ∀ {p' : Point} {v' : View}, v'.trace = x.2.trace → v'.imported = x.2.imported →
      InHand v' p' → Sourced req (p', v') := by
    intro p' v' htrace himported hin
    refine hx.extend [] (by rw [htrace, List.append_nil]) (fun _ _ => List.not_mem_nil) hin ?_
    intro t ht
    exact Or.inl (himported ▸ ht)
  cases h with
  | start => exact hkeep rfl rfl trivial
  | @poll v job hjob =>
    exact hx.extend [.polled job v.imported] rfl (by simp)
      (List.mem_append_right _ (List.mem_singleton_self _)) fun t ht => Or.inl ht
  | postRaised e => exact hkeep rfl rfl trivial
  | downloadRaised e => exact hkeep rfl rfl trivial
  | @download job v info hready hinfo =>
    have hin : .polled job v.imported ∈ v.trace := hx.inHand
    refine ⟨⟨List.mem_append_left _ hin, List.mem_append_right _ (List.mem_singleton_self _)⟩,
      fun job' tables hmem => ?_, fun t ht => (hx.imported t ht).imp id fun htouched =>
        htouched.append _⟩
    rcases List.mem_append.mp hmem with hmem | hmem
    · obtain ⟨imported, hpolled, htables⟩ := hx.importing job' tables hmem
      exact ⟨imported, List.mem_append_left _ hpolled, htables⟩
    · cases List.mem_singleton.mp hmem
      exact ⟨v.imported, List.mem_append_left _ hin, rfl⟩
  | importRaised e => exact hkeep rfl rfl trivial
  | @load job info v =>
    have hin : .importing job (readyIn job v.imported) ∈ v.trace := hx.inHand.2
    refine hx.extend [.loaded job (readyIn job v.imported),
      .imported (adjoin v.imported (readyIn job v.imported))] (by simp) (by simp) trivial ?_
    intro t ht
    refine (mem_adjoin.mp ht).imp id fun hready => Or.inl ⟨job, _, ?_, hready⟩
    simp [hin]
  | skip _ => exact hkeep rfl rfl trivial
  | settle => exact hkeep rfl rfl trivial
  | giveUp e => exact hkeep rfl rfl trivial
  | @lookupRaised e v e' =>
    exact hx.extend [.failed e] rfl (by simp) trivial fun t ht => Or.inl ht
  | @recover e v =>
    exact hx.extend [.failed e] rfl (by simp) trivial fun t ht => Or.inl ht
  | @recoverFlushed e v scope flushed _ _ =>
    refine hx.extend (.failed e :: (flushed.map (.flushed v.response) ++
      [.imported (adjoin v.imported flushed)])) (by simp) (by simp) trivial ?_
    intro t ht
    refine (mem_adjoin.mp ht).imp id fun hflushed => Or.inr ⟨v.response, ?_⟩
    simp [hflushed]
  | sleep n => exact hx.extend [.slept n] rfl (by simp) trivial fun t ht => Or.inl ht
  | abort e => exact hkeep rfl rfl trivial

theorem sourced_initial (req : Request) (w : W) :
    Sourced req (.between, view (RState.initial req w)) where
  inHand := trivial
  importing _ _ hmem := absurd hmem List.not_mem_nil
  imported _ ht := Or.inl (List.mem_dedup.mp ht)

theorem ready_completed {job : ExportJobResponse} {imported : List String} {x : String}
    (hfinished : x ∈ job.tables.keys → x ∉ imported →
      job.status x = some "Completed" ∨ job.status x = some "Failed")
    (hx : x ∈ readyIn job imported) : job.status x = some "Completed" := by
  obtain ⟨hpresent, hfailed⟩ := mem_readyIn.mp hx
  obtain ⟨hkey, hnew⟩ := mem_presentIn.mp hpresent
  exact (hfinished hkey hnew).resolve_right fun h => hfailed (mem_failedTables.mpr h)

/-- In a run whose markers are its own, only finished exports are imported exactly
when no response that is imported from has a table in progress.  A table is imported
by a call of `import_fn` or by the marker an attempt left behind, and there is no
third way into `imported`. -/
theorem only_completed_imported (services : Services W) (fuel : Nat) (req : Request) (w : W)
    (hmarkers : OwnMarkers
      (runWithRecovery (wire services fuel) req (RState.initial req w)).2.trace) :
    (OnlyCompleted (runWithRecovery (wire services fuel) req (RState.initial req w)).2.trace ↔
      NoneInProgress (runWithRecovery (wire services fuel) req (RState.initial req w)).2.trace) ∧
    ∀ x ∈ (runWithRecovery (wire services fuel) req (RState.initial req w)).2.vars.imported,
      x ∈ req.completedTables ∨
      Touched (runWithRecovery (wire services fuel) req (RState.initial req w)).2.trace x := by
  obtain ⟨p, hsourced⟩ :=
    run_invariant (I := Sourced req) sourced_move w (sourced_initial req w)
  generalize runWithRecovery (wire services fuel) req (RState.initial req w) = out at *
  refine ⟨⟨fun hcompleted job imported _ hmem x hkey hnew => ?_, fun hresponses => ?_⟩,
    hsourced.imported⟩
  · by_cases hfailed : x ∈ failedTables job
    · exact Or.inr (mem_failedTables.mp hfailed)
    · have hready : x ∈ readyIn job imported :=
        mem_readyIn.mpr ⟨mem_presentIn.mpr ⟨hkey, hnew⟩, hfailed⟩
      exact Or.inl (hcompleted.1 job _ hmem x hready)
  · have himporting : ∀ job tables, .importing job tables ∈ out.2.trace →
        ∀ x ∈ tables, job.status x = some "Completed" := by
      intro job tables hmem x hx
      obtain ⟨imported, hpolled, rfl⟩ := hsourced.importing job tables hmem
      exact ready_completed (hresponses job imported hpolled hmem x) hx
    refine ⟨himporting, fun response x hmem => ?_⟩
    obtain ⟨pre, post, hsplit⟩ := List.append_of_mem hmem
    obtain ⟨job, tables, hresponse, hbefore, hx⟩ := hmarkers pre response x post hsplit
    refine ⟨job, hresponse, himporting job tables ?_ x hx⟩
    rw [hsplit]
    exact List.mem_append_left _ hbefore

end Moves

/-! ## An export imported while it is running -/

def fileOfB : String := "https://export/202601010000000000000000000000000-1-1-b-1.ndjson.gz"

/-- One table has failed while the other is running, with a first file. -/
def ExportJobResponse.halfway : ExportJobResponse where
  completed := false
  tables := ⟨[("a", { error := "timeout", status := "Failed", urls := [], cursor := "" }),
    ("b", { error := "", status := "Running", urls := [fileOfB], cursor := "" })], by decide⟩

/-- The job is complete. -/
def ExportJobResponse.ended : ExportJobResponse where
  completed := true
  tables := ⟨[("b", { error := "", status := "Completed", urls := [fileOfB], cursor := "" })],
    List.nodup_singleton "b"⟩

/-- A single attempt at a full import. -/
def Request.single : Request where
  maxRetries := 0
  initialExportTables := []
  initialJobId := ""
  completedTables := []
  marks := true

theorem running_table_imported :
    let out := runWithRecovery (wire (Services.serving .halfway) 1) .single
      (RState.initial .single ())
    ¬ OnlyCompleted out.2.trace := by
  intro out h
  have hmem : .importing .halfway ["b"] ∈ out.2.trace := by decide +kernel
  exact absurd (h.1 .halfway ["b"] hmem "b" (by decide)) (by decide)

theorem ended_trace :
    (runWithRecovery (wire (Services.serving .ended) 1) .single (RState.initial .single ())).2.trace =
      [.polled .ended [], .importing .ended ["b"],
        .loaded .ended ["b"], .imported ["b"]] := by
  decide +kernel

theorem only_completed_imported_ended :
    let out := runWithRecovery (wire (Services.serving .ended) 1) .single
      (RState.initial .single ())
    .importing .ended ["b"] ∈ out.2.trace ∧
      (OnlyCompleted out.2.trace ↔ NoneInProgress out.2.trace) := by
  refine ⟨by decide +kernel, (only_completed_imported (Services.serving .ended) 1 .single () ?_).1⟩
  rw [ended_trace]
  intro pre response x post hsplit
  have hmem : Event.flushed response x ∈ pre ++ .flushed response x :: post := by simp
  rw [← hsplit] at hmem
  simp at hmem

end Import
end Eds
