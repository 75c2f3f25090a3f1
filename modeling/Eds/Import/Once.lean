import Eds.Import.Attempts
import Eds.Effects.History

/-!
# No table is imported twice

`import_fn` drops and recreates the tables it is given, so a table that is done with
must not be in its list again.  The list of an attempt is recomputed from the job
response and from `imported`, and the invariant is that `imported` holds all that is
done with: the tables completed before, those of the attempts whose import returned,
and those whose marker was found after a failure.
-/

namespace Eds
namespace Import

open Effects Effects.Prog Effects.Traced Collections

variable {W : Type}

/-! ## The lists of an attempt -/

theorem mem_adjoin {imported tables : List String} {x : String} :
    x ∈ adjoin imported tables ↔ x ∈ imported ∨ x ∈ tables := by
  induction tables generalizing imported with
  | nil => simp [adjoin]
  | cons t rest ih =>
    show x ∈ adjoin (if t ∈ imported then imported else imported ++ [t]) rest ↔ _
    rw [ih, List.mem_cons]
    by_cases ht : t ∈ imported
    · rw [if_pos ht]
      constructor
      · exact fun h => h.imp id Or.inr
      · intro hgiven
        rcases hgiven with h | rfl | h
        · exact Or.inl h
        · exact Or.inl ht
        · exact Or.inr h
    · rw [if_neg ht, List.mem_append, List.mem_singleton, or_assoc]

theorem adjoin_extends (imported tables : List String) : imported <+: adjoin imported tables := by
  induction tables generalizing imported with
  | nil => exact List.prefix_refl imported
  | cons t rest ih =>
    show imported <+: adjoin (if t ∈ imported then imported else imported ++ [t]) rest
    by_cases ht : t ∈ imported
    · rw [if_pos ht]
      exact ih imported
    · rw [if_neg ht]
      exact (List.prefix_append imported [t]).trans (ih _)

theorem nodup_adjoin {imported : List String} (h : imported.Nodup) (tables : List String) :
    (adjoin imported tables).Nodup := by
  induction tables generalizing imported with
  | nil => exact h
  | cons t rest ih =>
    show (adjoin (if t ∈ imported then imported else imported ++ [t]) rest).Nodup
    by_cases ht : t ∈ imported
    · rw [if_pos ht]
      exact ih h
    · rw [if_neg ht]
      exact ih (List.nodup_append.mpr ⟨h, List.nodup_singleton t, fun x hx y hy hxy => by
        rw [List.mem_singleton.mp hy] at hxy
        exact ht (hxy ▸ hx)⟩)

theorem mem_presentIn {job : ExportJobResponse} {imported : List String} {x : String} :
    x ∈ presentIn job imported ↔ x ∈ job.tables.keys ∧ x ∉ imported := by
  simp [presentIn]

theorem mem_readyIn {job : ExportJobResponse} {imported : List String} {x : String} :
    x ∈ readyIn job imported ↔ x ∈ presentIn job imported ∧ x ∉ failedTables job := by
  simp only [readyIn, List.mem_filter, decide_eq_true_eq]
  constructor
  · exact fun h => ⟨h.1, fun hfailed => h.2 ⟨hfailed, h.1⟩⟩
  · exact fun h => ⟨h.1, fun hfailed => h.2 hfailed.1⟩

theorem nodup_readyIn (job : ExportJobResponse) (imported : List String) :
    (readyIn job imported).Nodup :=
  (job.tables.keys_nodup.filter _).filter _

/-! ## The invariant -/

/-- The table was loaded by an attempt, or found flushed after one. -/
def Done (t : List Event) (x : String) : Prop :=
  (∃ job tables, .loaded job tables ∈ t ∧ x ∈ tables) ∨ ∃ response, .flushed response x ∈ t

/-- What is imported is not done yet, and `imported` only grows. -/
def Allowed (req : Request) (pre : List Event) : Event → Prop
  | .importing _ tables => tables.Nodup ∧ ∀ x ∈ tables, x ∉ req.completedTables ∧ ¬ Done pre x
  | .imported tables => tables.Nodup ∧ (∀ x ∈ req.completedTables, x ∈ tables) ∧
      ∀ earlier, .imported earlier ∈ pre → earlier <+: tables
  | _ => True

structure Once (req : Request) (v : View) : Prop where
  guarded : Guarded (Allowed req) v.trace
  nodup : v.imported.Nodup
  completed : ∀ x ∈ req.completedTables, x ∈ v.imported
  done : ∀ x, Done v.trace x → x ∈ v.imported
  grown : ∀ earlier, .imported earlier ∈ v.trace → earlier <+: v.imported

/-- Neither a table done with nor a new value of `imported`. -/
def Event.plain : Event → Prop
  | .polled _ _ | .importing _ _ | .failed _ | .slept _ => True
  | .loaded _ _ | .flushed _ _ | .imported _ => False

theorem done_append {t t' : List Event} {x : String} :
    Done (t ++ t') x ↔ Done t x ∨ Done t' x := by
  simp only [Done, List.mem_append, or_and_right, exists_or]
  exact or_or_or_comm

theorem not_done_plain {e : Event} (he : e.plain) (x : String) : ¬ Done [e] x := by
  intro h
  rcases h with ⟨job, tables, hmem, _⟩ | ⟨response, hmem⟩
  · rw [List.mem_singleton] at hmem
    subst hmem
    exact he
  · rw [List.mem_singleton] at hmem
    subst hmem
    exact he

theorem Once.plain {req : Request} {v v' : View} (h : Once req v) {e : Event} (he : e.plain)
    (hallowed : Allowed req v.trace e) (himported : v'.imported = v.imported)
    (htrace : v'.trace = v.trace ++ [e]) : Once req v' := by
  refine ⟨?_, himported ▸ h.nodup, himported ▸ h.completed, fun x hx => ?_, fun earlier hmem => ?_⟩
  · rw [htrace]
    exact h.guarded.snoc hallowed
  · rw [htrace, done_append] at hx
    rw [himported]
    exact hx.elim (h.done x) fun hx => absurd hx (not_done_plain he x)
  · rw [htrace, List.mem_append, List.mem_singleton] at hmem
    rw [himported]
    rcases hmem with hmem | rfl
    · exact h.grown earlier hmem
    · exact absurd he id

theorem Once.same {req : Request} {v v' : View} (h : Once req v)
    (himported : v'.imported = v.imported) (htrace : v'.trace = v.trace) : Once req v' := by
  obtain ⟨hguarded, hnodup, hcompleted, hdone, hgrown⟩ := h
  rw [← himported] at hnodup
  refine ⟨htrace ▸ hguarded, hnodup, ?_, ?_, ?_⟩
  · rw [himported]
    exact hcompleted
  · rw [himported, htrace]
    exact hdone
  · rw [himported, htrace]
    exact hgrown

/-- `tables` are done with and join `imported`. -/
theorem Once.grow {req : Request} {v v' : View} (h : Once req v) {es : List Event}
    {tables : List String} (hquiet : Guarded (Allowed req) (v.trace ++ es))
    (hes : ∀ earlier, .imported earlier ∉ es) (hdone : ∀ x, Done es x → x ∈ tables)
    (himported : v'.imported = adjoin v.imported tables)
    (htrace : v'.trace = v.trace ++ es ++ [.imported (adjoin v.imported tables)]) :
    Once req v' := by
  have hgrown : ∀ earlier, .imported earlier ∈ v.trace ++ es →
      earlier <+: adjoin v.imported tables := by
    intro earlier hmem
    rcases List.mem_append.mp hmem with hmem | hmem
    · exact (h.grown earlier hmem).trans (adjoin_extends _ _)
    · exact absurd hmem (hes earlier)
  have hcompleted : ∀ x ∈ req.completedTables, x ∈ adjoin v.imported tables := fun x hx =>
    mem_adjoin.mpr (Or.inl (h.completed x hx))
  refine ⟨?_, ?_, ?_, fun x hx => ?_, fun earlier hmem => ?_⟩
  · rw [htrace]
    exact hquiet.snoc ⟨nodup_adjoin h.nodup tables, hcompleted, hgrown⟩
  · rw [himported]
    exact nodup_adjoin h.nodup tables
  · rw [himported]
    exact hcompleted
  · rw [htrace, done_append, done_append] at hx
    rw [himported, mem_adjoin]
    rcases hx with (hx | hx) | hx
    · exact Or.inl (h.done x hx)
    · exact Or.inr (hdone x hx)
    · rcases hx with ⟨job, tables, hmem, _⟩ | ⟨response, hmem⟩
      · exact absurd (List.mem_singleton.mp hmem) nofun
      · exact absurd (List.mem_singleton.mp hmem) nofun
  · rw [htrace, List.mem_append, List.mem_singleton] at hmem
    rw [himported]
    rcases hmem with hmem | hmem
    · exact hgrown earlier hmem
    · cases hmem
      exact List.prefix_refl _

section Moves

variable {stages : Stages W} {req : Request}

theorem once_move {x y : Point × View} (h : Move stages req x y) (hx : Once req x.2) :
    Once req y.2 := by
  cases h with
  | start => exact hx.same rfl rfl
  | poll _ => exact hx.plain (e := .polled _ _) trivial trivial rfl rfl
  | postRaised e => exact hx
  | downloadRaised e => exact hx
  | @download job v info _ _ =>
    refine hx.plain (e := .importing job (readyIn job v.imported)) trivial ?_ rfl rfl
    refine ⟨nodup_readyIn job v.imported, fun x hready => ?_⟩
    have hnew : x ∉ v.imported := (mem_presentIn.mp (mem_readyIn.mp hready).1).2
    exact ⟨fun hcompleted => hnew (hx.completed x hcompleted), fun hdone => hnew (hx.done x hdone)⟩
  | importRaised e => exact hx
  | @load job info v =>
    have hloaded : Guarded (Allowed req) (v.trace ++ [.loaded job (readyIn job v.imported)]) :=
      hx.guarded.snoc trivial
    have hdone : ∀ x, Done [.loaded job (readyIn job v.imported)] x → x ∈ readyIn job v.imported := by
      intro x hgiven
      rcases hgiven with ⟨job', tables, hmem, hx⟩ | ⟨response, hmem⟩
      · cases List.mem_singleton.mp hmem
        exact hx
      · cases List.mem_singleton.mp hmem
    exact hx.grow hloaded (by simp) hdone rfl rfl
  | skip _ => exact hx
  | settle => exact hx
  | giveUp e => exact hx
  | @lookupRaised e v e' => exact hx.plain (e := .failed e) trivial trivial rfl rfl
  | @recover e v => exact hx.plain (e := .failed e) trivial trivial rfl rfl
  | @recoverFlushed e v scope flushed _ _ =>
    have hplain : ∀ o ∈ Event.failed e :: flushed.map (.flushed v.response), ∀ pre,
        Allowed req pre o := by
      intro o ho pre
      rcases List.mem_cons.mp ho with rfl | ho
      · trivial
      · obtain ⟨t, _, rfl⟩ := List.mem_map.mp ho
        trivial
    have hdone : ∀ x, Done (.failed e :: flushed.map (.flushed v.response)) x → x ∈ flushed := by
      intro x hgiven
      rcases hgiven with ⟨job, tables, hmem, _⟩ | ⟨response, hmem⟩
      · simp at hmem
      · have hmem : x ∈ flushed ∧ v.response = response := by simpa using hmem
        exact hmem.1
    exact hx.grow (hx.guarded.append hplain) (by simp) hdone rfl (by simp)
  | sleep n => exact hx.plain (e := .slept n) trivial trivial rfl rfl
  | abort e => exact hx

theorem once_initial (req : Request) (w : W) : Once req (view (RState.initial req w)) := by
  refine ⟨guarded_nil, List.nodup_dedup _, fun x hx => List.mem_dedup.mpr hx, fun x hx => ?_, nofun⟩
  rcases hx with ⟨_, _, hmem, _⟩ | ⟨_, hmem⟩
  · exact absurd hmem List.not_mem_nil
  · exact absurd hmem List.not_mem_nil

/-- No table is imported again once it is done with, and `imported` only grows.  The
list given to `import_fn` is free of duplicates and shares no table with the tables
completed before, the lists of the imports that returned or the tables found flushed
after a failure; and each value of `imported` extends the ones before it and holds
no table twice. -/
theorem no_table_imported_again (stages : Stages W) (req : Request) (w : W) :
    let out := runWithRecovery stages req (RState.initial req w)
    (∀ pre job tables post, out.2.trace = pre ++ .importing job tables :: post →
      tables.Nodup ∧ ∀ x ∈ tables, x ∉ req.completedTables ∧
        (∀ job' earlier, .loaded job' earlier ∈ pre → x ∉ earlier) ∧
        ∀ response, .flushed response x ∉ pre) ∧
    (∀ pre tables post, out.2.trace = pre ++ .imported tables :: post →
      tables.Nodup ∧ (∀ x ∈ req.completedTables, x ∈ tables) ∧
        ∀ earlier, .imported earlier ∈ pre → earlier <+: tables) ∧
    out.2.vars.imported.Nodup ∧
    ∀ earlier, .imported earlier ∈ out.2.trace → earlier <+: out.2.vars.imported := by
  intro out
  obtain ⟨_, honce⟩ : ∃ p : Point, Once req (p, view out.2).2 :=
    run_invariant once_move w (once_initial req w)
  refine ⟨fun pre job tables post ht => ?_, fun pre tables post ht => ?_, honce.nodup, honce.grown⟩
  · obtain ⟨hnodup, hnew⟩ := honce.guarded pre (.importing job tables) post ht
    refine ⟨hnodup, fun x hx => ⟨(hnew x hx).1, fun job' earlier hmem hearlier => ?_, ?_⟩⟩
    · exact (hnew x hx).2 (Or.inl ⟨job', earlier, hmem, hearlier⟩)
    · exact fun response hmem => (hnew x hx).2 (Or.inr ⟨response, hmem⟩)
  · exact honce.guarded pre (.imported tables) post ht

end Moves

end Import
end Eds
