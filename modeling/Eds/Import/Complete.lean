import Eds.Import.Once

/-!
# Which tables a run accounts for

The working set is overwritten at every poll by what the newest response lists, so
a run accounts for the tables of its last response and for those imported before it.
A table that was asked for, or that an earlier response listed, is lost when the last
response leaves it out.  `accounted_iff` says that this is the only way to lose one.
-/

namespace Eds
namespace Import

open Effects Effects.Prog Effects.Traced Collections

variable {W : Type}

def Event.polled? : Event → Option (ExportJobResponse × List String)
  | .polled job known => some (job, known)
  | .importing _ _ | .loaded _ _ | .failed _ | .flushed _ _ | .imported _ | .slept _ => none

/-- The job responses, each with the tables imported when it came. -/
def polls (t : List Event) : List (ExportJobResponse × List String) := t.filterMap Event.polled?

@[simp] theorem polls_nil : polls [] = [] := rfl

@[simp] theorem polls_append (t t' : List Event) : polls (t ++ t') = polls t ++ polls t' :=
  List.filterMap_append

@[simp] theorem polls_cons (e : Event) (t : List Event) :
    polls (e :: t) = e.polled?.toList ++ polls t := by
  cases e <;> rfl

@[simp] theorem polls_flushed (response : Option ExportJobResponse) (tables : List String) :
    polls (tables.map (.flushed response)) = [] := by
  induction tables with
  | nil => rfl
  | cons t rest ih => simpa [Event.polled?] using ih

/-- Some response listed the table. -/
def Learned (t : List Event) (x : String) : Prop := ∃ p ∈ polls t, x ∈ p.1.tables.keys

def lastPoll (t : List Event) : Option (ExportJobResponse × List String) := (polls t).getLast?

/-- Every table asked for, completed before or learned is in one of the two lists. -/
def Accounted (req : Request) (t : List Event) (r : RecoveryResult) : Prop :=
  r.permanentlyFailed = ["*"] ∨
    ∀ x, x ∈ req.initialExportTables ∨ x ∈ req.completedTables ∨ Learned t x →
      x ∈ r.imported ∨ x ∈ r.permanentlyFailed

/-- The last response lists every table asked for or learned that was not imported
when it came. -/
def LastListsOutstanding (req : Request) (t : List Event) : Prop :=
  ∀ job imported, lastPoll t = some (job, imported) →
    ∀ x, x ∈ req.initialExportTables ∨ Learned t x → x ∈ imported ∨ x ∈ job.tables.keys

/-! ## The invariant -/

/-- The working set and `imported` hold the tables of the last response, and nothing
else has joined them since. -/
structure Covers (p : ExportJobResponse × List String) (working imported : List String) : Prop where
  listed : ∀ x ∈ p.1.tables.keys, x ∈ working ∨ x ∈ imported
  working : ∀ x ∈ working, x ∈ p.1.tables.keys
  before : ∀ x ∈ p.2, x ∈ imported
  imported : ∀ x ∈ imported, x ∈ p.2 ∨ x ∈ p.1.tables.keys

/-- Before the first response the scope is what was asked for. -/
def Scoped (req : Request) (v : View) : Prop :=
  match lastPoll v.trace with
  | some p => ∃ working, v.working = some working ∧ Covers p working v.imported
  | none => ∀ working, v.working = some working →
      ∀ x ∈ req.initialExportTables, x ∈ working ∨ x ∈ v.imported

def Current (v : View) (job : ExportJobResponse) : Prop :=
  ∃ imported, lastPoll v.trace = some (job, imported)

def Complete (req : Request) (x : Point × View) : Prop :=
  Scoped req x.2 ∧
    match x.1 with
    | .polled job => Current x.2 job
    | .importing job _ => Current x.2 job
    | _ => True

theorem lastPoll_append {t es : List Event} (h : polls es = []) :
    lastPoll (t ++ es) = lastPoll t := by
  rw [lastPoll, polls_append, h, List.append_nil, lastPoll]

theorem lastPoll_snoc (t : List Event) (job : ExportJobResponse) (imported : List String) :
    lastPoll (t ++ [.polled job imported]) = some (job, imported) := by
  simp [lastPoll, Event.polled?]

theorem Scoped.keep {req : Request} {v v' : View} (h : Scoped req v)
    (htrace : lastPoll v'.trace = lastPoll v.trace) (hworking : v'.working = v.working)
    (himported : v'.imported = v.imported) : Scoped req v' := by
  rw [Scoped, htrace, hworking, himported]
  exact h

theorem Scoped.rescope {req : Request} {v v' : View} (h : Scoped req v)
    (htrace : lastPoll v'.trace = lastPoll v.trace) (hworking : v'.working = scopeOf req v.working)
    (himported : v'.imported = v.imported) : Scoped req v' := by
  cases hv : v.working with
  | some w =>
    rw [hv, scopeOf, ← hv] at hworking
    exact h.keep htrace hworking himported
  | none =>
    rw [Scoped] at h ⊢
    rw [htrace, himported]
    cases hlast : lastPoll v.trace with
    | some p =>
      rw [hlast, hv] at h
      obtain ⟨w, hw, _⟩ := h
      cases hw
    | none =>
      intro working hw x hx
      rw [hworking, hv, scopeOf] at hw
      split at hw
      · cases hw
      · exact Or.inl (Option.some_inj.mp hw ▸ hx)

/-- The tables `gone` leave the working set and join `imported`. -/
theorem Scoped.move {req : Request} {v v' : View} {scope gone : List String} (h : Scoped req v)
    (hscope : scopeOf req v.working = some scope) (hgone : ∀ x ∈ gone, x ∈ scope)
    (htrace : lastPoll v'.trace = lastPoll v.trace)
    (hworking : v'.working = some (scope.filter fun t => t ∉ gone))
    (himported : v'.imported = adjoin v.imported gone) : Scoped req v' := by
  have hsplit : ∀ x, x ∈ scope ∨ x ∈ v.imported →
      x ∈ scope.filter (fun t => t ∉ gone) ∨ x ∈ adjoin v.imported gone := by
    intro x hx
    rw [mem_adjoin]
    by_cases hg : x ∈ gone
    · exact Or.inr (Or.inr hg)
    · rcases hx with hx | hx
      · exact Or.inl (List.mem_filter.mpr ⟨hx, decide_eq_true hg⟩)
      · exact Or.inr (Or.inl hx)
  rw [Scoped] at h ⊢
  rw [htrace, himported]
  cases hlast : lastPoll v.trace with
  | none =>
    rw [hlast] at h
    intro working hw x hx
    rw [hworking, Option.some_inj] at hw
    rw [← hw]
    refine hsplit x ?_
    cases hv : v.working with
    | none =>
      rw [hv, scopeOf] at hscope
      split at hscope
      · cases hscope
      · exact Or.inl (Option.some_inj.mp hscope ▸ hx)
    | some w =>
      rw [hv, scopeOf, Option.some_inj] at hscope
      exact hscope ▸ h w hv x hx
  | some p =>
    rw [hlast] at h
    obtain ⟨w, hv, hcovers⟩ := h
    rw [hv, scopeOf, Option.some_inj] at hscope
    subst hscope
    refine ⟨_, hworking, fun x hx => hsplit x (hcovers.listed x hx), fun x hx => ?_, fun x hx => ?_,
      fun x hx => ?_⟩
    · exact hcovers.working x (List.mem_of_mem_filter hx)
    · exact mem_adjoin.mpr (Or.inl (hcovers.before x hx))
    · rcases mem_adjoin.mp hx with hx | hx
      · exact hcovers.imported x hx
      · exact Or.inr (hcovers.working x (hgone x hx))

section Moves

variable {stages : Stages W} {req : Request}

theorem complete_move {x y : Point × View} (h : Move stages req x y) (hx : Complete req x) :
    Complete req y := by
  obtain ⟨hscoped, hcurrent⟩ := hx
  cases h with
  | start => exact ⟨hscoped.keep rfl rfl rfl, trivial⟩
  | @poll v job _ =>
    refine ⟨?_, v.imported, lastPoll_snoc v.trace job v.imported⟩
    rw [Scoped, lastPoll_snoc]
    refine ⟨_, rfl, fun x hx => ?_, fun x hx => (mem_presentIn.mp hx).1, fun x hx => hx,
      fun x hx => Or.inl hx⟩
    by_cases himported : x ∈ v.imported
    · exact Or.inr himported
    · exact Or.inl (mem_presentIn.mpr ⟨hx, himported⟩)
  | postRaised e => exact ⟨hscoped, trivial⟩
  | downloadRaised e => exact ⟨hscoped, trivial⟩
  | @download job v info _ _ =>
    have hlast : lastPoll (v.trace ++ [.importing job (readyIn job v.imported)]) = lastPoll v.trace :=
      lastPoll_append rfl
    obtain ⟨known, hknown⟩ := hcurrent
    exact ⟨hscoped.keep hlast rfl rfl, known, hlast.trans hknown⟩
  | importRaised e => exact ⟨hscoped, trivial⟩
  | @load job info v =>
    obtain ⟨known, hknown⟩ := hcurrent
    have hlast := hscoped
    rw [Scoped, show lastPoll v.trace = _ from hknown] at hlast
    obtain ⟨working, hworking, hcovers⟩ := hlast
    have hready : ∀ x ∈ readyIn job v.imported, x ∈ working := by
      intro x hx
      obtain ⟨hkeys, hnew⟩ := mem_presentIn.mp (mem_readyIn.mp hx).1
      exact (hcovers.listed x hkeys).resolve_right hnew
    refine ⟨hscoped.move ?_ hready ?_ ?_ rfl, trivial⟩
    · rw [hworking, scopeOf]
    · show lastPoll (v.trace ++ [.loaded job (readyIn job v.imported)] ++ _) = _
      rw [lastPoll_append rfl, lastPoll_append rfl]
    · show v.working.map _ = _
      rw [hworking, Option.map_some]
  | skip _ => exact ⟨hscoped, trivial⟩
  | settle => exact ⟨hscoped, trivial⟩
  | giveUp e => exact ⟨hscoped, trivial⟩
  | lookupRaised e' => exact ⟨hscoped.keep (lastPoll_append rfl) rfl rfl, trivial⟩
  | recover => exact ⟨hscoped.rescope (lastPoll_append rfl) rfl rfl, trivial⟩
  | @recoverFlushed e v scope flushed hscope hflushed =>
    refine ⟨hscoped.move hscope hflushed ?_ rfl rfl, trivial⟩
    show lastPoll (v.trace ++ [.failed e] ++ flushed.map (.flushed v.response) ++ _) = _
    rw [lastPoll_append rfl, lastPoll_append (polls_flushed _ _), lastPoll_append rfl]
  | sleep n => exact ⟨hscoped.keep (lastPoll_append rfl) rfl rfl, trivial⟩
  | abort e => exact ⟨hscoped, trivial⟩

theorem complete_initial (req : Request) (w : W) :
    Complete req (.between, view (RState.initial req w)) :=
  ⟨fun _ hw => (nomatch hw), trivial⟩

/-- The lists a run that returns ends with. -/
theorem run_scoped {w : W} {r : RecoveryResult} {t : RState W}
    (h : runWithRecovery stages req (RState.initial req w) = (.ok r, t)) :
    Scoped req (view t) ∧ (∀ x ∈ req.completedTables, x ∈ r.imported) ∧
      ∃ exhausted, (exhausted = false ↔ t.vars.working = some []) ∧
        r = resultOf req exhausted t.vars := by
  obtain ⟨hpath, exhausted, hover, rfl⟩ := wp_ok (runWithRecovery_path w) h
  have hcomplete := path_invariant complete_move hpath (complete_initial req w)
  have honce : Once req (view t) :=
    path_invariant (I := fun x => Once req x.2) once_move hpath (once_initial req w)
  exact ⟨hcomplete.1, honce.completed, exhausted, hover, rfl⟩

/-- What is in the working set at the end has permanently failed. -/
theorem mem_permanentlyFailed {exhausted : Bool} {l : Loop} {working : List String}
    (hworking : l.working = some working) (hover : exhausted = false ↔ l.working = some [])
    (x : String) : x ∈ (resultOf req exhausted l).permanentlyFailed ↔ x ∈ working := by
  show x ∈ permanentlyFailed req exhausted l.working ↔ _
  cases exhausted with
  | false =>
    have hnil : working = [] := Option.some_inj.mp (hworking ▸ hover.mp rfl)
    rw [hnil]
    exact Iff.rfl
  | true =>
    rw [hworking]
    exact Iff.rfl

/-- Without a single response a run accounts for what was asked for. -/
theorem accounted_unpolled {exhausted : Bool} {t : RState W}
    (hscope : ∀ working, t.vars.working = some working →
      ∀ x ∈ req.initialExportTables, x ∈ working ∨ x ∈ t.vars.imported)
    (hcompleted : ∀ x ∈ req.completedTables, x ∈ t.vars.imported) (hlast : lastPoll t.trace = none)
    (hover : exhausted = false ↔ t.vars.working = some []) :
    Accounted req t.trace (resultOf req exhausted t.vars) := by
  have hunlearned : ∀ x, ¬ Learned t.trace x := by
    intro x h
    obtain ⟨p, hp, _⟩ := h
    rw [List.getLast?_eq_none_iff.mp hlast] at hp
    cases hp
  cases hworking : t.vars.working with
  | some working =>
    refine Or.inr fun x hx => ?_
    rw [mem_permanentlyFailed hworking hover]
    rcases hx with hx | hx | hx
    · exact (hscope working hworking x hx).symm
    · exact Or.inl (hcompleted x hx)
    · exact absurd hx (hunlearned x)
  | none =>
    have hexhausted : exhausted = true := by
      cases exhausted with
      | true => rfl
      | false =>
        have hnil := hover.mp rfl
        rw [hworking] at hnil
        cases hnil
    have hfailed : (resultOf req exhausted t.vars).permanentlyFailed =
        if req.initialExportTables = [] then ["*"] else req.initialExportTables := by
      show permanentlyFailed req exhausted t.vars.working = _
      rw [hexhausted, hworking]
      rfl
    by_cases hnil : req.initialExportTables = []
    · rw [if_pos hnil] at hfailed
      exact Or.inl hfailed
    · rw [if_neg hnil] at hfailed
      refine Or.inr fun x hx => ?_
      rw [hfailed]
      rcases hx with hx | hx | hx
      · exact Or.inr hx
      · exact Or.inl (hcompleted x hx)
      · exact absurd hx (hunlearned x)

/-- A run loses no table when its last response lists every table asked for or
learned that was not imported by then, and only then: unless a table is named like
the mark for a failed whole, a run that loses none had such a last response. -/
theorem accounted_iff (stages : Stages W) (req : Request) (w : W) (r : RecoveryResult)
    (t : RState W) (h : runWithRecovery stages req (RState.initial req w) = (.ok r, t)) :
    (LastListsOutstanding req t.trace → Accounted req t.trace r) ∧
    ((∀ p ∈ polls t.trace, "*" ∉ p.1.tables.keys) →
      Accounted req t.trace r → LastListsOutstanding req t.trace) := by
  obtain ⟨hscoped, hcompleted, exhausted, hover, rfl⟩ := run_scoped h
  rw [Scoped] at hscoped
  cases hlast : lastPoll t.trace with
  | none =>
    refine ⟨fun _ => ?_, fun _ _ job imported hsome => ?_⟩
    · rw [show lastPoll (view t).trace = none from hlast] at hscoped
      exact accounted_unpolled hscoped hcompleted hlast hover
    · rw [hlast] at hsome
      cases hsome
  | some p =>
    rw [show lastPoll (view t).trace = some p from hlast] at hscoped
    obtain ⟨working, hworking, hcovers⟩ := hscoped
    have hfailed : ∀ x, x ∈ (resultOf req exhausted t.vars).permanentlyFailed ↔ x ∈ working :=
      mem_permanentlyFailed hworking hover
    constructor
    · intro hlists
      refine Or.inr fun x hx => ?_
      rw [hfailed]
      have hmem : x ∈ req.completedTables ∨ x ∈ p.2 ∨ x ∈ p.1.tables.keys := by
        rcases hx with hx | hx | hx
        · exact Or.inr (hlists p.1 p.2 hlast x (Or.inl hx))
        · exact Or.inl hx
        · exact Or.inr (hlists p.1 p.2 hlast x (Or.inr hx))
      rcases hmem with hx | hx | hx
      · exact Or.inl (hcompleted x hx)
      · exact Or.inl (hcovers.before x hx)
      · exact (hcovers.listed x hx).symm
    · intro hstar haccounted job imported hsome x hx
      rw [hlast] at hsome
      cases hsome
      rcases haccounted with hall | haccounted
      · have hmem : "*" ∈ working := (hfailed "*").mp (by rw [hall]; exact List.mem_singleton_self _)
        exact absurd (hcovers.working "*" hmem) (hstar _ (List.mem_of_getLast? hlast))
      · rcases haccounted x (hx.imp id Or.inr) with hx | hx
        · exact hcovers.imported x hx
        · exact Or.inr (hcovers.working x ((hfailed x).mp hx))

end Moves

/-- A complete job that lists one of the two tables asked for. -/
def ExportJobResponse.onlyA : ExportJobResponse where
  completed := true
  tables := ⟨[("a", { error := "", status := "Completed", urls := ["a.gz"], cursor := "0" })],
    List.nodup_singleton "a"⟩

def Request.both : Request where
  maxRetries := 5
  initialExportTables := ["a", "b"]
  initialJobId := ""
  completedTables := []
  marks := true

def RecoveryResult.withoutB : RecoveryResult where
  imported := ["a"]
  permanentlyFailed := []
  tableExportInfo := []
  jobId := "job"
  lastError := ""

theorem omitted_table_unaccounted :
    let out := runWithRecovery (Stages.serving .onlyA) .both (RState.initial .both ())
    out.1 = .ok .withoutB ∧ ¬ Accounted .both out.2.trace .withoutB := by
  refine ⟨by decide +kernel, ?_⟩
  intro h
  rcases h with hall | hlists
  · exact absurd hall (by decide)
  · exact absurd (hlists "b" (Or.inl (by decide))) (by decide)

theorem accounted_iff_omitted :
    let out := runWithRecovery (Stages.serving .onlyA) .both (RState.initial .both ())
    out.1 = .ok .withoutB ∧
      (LastListsOutstanding .both out.2.trace → Accounted .both out.2.trace .withoutB) :=
  ⟨by decide +kernel, (accounted_iff (Stages.serving .onlyA) .both () .withoutB _
    (Prod.ext (by decide +kernel) rfl)).1⟩

end Import
end Eds
