import Eds.Import.Recovery
import Mathlib.Logic.Relation

/-!
# What the recovery loop can do

Of the state of the loop the properties need the two lists that make up the result,
the working set, the response of the attempt and the trace: the `View`.  `Move`
lists what the loop does to it, one move at a time, and `Point` says where the loop
stands: between two attempts, before the poll, with a job response, in the import,
or with an exception in hand.

`attempts_path` says that every run of the loop is a path of such moves.  The
properties of the loop are proved by one case per move.
-/

namespace Eds
namespace Import

open Effects Effects.Prog Effects.Traced Collections

variable {W : Type}

inductive Point where
  | between
  | posting
  | polled (job : ExportJobResponse)
  | importing (job : ExportJobResponse) (info : List TableExportInfo)
  | settled
  | failing (e : Exn)
  | raised (e : Exn)

structure View where
  imported : List String
  infoAll : List TableExportInfo
  working : Option (List String)
  response : Option ExportJobResponse
  trace : List Event

def view (s : RState W) : View where
  imported := s.vars.imported
  infoAll := s.vars.infoAll
  working := s.vars.working
  response := s.vars.response
  trace := s.trace

/-- Some call of the poll stage gave the response. -/
def Stages.Polled (stages : Stages W) (job : ExportJobResponse) : Prop :=
  ∃ jobId w w', stages.pollFn jobId w = (.ok job, w')

/-- Some call of the download stage gave the cutoffs. -/
def Stages.Downloaded (stages : Stages W) (job : ExportJobResponse) (ready : List String)
    (info : List TableExportInfo) : Prop :=
  ∃ jobId w dir w', stages.downloadFn job ready jobId w = (.ok (info, dir), w')

section

variable (stages : Stages W) (req : Request)

inductive Move : Point × View → Point × View → Prop where
  | start {v : View} : Move (.between, v) (.posting, { v with response := none })
  | poll {v : View} {job : ExportJobResponse} (hjob : stages.Polled job) :
      Move (.posting, v) (.polled job, { v with
        working := some (presentIn job v.imported)
        response := some job
        trace := v.trace ++ [.polled job v.imported] })
  | postRaised {v : View} (e : Exn) : Move (.posting, v) (.failing e, v)
  | downloadRaised {job : ExportJobResponse} {v : View} (e : Exn) :
      Move (.polled job, v) (.failing e, v)
  | download {job : ExportJobResponse} {v : View} {info : List TableExportInfo}
      (hready : readyIn job v.imported ≠ [])
      (hinfo : stages.Downloaded job (readyIn job v.imported) info) :
      Move (.polled job, v) (.importing job info, { v with
        trace := v.trace ++ [.importing job (readyIn job v.imported)] })
  | importRaised {job : ExportJobResponse} {info : List TableExportInfo} {v : View} (e : Exn) :
      Move (.importing job info, v) (.failing e, v)
  | load {job : ExportJobResponse} {info : List TableExportInfo} {v : View} :
      Move (.importing job info, v) (.settled, { v with
        imported := adjoin v.imported (readyIn job v.imported)
        infoAll := v.infoAll ++ info
        working := v.working.map fun w => w.filter fun t => t ∉ readyIn job v.imported
        trace := v.trace ++ [.loaded job (readyIn job v.imported)] ++
          [.imported (adjoin v.imported (readyIn job v.imported))] })
  | skip {job : ExportJobResponse} {v : View} (h : readyIn job v.imported = []) :
      Move (.polled job, v) (.settled, v)
  | settle {v : View} : Move (.settled, v) (.between, v)
  | giveUp {v : View} (e : Exn) : Move (.failing e, v) (.raised e, v)
  | lookupRaised {e : Exn} {v : View} (e' : Exn) :
      Move (.failing e, v) (.raised e', { v with trace := v.trace ++ [.failed e] })
  | recover {e : Exn} {v : View} :
      Move (.failing e, v) (.between, { v with
        working := scopeOf req v.working
        trace := v.trace ++ [.failed e] })
  | recoverFlushed {e : Exn} {v : View} {scope flushed : List String}
      (hscope : scopeOf req v.working = some scope) (hflushed : ∀ t ∈ flushed, t ∈ scope) :
      Move (.failing e, v) (.between, { v with
        imported := adjoin v.imported flushed
        working := some (scope.filter fun t => t ∉ flushed)
        trace := v.trace ++ [.failed e] ++ flushed.map (.flushed v.response) ++
          [.imported (adjoin v.imported flushed)] })
  | sleep {v : View} (n : Nat) :
      Move (.between, v) (.between, { v with trace := v.trace ++ [.slept n] })
  | abort {v : View} (e : Exn) : Move (.between, v) (.raised e, v)

abbrev Path : Point × View → Point × View → Prop := Relation.ReflTransGen (Move stages req)

end

variable {stages : Stages W} {req : Request}

theorem path_invariant {I : Point × View → Prop}
    (hstep : ∀ {x y}, Move stages req x y → I x → I y) {x y : Point × View}
    (h : Path stages req x y) (hx : I x) : I y := by
  induction h with
  | refl => exact hx
  | tail _ hlast ih => exact hstep hlast ih

/-! ## The programs follow the moves

Inside the `try` an exception `e` leads to `failing e`, outside to `raised e`. -/

section Paths

variable {x₀ : Point × View} {s : RState W}

theorem post_view :
    wp (post stages) (fun _ t => view t = view s) (fun _ t => view t = view s) s := by
  rw [post, wp_bind, wp_read, wp_bind, wp_read]
  by_cases hpost : s.vars.needPost = true
  · rw [if_pos hpost, wp_bind]
    exact wp_outside (fun _ _ _ => rfl) (fun _ _ _ => rfl)
  · rw [if_neg hpost]
    rfl

theorem pollJob_path (h : Path stages req x₀ (.posting, view s)) :
    wp (pollJob stages)
      (fun job t => Path stages req x₀ (.polled job, view t) ∧ t.vars.working.isSome = true)
      (fun e t => Path stages req x₀ (.failing e, view t)) s := by
  rw [pollJob, wp_bind, wp_read, wp_bind]
  refine wp_outside (fun job w hp => ?_) (fun e w hp => h.tail (.postRaised e))
  rw [wp_bind, wp_read, wp_bind, wp_note, wp_bind, wp_assign, wp_pure]
  exact ⟨h.tail (.poll ⟨_, _, _, hp⟩), rfl⟩

theorem load_path {job : ExportJobResponse} (h : Path stages req x₀ (.polled job, view s))
    (hready : readyIn job s.vars.imported ≠ []) (hsome : s.vars.working.isSome = true) :
    wp (load stages job (readyIn job s.vars.imported))
      (fun _ t => Path stages req x₀ (.settled, view t) ∧ t.vars.working.isSome = true)
      (fun e t => Path stages req x₀ (.failing e, view t)) s := by
  rw [load, wp_bind, wp_read, wp_bind]
  refine wp_outside (fun reply w hp => ?_) (fun e w hp => h.tail (.downloadRaised e))
  obtain ⟨info, dir⟩ := reply
  have himport := h.tail (.download hready ⟨_, _, _, _, hp⟩)
  rw [wp_bind, wp_note, wp_bind]
  refine wp_outside (fun _ w _ => ?_) (fun e w _ => himport.tail (.importRaised e))
  rw [wp_bind, wp_note, wp_bind, wp_read, wp_bind, wp_note, wp_assign]
  exact ⟨himport.tail .load, by simpa using hsome⟩

theorem remaining_path (h : Path stages req x₀ (.settled, view s))
    (hsome : s.vars.working.isSome = true) :
    wp (remaining : RProg W Bool)
      (fun done t => Path stages req x₀ (.between, view t) ∧
        (done = true → t.vars.working = some []))
      (fun e t => Path stages req x₀ (.failing e, view t)) s := by
  rw [remaining, wp_bind, wp_read]
  by_cases hleft : s.vars.working.getD [] = []
  · rw [if_pos hleft, wp_pure]
    obtain ⟨w, hw⟩ := Option.isSome_iff_exists.mp hsome
    rw [hw] at hleft
    exact ⟨h.tail .settle, fun _ => by rw [hw]; exact congrArg some hleft⟩
  · rw [if_neg hleft, wp_bind, wp_assign, wp_pure]
    exact ⟨h.tail .settle, nofun⟩

theorem attempt_path (h : Path stages req x₀ (.between, view s)) :
    wp (attempt stages)
      (fun done t => Path stages req x₀ (.between, view t) ∧
        (done = true → t.vars.working = some []))
      (fun e t => Path stages req x₀ (.failing e, view t)) s := by
  rw [attempt, wp_bind, wp_assign, wp_bind]
  have hstart := h.tail .start
  refine wp_mono post_view (fun _ t ht => ?_) (fun e t ht => ?_)
  · rw [wp_bind]
    apply wp_post (pollJob_path (s := t) (by rw [ht]; exact hstart))
    intro job t hjob
    rw [wp_bind, wp_read]
    by_cases hready : readyIn job t.vars.imported = []
    · rw [if_neg (not_not.mpr hready)]
      exact remaining_path (hjob.1.tail (.skip hready)) hjob.2
    · rw [if_pos hready, wp_bind]
      exact wp_post (load_path hjob.1 hready hjob.2) fun _ t ht => remaining_path ht.1 ht.2
  · rw [ht]
    exact hstart.tail (.postRaised e)

theorem mem_of_marked {present : String → Prog Exn W Bool} {scope found : List String} {w w' : W}
    (h : marked present scope w = (.ok found, w')) : ∀ x ∈ found, x ∈ scope := by
  have hspec : wp (marked present scope) (fun found _ => ∀ x ∈ found, x ∈ scope)
      (fun _ _ => True) w := by
    clear h
    induction scope generalizing w with
    | nil => exact nofun
    | cons t rest ih =>
      rw [marked, wp_bind]
      refine wp_any (fun hit w => ?_) (fun _ _ => trivial)
      rw [wp_bind]
      refine wp_mono ih (fun more w hmore => ?_) (fun _ _ h => h)
      rw [wp_pure]
      cases hit with
      | false => exact fun x hx => List.mem_cons_of_mem t (hmore x hx)
      | true =>
        intro x hx
        rcases List.mem_cons.mp hx with rfl | hx
        · exact List.mem_cons_self
        · exact List.mem_cons_of_mem t (hmore x hx)
  exact wp_ok hspec h

theorem recover_path {e : Exn} (h : Path stages req x₀ (.failing e, view s)) :
    wp (recover stages req e) (fun _ t => Path stages req x₀ (.between, view t))
      (fun e t => Path stages req x₀ (.raised e, view t)) s := by
  rw [recover, wp_bind, wp_note, wp_bind, wp_read, wp_bind]
  show wp (dropFlushed stages req (scopeOf req s.vars.working)) _ _ _
  cases hscope : scopeOf req s.vars.working with
  | none =>
    have hmove := h.tail .recover
    rw [show (view s).working = s.vars.working from rfl, hscope] at hmove
    exact hmove
  | some scope =>
    by_cases hmarks : req.marks = true
    · rw [dropFlushed, if_pos hmarks, wp_bind]
      refine wp_outside (fun flushed w hmarked => ?_) (fun e' w _ => h.tail (.lookupRaised e'))
      rw [wp_bind, wp_read, wp_bind, wp_each_note, wp_bind, wp_read, wp_bind, wp_note, wp_bind,
        wp_assign, wp_pure]
      have hmove := h.tail (.recoverFlushed (v := view s) hscope (mem_of_marked hmarked))
      refine (congrArg (fun v => Path stages req x₀ (.between, v)) ?_).mpr hmove
      simp [view]
    · rw [dropFlushed, if_neg hmarks, wp_pure]
      have hmove := h.tail .recover
      rw [show (view s).working = s.vars.working from rfl, hscope] at hmove
      exact hmove

theorem tryAttempt_path (h : Path stages req x₀ (.between, view s)) :
    wp (tryAttempt stages req)
      (fun done t => Path stages req x₀ (.between, view t) ∧
        (done = true → t.vars.working = some []))
      (fun e t => Path stages req x₀ (.raised e, view t)) s := by
  refine wp_tryExcept (wp_mono (attempt_path h) (fun _ _ ht => ht)
    (fun e t ht => ⟨fun _ => ?_, fun _ => ?_⟩))
  · by_cases hr : isRecoverable e = true
    · rw [if_pos hr, wp_bind]
      exact wp_mono (recover_path ht) (fun _ _ hu => ⟨hu, nofun⟩) (fun _ _ hu => hu)
    · rw [if_neg hr]
      exact ht.tail (.giveUp e)
  · exact ht.tail (.giveUp e)

theorem round_path (h : Path stages req x₀ (.between, view s)) :
    wp (round stages req)
      (fun ended t => Path stages req x₀ (.between, view t) ∧
        (ended = true ↔ t.vars.working = some []))
      (fun e t => Path stages req x₀ (.raised e, view t)) s := by
  rw [round, wp_bind]
  apply wp_post (tryAttempt_path h)
  intro done t ht
  rw [wp_bind, wp_read, wp_pure]
  refine ⟨ht.1, ?_⟩
  rw [Bool.or_eq_true, decide_eq_true_iff]
  exact ⟨fun hover => hover.elim ht.2 id, Or.inr⟩

theorem checkCancelled_path (h : Path stages req x₀ (.between, view s)) :
    wp (checkCancelled stages) (fun _ t => Path stages req x₀ (.between, view t))
      (fun e t => Path stages req x₀ (.raised e, view t)) s := by
  rw [checkCancelled, wp_bind]
  refine wp_outside (fun stop w _ => ?_) (fun e w _ => h.tail (.abort e))
  cases stop with
  | true => exact h.tail (.abort _)
  | false => exact h

theorem backOff_path {n : Nat} (h : Path stages req x₀ (.between, view s)) :
    wp (backOff stages n) (fun _ t => Path stages req x₀ (.between, view t))
      (fun e t => Path stages req x₀ (.raised e, view t)) s := by
  rw [backOff, wp_bind]
  apply wp_post (checkCancelled_path h)
  intro _ t ht
  have hslept := ht.tail (.sleep (30 * 2 ^ n))
  rw [wp_bind, wp_note, wp_bind]
  exact wp_outside (fun _ _ _ => checkCancelled_path hslept) (fun e _ _ => hslept.tail (.abort e))

theorem attempts_path {done retries : Nat} (h : Path stages req x₀ (.between, view s)) :
    wp (attempts stages req done retries)
      (fun exhausted t => Path stages req x₀ (.between, view t) ∧
        (exhausted = false ↔ t.vars.working = some []))
      (fun e t => Path stages req x₀ (.raised e, view t)) s := by
  induction retries generalizing s done with
  | zero =>
    rw [attempts, wp_bind]
    apply wp_post (round_path h)
    intro ended t ht
    rw [wp_pure, Bool.not_eq_false']
    exact ht
  | succ retries ih =>
    rw [attempts, wp_bind]
    apply wp_post (round_path h)
    intro ended t ht
    cases ended with
    | true =>
      rw [if_pos rfl, wp_pure]
      exact ⟨ht.1, fun _ => ht.2.mp rfl, fun _ => rfl⟩
    | false =>
      rw [if_neg Bool.false_ne_true, wp_bind]
      exact wp_post (backOff_path ht.1) fun _ _ hu => ih hu

/-- The result of a run that returns, in terms of the view it ends with. -/
def resultOf (req : Request) (exhausted : Bool) (l : Loop) : RecoveryResult where
  imported := l.imported
  permanentlyFailed := permanentlyFailed req exhausted l.working
  tableExportInfo := l.infoAll
  jobId := l.jobId
  lastError := l.lastError

theorem runWithRecovery_path (w : W) :
    wp (runWithRecovery stages req)
      (fun r t => Path stages req (.between, view (RState.initial req w)) (.between, view t) ∧
        ∃ exhausted, (exhausted = false ↔ t.vars.working = some []) ∧
          r = resultOf req exhausted t.vars)
      (fun e t => Path stages req (.between, view (RState.initial req w)) (.raised e, view t))
      (RState.initial req w) := by
  rw [runWithRecovery, wp_bind]
  apply wp_post (attempts_path .refl)
  intro exhausted t ht
  exact ⟨ht.1, exhausted, ht.2, rfl⟩

/-- What every move preserves holds when the run is over, however it ends. -/
theorem run_invariant {I : Point × View → Prop}
    (hstep : ∀ {x y}, Move stages req x y → I x → I y) (w : W)
    (hw : I (.between, view (RState.initial req w))) :
    ∃ p, I (p, view (runWithRecovery stages req (RState.initial req w)).2) := by
  have hrun : wp (runWithRecovery stages req) _ _ _ := runWithRecovery_path w
  rcases wp_elim hrun with ⟨_, _, hpath, _⟩ | ⟨e, _, hpath⟩
  · exact ⟨_, path_invariant hstep hpath hw⟩
  · exact ⟨_, path_invariant hstep hpath hw⟩

end Paths

end Import
end Eds
