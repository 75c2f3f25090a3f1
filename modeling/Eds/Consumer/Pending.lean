import Eds.Consumer.SqlComposition
import Eds.Consumer.Sequence

/-!
# The processor's own variables

Between two calls the batch, the time of its first message and the counter are
determined by what happened so far: the batch is what was handed to the driver
since its last flush, the time is set while there is a batch, and the counter has
passed exactly the messages that were skipped or handed over.

A message joins the batch before anything is known about it, and a skipped one is
taken out again by equality.  It is the message just added that goes, because the
ones before it have smaller numbers.
-/

namespace Eds
namespace Consumer

open Effects Effects.Prog Effects.Traced

variable {W M : Type}

/-! ## What the trace says of the batch -/

/-- The message was skipped or handed to the driver. -/
def Obs.settled : Obs M → Option M
  | .skipped m | .processed m _ _ => some m
  | .took _ | .flushed | .ack _ | .nak _ | .raised _ _ => none

def settled (t : List (Obs M)) : List M := t.filterMap Obs.settled

@[simp] theorem settled_append (t t' : List (Obs M)) : settled (t ++ t') = settled t ++ settled t' :=
  List.filterMap_append

@[simp] theorem settled_cons (o : Obs M) (t : List (Obs M)) :
    settled (o :: t) = o.settled.toList ++ settled t := by
  cases o <;> rfl

/-- The messages handed to the driver since it was last flushed. -/
def Obs.gather (batch : List M) : Obs M → List M
  | .processed m _ _ => batch ++ [m]
  | .flushed => []
  | .took _ | .skipped _ | .ack _ | .nak _ | .raised _ _ => batch

def unflushed (t : List (Obs M)) : List M := t.foldl Obs.gather []

@[simp] theorem unflushed_append (t t' : List (Obs M)) :
    unflushed (t ++ t') = t'.foldl Obs.gather (unflushed t) :=
  List.foldl_append

theorem gather_sublist {batch before : List M} {o : Obs M} (h : batch.Sublist before) :
    (o.gather batch).Sublist (before ++ o.settled.toList) := by
  cases o with
  | processed m seq evt => exact h.append (List.Sublist.refl _)
  | flushed => exact List.nil_sublist _
  | _ => exact h.trans (List.sublist_append_left _ _)

theorem foldl_gather_sublist {batch before : List M} (t : List (Obs M))
    (h : batch.Sublist before) : (t.foldl Obs.gather batch).Sublist (before ++ settled t) := by
  induction t generalizing batch before with
  | nil => exact h.trans (List.sublist_append_left _ _)
  | cons o rest ih =>
    rw [List.foldl_cons, settled_cons, ← List.append_assoc]
    exact ih (gather_sublist h)

theorem unflushed_sublist (t : List (Obs M)) : (unflushed t).Sublist (settled t) :=
  foldl_gather_sublist t (List.Sublist.refl [])

theorem Consecutive.mem_le {start n : Int} {l : List Int} (h : Consecutive start l) (hn : n ∈ l) :
    start < n ∧ n ≤ start + l.length := by
  induction l generalizing start with
  | nil => cases hn
  | cons k rest ih =>
    obtain ⟨hk, hrest⟩ := h
    rw [List.length_cons]
    push_cast
    rcases List.mem_cons.mp hn with rfl | hn
    · omega
    · have := ih hrest hn
      omega

theorem Consecutive.pairwise {start : Int} {l : List Int} (h : Consecutive start l) :
    l.Pairwise (· < ·) := by
  induction l generalizing start with
  | nil => exact List.Pairwise.nil
  | cons k rest ih => exact List.pairwise_cons.mpr ⟨fun n hn => (h.2.mem_le hn).1, ih h.2⟩

/-! ## The invariant -/

/-- The counter and the batch are those of the trace. -/
structure Tracked (seqOf : M → Int) (start : Int) (s : State W M) : Prop where
  consecutive : Consecutive start ((settled s.trace).map seqOf)
  sequence : s.vars.sequence = start + (settled s.trace).length
  pending : s.vars.pending = unflushed s.trace

/-- Between two calls the batch is also not full, and its time is set while it holds
a message. -/
structure Sequenced (cfg : Config) (seqOf : M → Int) (start : Int) (s : State W M) : Prop
    extends Tracked seqOf start s where
  room : (s.vars.pending.length : Int) < cfg.maxBatch
  started : s.vars.pendingStarted.isSome = true ↔ s.vars.pending ≠ []

/-- The message `m` has been accepted and is the last of the batch. -/
structure Joined (seqOf : M → Int) (m : M) (s t : State W M) : Prop where
  number : seqOf m = s.vars.sequence + 1
  vars : t.vars = { s.vars with pending := s.vars.pending ++ [m], sequence := s.vars.sequence + 1 }
  settled : settled t.trace = settled s.trace
  unflushed : unflushed t.trace = unflushed s.trace

/-- Neither the variables nor what the trace says of the batch has changed. -/
structure Quiet (s t : State W M) : Prop where
  vars : t.vars = s.vars
  settled : settled t.trace = settled s.trace
  unflushed : unflushed t.trace = unflushed s.trace

theorem Quiet.refl (s : State W M) : Quiet s s := ⟨rfl, rfl, rfl⟩

theorem Quiet.inWorld {s t : State W M} (h : Quiet s t) (w : W) : Quiet s (t.inWorld w) :=
  ⟨h.vars, h.settled, h.unflushed⟩

/-- An event that neither settles a message nor empties the batch. -/
theorem Quiet.push {s t : State W M} (h : Quiet s t) {o : Obs M} (hsettled : o.settled = none)
    (hgather : ∀ batch : List M, o.gather batch = batch) : Quiet s (t.push o) := by
  refine ⟨h.vars, ?_, ?_⟩
  · rw [push_trace, settled_append, settled_cons, hsettled]
    exact (List.append_nil _).trans h.settled
  · rw [push_trace, unflushed_append]
    exact (hgather _).trans h.unflushed

theorem Joined.quiet {seqOf : M → Int} {m : M} {s t u : State W M} (h : Joined seqOf m s t)
    (hq : Quiet t u) : Joined seqOf m s u :=
  ⟨h.number, hq.vars.trans h.vars, hq.settled.trans h.settled, hq.unflushed.trans h.unflushed⟩

/-! ## The programs

A step that raises ends the run, so nothing is claimed of the states in which a
program raises. -/

section Programs

variable {cfg : Config} {env : Env W M} {seqOf : M → Int} {start : Int} {s t : State W M}

theorem stop_returns {α : Type} {Q : α → State W M → Prop} :
    wp (stop env) Q (fun _ _ => True) s := by
  rw [stop, wp_bind]
  exact wp_any (fun _ _ => trivial) (fun _ _ => trivial)

theorem handleError_returns {α : Type} {Q : α → State W M → Prop} {err : String} :
    wp (handleError env err) Q (fun _ _ => True) s := by
  rw [handleError, wp_bind]
  exact wp_any (fun _ _ => trivial) (fun _ _ => trivial)

theorem now_quiet (h : Quiet s t) : wp (now env) (fun _ u => Quiet s u) (fun _ _ => True) t :=
  wp_outside (fun _ w _ => h.inWorld w) (fun _ _ _ => trivial)

theorem ask_quiet {α : Type} {c : Call M} {p : Prog Exn W α} (h : Quiet s t) :
    wp (ask c p) (fun _ u => Quiet s u) (fun _ _ => True) t :=
  wp_call (fun _ w _ => h.inWorld w) (fun _ _ _ => trivial)

/-- A call whose failure gives the batch back. -/
theorem stage_quiet {α : Type} {c : Call M} {p : Prog Exn W α} (h : Quiet s t) :
    wp (tryExcept (ask c p) fun e => handleError env e.str) (fun _ u => Quiet s u)
      (fun _ _ => True) t := by
  refine wp_tryExcept (wp_mono (ask_quiet h) (fun _ _ hu => hu)
    fun _ _ _ => ⟨fun _ => ?_, fun _ => trivial⟩)
  exact handleError_returns

theorem migrate_quiet {m : M} {evt : DBChangeEvent} (h : Quiet s t) :
    wp (migrate cfg env m evt) (fun _ u => Quiet s u) (fun _ _ => True) t := by
  rw [migrate]
  split
  · exact stage_quiet h
  · exact h

theorem trim_quiet {m : M} {evt : DBChangeEvent} (h : Quiet s t) :
    wp (trim cfg env m evt) (fun _ u => Quiet s u) (fun _ _ => True) t := by
  rw [trim]
  split
  · exact stage_quiet h
  · exact h

theorem catchingUp_quiet {m : M} {began : Int} (h : Quiet s t) :
    wp (catchingUp cfg env m began) (fun _ u => Quiet s u) (fun _ _ => True) t := by
  have hclock : ∀ (n : Int) (u : State W M), Quiet s u →
      wp (if n > cfg.maxBatch then do
            let now' ← now env
            pure (decide (now' - began < cfg.maxPendingLatency * 2))
          else pure false)
        (fun _ u => Quiet s u) (fun _ _ => True) u := by
    intro n u hu
    split
    · rw [wp_bind]
      exact wp_post (now_quiet hu) fun _ _ hv => hv
    · exact hu
  rw [catchingUp, wp_bind]
  refine wp_tryExcept ?_
  rw [wp_bind]
  refine wp_call (fun md w _ => hclock _ _ (h.inWorld w))
    (fun e w _ => ⟨fun _ => ?_, fun _ => trivial⟩)
  -- A backlog that cannot be read counts as none.
  exact hclock 0 _ ((h.inWorld w).push rfl fun _ => rfl)

theorem overdue_quiet {began : Int} (h : Quiet s t) :
    wp (overdue cfg env began) (fun _ u => Quiet s u) (fun _ _ => True) t := by
  rw [overdue, wp_bind, wp_read]
  split
  · exact h
  · rw [wp_bind]
    exact wp_post (now_quiet h) fun _ _ hu => hu

theorem observeDurations_quiet (h : Quiet s t) :
    wp (observeDurations env) (fun _ u => Quiet s u) (fun _ _ => True) t := by
  rw [observeDurations, wp_bind, wp_read]
  cases t.vars.pendingStarted with
  | none =>
    rw [wp_bind]
    exact wp_post (now_quiet h) fun _ _ hu => hu
  | some _ =>
    rw [wp_bind]
    apply wp_post (now_quiet h)
    intro _ u hu
    rw [wp_bind]
    exact wp_post (now_quiet hu) fun _ _ hv => hv

theorem ackOne_quiet {m : M} (h : Quiet s t) :
    wp (ackOne env m) (fun _ u => Quiet s u) (fun _ _ => True) t := by
  rw [ackOne, wp_bind, wp_note]
  have hacked : Quiet s (t.push (.ack m)) := h.push rfl fun _ => rfl
  refine wp_tryExcept (wp_mono (ask_quiet hacked) (fun _ _ hu => hu)
    fun _ _ _ => ⟨fun _ => ?_, fun _ => trivial⟩)
  exact stop_returns

theorem flushDriver_spec :
    wp (flushDriver env) (fun _ u => Quiet (s.push .flushed) u) (fun _ _ => True) s := by
  rw [flushDriver, wp_bind, wp_read, wp_bind, wp_handle]
  refine wp_call (fun _ w _ => ⟨rfl, rfl, rfl⟩) (fun e w _ => ?_)
  show wp (if e = .driverStopped then _ else _) _ _ _
  split
  · exact stop_returns
  · split
    · exact handleError_returns
    · trivial

/-- What a flush that returns leaves: an empty batch and the counter. -/
structure Drained (s t : State W M) : Prop where
  vars : t.vars = s.vars.cleared
  settled : settled t.trace = settled s.trace
  unflushed : unflushed t.trace = []

theorem flush_drained (h : Quiet s t) :
    wp (flush env) (fun _ u => Drained s u) (fun _ _ => True) t := by
  rw [flush, wp_bind]
  apply wp_post (now_quiet h)
  intro _ t₁ h₁
  rw [wp_bind]
  apply wp_post flushDriver_spec
  intro _ t₂ h₂
  rw [wp_bind, wp_read, wp_bind]
  apply wp_post (wp_each (f := ackOne env) (fun _ u => Quiet (t₁.push .flushed) u)
    (fun _ _ _ hu => ackOne_quiet hu) t₂.vars.pending t₂ h₂)
  intro _ t₃ h₃
  rw [wp_bind]
  apply wp_post (observeDurations_quiet h₃)
  intro _ t₄ h₄
  refine ⟨?_, ?_, ?_⟩
  · show t₄.vars.cleared = s.vars.cleared
    rw [h₄.vars, push_vars, h₁.vars]
  · show settled t₄.trace = settled s.trace
    rw [h₄.settled, push_trace, settled_append, h₁.settled]
    exact List.append_nil _
  · show unflushed t₄.trace = []
    rw [h₄.unflushed, push_trace, unflushed_append]
    rfl

/-! ## One step -/

theorem Tracked.quiet (h : Tracked seqOf start s) (ht : Quiet s t) : Tracked seqOf start t := by
  refine ⟨?_, ?_, ?_⟩
  · rw [ht.settled]
    exact h.consecutive
  · rw [ht.vars, ht.settled]
    exact h.sequence
  · rw [ht.vars, ht.unflushed]
    exact h.pending

theorem Sequenced.quiet (h : Sequenced cfg seqOf start s) (ht : Quiet s t) :
    Sequenced cfg seqOf start t := by
  refine ⟨h.toTracked.quiet ht, ?_, ?_⟩
  · rw [ht.vars]
    exact h.room
  · rw [ht.vars]
    exact h.started

theorem Tracked.drained (hmax : 1 ≤ cfg.maxBatch) (h : Tracked seqOf start s)
    (ht : Drained s t) : Sequenced cfg seqOf start t := by
  refine ⟨⟨?_, ?_, ?_⟩, ?_, ?_⟩
  · rw [ht.settled]
    exact h.consecutive
  · rw [ht.vars, ht.settled]
    exact h.sequence
  · rw [ht.vars, ht.unflushed]
    rfl
  · rw [ht.vars]
    show ((0 : Nat) : Int) < cfg.maxBatch
    omega
  · rw [ht.vars]
    simp [Batch.cleared]

/-- The number of the next message is greater than those of the batch. -/
theorem Tracked.notMem_pending (h : Tracked seqOf start s) {m : M}
    (hm : seqOf m = s.vars.sequence + 1) : m ∉ s.vars.pending := by
  intro hmem
  rw [h.pending] at hmem
  have hsettled : seqOf m ∈ (settled s.trace).map seqOf :=
    List.mem_map_of_mem ((unflushed_sublist s.trace).subset hmem)
  have hle := (h.consecutive.mem_le hsettled).2
  rw [List.length_map, ← h.sequence] at hle
  omega

theorem checkSequence_spec {m : M} {seq : Int} :
    wp (checkSequence env m seq)
      (fun _ u => seq = t.vars.sequence + 1 ∧ u = t.setVars fun b => { b with sequence := seq })
      (fun _ _ => True) t := by
  rw [checkSequence, wp_bind, wp_read]
  by_cases hseq : seq = t.vars.sequence + 1
  · rw [if_pos hseq]
    exact ⟨hseq, rfl⟩
  · rw [if_neg hseq, wp_bind, wp_note]
    exact handleError_returns

theorem receive_joined (henv : env.Numbers seqOf) {m : M} :
    wp (receive env m) (fun _ u => Joined seqOf m s u) (fun _ _ => True) s := by
  rw [receive, wp_bind, wp_note, wp_bind]
  refine wp_tryExcept (wp_call (fun md w hp => ?_) (fun e w _ => ⟨fun _ => ?_, fun _ => trivial⟩))
  · rw [wp_bind, wp_assign, wp_bind]
    apply wp_post checkSequence_spec
    intro _ _ h
    obtain ⟨hseq, rfl⟩ := h
    have hnumber : md.consumerSeq = seqOf m := henv _ _ _ _ hp
    have hnext : md.consumerSeq = s.vars.sequence + 1 := hseq
    refine ⟨hnumber.symm.trans hnext, ?_, ?_, ?_⟩
    · simp [hnext]
    · show settled (s.trace ++ [.took m]) = settled s.trace
      rw [settled_append]
      exact List.append_nil _
    · show unflushed (s.trace ++ [.took m]) = unflushed s.trace
      rw [unflushed_append]
      rfl
  · exact handleError_returns

/-- The settled messages after the message with the next number. -/
theorem Tracked.settle (h : Tracked seqOf start s) {m : M}
    (hm : seqOf m = s.vars.sequence + 1) :
    Consecutive start ((settled s.trace ++ [m]).map seqOf) ∧
      s.vars.sequence + 1 = start + (settled s.trace ++ [m]).length := by
  constructor
  · rw [List.map_append, consecutive_append]
    refine ⟨h.consecutive, ?_, trivial⟩
    rw [hm, h.sequence, List.length_map]
  · rw [h.sequence, List.length_append, List.length_singleton]
    push_cast
    omega

/-- A skipped message leaves the batch again. -/
theorem skip_sequenced [DecidableEq M] {m : M} (h : Sequenced cfg seqOf start s)
    (ht : Joined seqOf m s t) :
    wp (skip env m) (fun _ u => Sequenced cfg seqOf start u) (fun _ _ => True) t := by
  have hout : (s.vars.pending ++ [m]).erase m = s.vars.pending := by
    rw [List.erase_append_right _ (h.notMem_pending ht.number), List.erase_cons_head,
      List.append_nil]
  have hsettled : settled (t.push (.skipped m)).trace = settled s.trace ++ [m] := by
    rw [push_trace, settled_append, ht.settled]
    rfl
  have hunflushed : unflushed (t.push (.skipped m)).trace = unflushed s.trace := by
    rw [push_trace, unflushed_append]
    exact ht.unflushed
  have hdone : ∀ u, Quiet (t.push (.skipped m)) u → Sequenced cfg seqOf start
      (u.setVars fun b => { b with pending := b.pending.erase m }) := by
    intro u hu
    have hvars : (u.setVars fun b => { b with pending := b.pending.erase m }).vars =
        { s.vars with sequence := s.vars.sequence + 1 } := by
      rw [setVars_vars, hu.vars, push_vars, ht.vars]
      simp [hout]
    obtain ⟨hconsecutive, hsequence⟩ := h.settle ht.number
    refine ⟨⟨?_, ?_, ?_⟩, ?_, ?_⟩
    · rw [setVars_trace, hu.settled, hsettled]
      exact hconsecutive
    · rw [hvars, setVars_trace, hu.settled, hsettled]
      exact hsequence
    · rw [hvars, setVars_trace, hu.unflushed, hunflushed]
      exact h.pending
    · rw [hvars]
      exact h.room
    · rw [hvars]
      exact h.started
  have hacked : Quiet (t.push (.skipped m)) ((t.push (.skipped m)).push (.ack m)) :=
    (Quiet.refl _).push rfl fun _ => rfl
  rw [skip, wp_bind, wp_note, wp_bind, wp_note, wp_bind]
  refine wp_tryExcept (wp_call (fun _ w _ => hdone _ (hacked.inWorld w))
    (fun e w _ => ⟨fun _ => ?_, fun _ => trivial⟩))
  exact hdone _ ((hacked.inWorld w).push rfl fun _ => rfl)

theorem hand_tracked {m : M} {seq : Int} {evt : DBChangeEvent} (h : Tracked seqOf start s)
    (ht : Joined seqOf m s t) :
    wp (hand env m seq evt) (fun _ u => Tracked seqOf start u ∧ u.vars.pending ≠ [])
      (fun _ _ => True) t := by
  rw [hand, wp_bind]
  apply wp_post (stage_quiet (Quiet.refl t))
  intro _ u hu
  rw [wp_bind, wp_note, wp_pure]
  have hjoined : Joined seqOf m s u := ht.quiet hu
  obtain ⟨hconsecutive, hsequence⟩ := h.settle ht.number
  have hsettled : settled (u.push (.processed m seq evt)).trace = settled s.trace ++ [m] := by
    rw [push_trace, settled_append, hjoined.settled]
    rfl
  refine ⟨⟨?_, ?_, ?_⟩, ?_⟩
  · rw [hsettled]
    exact hconsecutive
  · rw [push_vars, hjoined.vars, hsettled]
    exact hsequence
  · rw [push_vars, hjoined.vars, push_trace, unflushed_append, hjoined.unflushed, ← h.pending]
    rfl
  · rw [push_vars, hjoined.vars]
    simp

theorem startBatch_spec :
    wp (startBatch env)
      (fun began u => Quiet { t with vars := { t.vars with pendingStarted := some began } } u)
      (fun _ _ => True) t := by
  rw [startBatch, wp_bind, wp_read]
  cases hstarted : t.vars.pendingStarted with
  | some began => exact ⟨by rw [← hstarted], rfl, rfl⟩
  | none =>
    rw [wp_bind]
    apply wp_post (now_quiet (Quiet.refl t))
    intro began u hu
    rw [wp_bind, wp_assign, wp_pure]
    exact ⟨by rw [setVars_vars, hu.vars], hu.settled, hu.unflushed⟩

/-- A batch that is kept is not full, and its time is set. -/
theorem settle_sequenced (hmax : 1 ≤ cfg.maxBatch) {m : M} {wantsFlush force : Bool}
    (h : Tracked seqOf start t) (hne : t.vars.pending ≠ []) :
    wp (settle cfg env m wantsFlush force) (fun _ u => Sequenced cfg seqOf start u)
      (fun _ _ => True) t := by
  rw [settle, wp_bind, wp_read]
  split
  · exact wp_post (flush_drained (Quiet.refl t)) fun _ _ hu => h.drained hmax hu
  · next hkeep =>
    simp only [Bool.or_eq_true, decide_eq_true_eq, not_or] at hkeep
    rw [wp_bind]
    apply wp_post startBatch_spec
    intro began u hu
    have hstarted : Sequenced cfg seqOf start u := by
      have hbegun : Sequenced cfg seqOf start
          { t with vars := { t.vars with pendingStarted := some began } } :=
        ⟨⟨h.consecutive, h.sequence, h.pending⟩, by simpa using hkeep.1.2, by simpa using hne⟩
      exact hbegun.quiet hu
    rw [wp_bind]
    apply wp_post (catchingUp_quiet (Quiet.refl u))
    intro bypass v hv
    cases bypass with
    | true => exact hstarted.quiet hv
    | false =>
      simp only [Bool.false_eq_true, if_false]
      rw [wp_bind]
      apply wp_post (overdue_quiet hv)
      intro due v hv
      cases due with
      | false => exact hstarted.quiet hv
      | true =>
        simp only [if_true]
        rw [wp_bind]
        apply wp_post (now_quiet hv)
        intro _ v hv
        exact wp_post (flush_drained hv) fun _ _ hw => hstarted.toTracked.drained hmax hw

theorem processMessage_sequenced [DecidableEq M] (hmax : 1 ≤ cfg.maxBatch)
    (henv : env.Numbers seqOf) (m : M) (h : Sequenced cfg seqOf start s) :
    wp (processMessage cfg env m) (fun _ u => Sequenced cfg seqOf start u) (fun _ _ => True) s := by
  rw [processMessage, wp_bind]
  apply wp_post (receive_joined henv)
  intro seq t ht
  rw [wp_bind, decode]
  apply wp_post (stage_quiet (Quiet.refl t))
  intro evt t₁ h₁
  rw [wp_bind]
  apply wp_post (ask_quiet h₁)
  intro hgiven t₂ h₂
  obtain ⟨skipIt, evt⟩ := hgiven
  cases skipIt with
  | true => exact skip_sequenced h (ht.quiet h₂)
  | false =>
    simp only [Bool.false_eq_true, if_false]
    rw [wp_bind]
    apply wp_post (migrate_quiet h₂)
    intro verdict t₃ h₃
    rw [wp_bind]
    apply wp_post (trim_quiet h₃)
    intro evt t₄ h₄
    rw [wp_bind]
    apply wp_post (hand_tracked h.toTracked (ht.quiet h₄))
    intro wantsFlush u hgiven
    obtain ⟨hu, hne⟩ := hgiven
    exact settle_sequenced hmax hu hne

theorem flush_sequenced (hmax : 1 ≤ cfg.maxBatch) (h : Sequenced cfg seqOf start s)
    (ht : Quiet s t) :
    wp (flush env) (fun _ u => Sequenced cfg seqOf start u) (fun _ _ => True) t :=
  wp_post (flush_drained ht) fun _ _ hu => h.toTracked.drained hmax hu

theorem onIdle_sequenced (hmax : 1 ≤ cfg.maxBatch) (h : Sequenced cfg seqOf start s) :
    wp (onIdle cfg env) (fun _ u => Sequenced cfg seqOf start u) (fun _ _ => True) s := by
  rw [onIdle, wp_bind, wp_read, wp_bind, wp_read]
  cases s.vars.pendingStarted with
  | none => exact h
  | some began =>
    show wp (if _ then _ else _) _ _ _
    split
    · rw [wp_bind]
      apply wp_post (now_quiet (Quiet.refl s))
      intro _ t ht
      split
      · exact flush_sequenced hmax h ht
      · exact h.quiet ht
    · exact h

theorem step_sequenced [DecidableEq M] (hmax : 1 ≤ cfg.maxBatch) (henv : env.Numbers seqOf)
    (step : Step M) (h : Sequenced cfg seqOf start s) :
    wp (step.run cfg env) (fun _ u => Sequenced cfg seqOf start u) (fun _ _ => True) s := by
  cases step with
  | message m => exact processMessage_sequenced hmax henv m h
  | idle => exact onIdle_sequenced hmax h
  | flush => exact flush_sequenced hmax h (Quiet.refl s)

end Programs

/-! ## Runs -/

/-- After any steps that return, the messages skipped or handed to the driver are
those numbered from `start + 1` to the counter, once each and in order; the batch is
what was handed over since the last flush, in order, and never full; and its time is
set exactly while it is not empty.  Nothing is asked of the clock. -/
theorem processor_sequenced [DecidableEq M] (cfg : Config) (env : Env W M) (seqOf : M → Int)
    (henv : env.Numbers seqOf) (hmax : 1 ≤ cfg.maxBatch) (start : Int) (w : W)
    (steps : List (Step M)) (s : State W M)
    (hrun : each (Step.run cfg env) steps ⟨⟨[], none, start⟩, w, []⟩ = (.ok (), s)) :
    Consecutive start ((settled s.trace).map seqOf) ∧
    s.vars.sequence = start + (settled s.trace).length ∧
    (s.vars.pending.length : Int) < cfg.maxBatch ∧
    s.vars.pending = unflushed s.trace ∧
    (s.vars.pending.map seqOf).Pairwise (· < ·) ∧
    (s.vars.pendingStarted ≠ none ↔ s.vars.pending ≠ []) := by
  have hstart : Sequenced cfg seqOf start (⟨⟨[], none, start⟩, w, []⟩ : State W M) := by
    refine ⟨⟨trivial, ?_, rfl⟩, ?_, by simp⟩
    · show start = start + ((0 : Nat) : Int)
      omega
    · show ((0 : Nat) : Int) < cfg.maxBatch
      omega
  have hall := wp_each (E := fun _ _ => True) (fun _ t => Sequenced cfg seqOf start t)
    (fun step _ _ ht => step_sequenced hmax henv step ht) steps _ hstart
  have hs : Sequenced cfg seqOf start s := wp_ok hall hrun
  refine ⟨hs.consecutive, hs.sequence, hs.room, hs.pending, ?_, ?_⟩
  · rw [hs.pending]
    exact hs.consecutive.pairwise.sublist ((unflushed_sublist s.trace).map seqOf)
  · rw [← Option.isSome_iff_ne_none]
    exact hs.started

/-- Three messages in batches of two. -/
def threeMessages : Except Exn Unit × State Unit Int :=
  each (Step.run Config.pairs Env.obliging) [.message 1, .message 2, .message 3]
    ⟨⟨[], none, 0⟩, (), []⟩

theorem processor_sequenced_three :
    settled threeMessages.2.trace = [1, 2, 3] ∧ threeMessages.2.vars.pending = [3] ∧
      (threeMessages.2.vars.pendingStarted ≠ none ↔ threeMessages.2.vars.pending ≠ []) := by
  have hok : threeMessages.1 = .ok () := by decide +kernel
  have hrun : threeMessages = (.ok (), threeMessages.2) := by rw [← hok]
  have hall := processor_sequenced Config.pairs Env.obliging id obliging_numbers (by decide) 0 ()
    [.message 1, .message 2, .message 3] threeMessages.2 hrun
  exact ⟨by decide +kernel, by decide +kernel, hall.2.2.2.2.2⟩

end Consumer
end Eds
