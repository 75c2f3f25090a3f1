import Eds.Consumer.BatchProcessor
import Mathlib.Logic.Relation

/-!
# What the processor can do to a message

`Micro` lists the moves of the processor one at a time: a message that was taken
joins the batch, is judged, skipped or handed to the driver; the driver flushes,
and the batch is acknowledged one message after the other; or a failure starts the
giving back of the batch.  A `Phase` says which of these is under way.

`processMessage_path`, `onIdle_path`, `flush_path` and `nackEverything_path` say
that every run of the four entry points is a path of such moves, from `idle` (from
`taken m` for a message) to `idle` when it returns and to `raised e` when it raises
`e`.  A property of the
processor is then proved by one case per move, and none of the proofs that follow
opens the programs again.
-/

namespace Eds
namespace Consumer

open Effects Effects.Prog Effects.Traced

variable {W M : Type}

inductive Phase (M : Type) where
  | idle
  | taken (m : M)
  | held (m : M) (seq : Int)
  | checked (m : M) (seq : Int)
  | skipping (m : M)
  | acking (rest : List M)
  | nacking (rest : List M) (next : Option Exn)
  | raised (e : Exn)

def Phase.after : Option Exn → Phase M
  | none => idle
  | some e => raised e

/-- A change of the world by a call other than `driver.process` and
`driver.flush`. -/
inductive Aside (cfg : Config) (env : Env W M) (w : W) : W → Prop where
  | clock : Aside cfg env w (env.clock w).2
  | metadata (m : M) : Aside cfg env w (env.metadata m w).2
  | ack (m : M) : Aside cfg env w (env.ack m w).2
  | nak (m : M) : Aside cfg env w (env.nak m w).2
  | fromMessage (m : M) (seq : Int) : Aside cfg env w (env.fromMessage m seq w).2
  | shouldSkip (evt : DBChangeEvent) : Aside cfg env w (shouldSkip cfg env evt w).2
  | migration (evt : DBChangeEvent) : Aside cfg env w (handlePossibleMigration env evt w).2
  | conform (evt : DBChangeEvent) : Aside cfg env w (conform env evt w).2

/-- A change of the world by a call that raised `e`. -/
inductive Touched (cfg : Config) (env : Env W M) (e : Exn) (w w' : W) : Prop where
  | aside (h : Aside cfg env w w')
  | process (evt : DBChangeEvent) (h : env.process evt w = (.error e, w'))
  | flush (h : env.flush w = (.error e, w'))

/-- The three stages between the sequence check and the driver that give the batch
back when they fail. -/
inductive Stage (m : M) : Call M → Prop where
  | decode : Stage m (.decode m)
  | migration : Stage m (.migration m)
  | schema : Stage m (.schema m)

/-- The calls that can be under way in a phase, as far as `Micro.crashed` is about
them. -/
inductive AtStake (s : State W M) : Phase M → Call M → Prop where
  | metadata {m : M} : AtStake s (.taken m) (.metadata m)
  | stage {m : M} {seq : Int} {c : Call M} (hc : Stage m c) : AtStake s (.checked m seq) c
  | process {m : M} {seq : Int} : AtStake s (.checked m seq) (.process m)
  | catchUp {m : M} : AtStake s .idle (.catchUp m)
  | flush : AtStake s .idle (.flush s.vars.pending)

def Batch.cleared (b : Batch M) : Batch M := { b with pending := [], pendingStarted := none }

def stopSignal (e : Exn) : Exn :=
  if e = .driverStopped then .consumerStopped else .consumerFatal e.str

section

variable [DecidableEq M] (cfg : Config) (env : Env W M)

inductive Micro : Phase M × State W M → Phase M × State W M → Prop where
  | metadata {m : M} {s : State W M} {md : MsgMetadata} {w : W}
      (h : env.metadata m s.world = (.ok md, w)) :
      Micro (.taken m, s) (.held m md.consumerSeq, (s.inWorld w).setVars fun b =>
        { b with pending := b.pending ++ [m] })
  | metadataRaised {m : M} {s : State W M} {e : Exn} {w : W} (he : e.isException = true)
      (h : env.metadata m s.world = (.error e, w)) :
      Micro (.taken m, s) (.nacking s.vars.pending (some (.consumerFatal e.str)),
        (s.inWorld w).push (.raised (.metadata m) e))
  | outOfOrder {m : M} {seq : Int} {s : State W M} (err : String)
      (h : seq ≠ s.vars.sequence + 1) :
      Micro (.held m seq, s) (.nacking s.vars.pending (some (.consumerFatal err)),
        s.push (.raised (.sequence m) (.exception err)))
  | inOrder {m : M} {seq : Int} {s : State W M} (h : seq = s.vars.sequence + 1) :
      Micro (.held m seq, s) (.checked m seq, s.setVars fun b => { b with sequence := seq })
  | aside {ph : Phase M} {s : State W M} {w : W} (h : Aside cfg env s.world w) :
      Micro (ph, s) (ph, s.inWorld w)
  | stageRaised {m : M} {seq : Int} {s : State W M} {c : Call M} {e : Exn} {w : W}
      (hc : Stage m c) (he : e.isException = true) (h : Aside cfg env s.world w) :
      Micro (.checked m seq, s) (.nacking s.vars.pending (some (.consumerFatal e.str)),
        (s.inWorld w).push (.raised c e))
  | skipRaised {m : M} {seq : Int} {s : State W M} {e : Exn} {w : W}
      (he : e.isConsumerStop = false) (h : Aside cfg env s.world w) :
      Micro (.checked m seq, s) (.raised e, (s.inWorld w).push (.raised (.shouldSkip m) e))
  | skipped {m : M} {seq : Int} {s : State W M} :
      Micro (.checked m seq, s) (.skipping m, s.push (.skipped m))
  | skipAcked {m : M} {s : State W M} {r : Option Exn} {w : W}
      (hr : ∀ e, r = some e → e.isException = true) (h : Aside cfg env s.world w) :
      Micro (.skipping m, s) (.idle,
        (((s.push (.ack m)).inWorld w).pushOpt (r.map (.raised (.ackSkipped m)))).setVars fun b =>
          { b with pending := b.pending.erase m })
  | skipAckCrashed {m : M} {s : State W M} {e : Exn} {w : W} (he : e.isException = false)
      (h : Aside cfg env s.world w) :
      Micro (.skipping m, s) (.raised e,
        ((s.push (.ack m)).inWorld w).push (.raised (.ackSkipped m) e))
  | processed {m : M} {seq : Int} {s : State W M} {evt : DBChangeEvent} {b : Bool} {w : W}
      (h : env.process evt s.world = (.ok b, w)) :
      Micro (.checked m seq, s) (.idle, (s.inWorld w).push (.processed m seq evt))
  | processRaised {m : M} {seq : Int} {s : State W M} {evt : DBChangeEvent} {e : Exn} {w : W}
      (he : e.isException = true) (h : env.process evt s.world = (.error e, w)) :
      Micro (.checked m seq, s) (.nacking s.vars.pending (some (.consumerFatal e.str)),
        (s.inWorld w).push (.raised (.process m) e))
  | catchUpRaised {m : M} {s : State W M} {e : Exn} {w : W} (he : e.isException = true)
      (h : Aside cfg env s.world w) :
      Micro (.idle, s) (.idle, (s.inWorld w).push (.raised (.catchUp m) e))
  | started {s : State W M} (t : Int) :
      Micro (.idle, s) (.idle, s.setVars fun b => { b with pendingStarted := some t })
  | flushed {s : State W M} {w : W} (h : env.flush s.world = (.ok (), w)) :
      Micro (.idle, s) (.acking s.vars.pending, (s.inWorld w).push .flushed)
  | flushRaised {s : State W M} {e : Exn} {w : W} (he : e.isException = true)
      (h : env.flush s.world = (.error e, w)) :
      Micro (.idle, s) (.nacking s.vars.pending (some (stopSignal e)),
        (s.inWorld w).push (.raised (.flush s.vars.pending) e))
  | acked {m : M} {rest : List M} {s : State W M} {w : W} (h : Aside cfg env s.world w) :
      Micro (.acking (m :: rest), s) (.acking rest, (s.push (.ack m)).inWorld w)
  | ackRaised {m : M} {rest : List M} {s : State W M} {e : Exn} {w : W}
      (he : e.isException = true) (h : Aside cfg env s.world w) :
      Micro (.acking (m :: rest), s) (.nacking s.vars.pending (some .consumerStopped),
        ((s.push (.ack m)).inWorld w).push (.raised (.ackFlushed m) e))
  | ackCrashed {m : M} {rest : List M} {s : State W M} {e : Exn} {w : W}
      (he : e.isException = false) (h : Aside cfg env s.world w) :
      Micro (.acking (m :: rest), s) (.raised e,
        ((s.push (.ack m)).inWorld w).push (.raised (.ackFlushed m) e))
  | flushDone {s : State W M} : Micro (.acking [], s) (.idle, s.setVars Batch.cleared)
  | naked {m : M} {rest : List M} {next : Option Exn} {s : State W M} {r : Option Exn} {w : W}
      (hr : ∀ e, r = some e → e.isException = true) (h : Aside cfg env s.world w) :
      Micro (.nacking (m :: rest) next, s) (.nacking rest next,
        ((s.push (.nak m)).inWorld w).pushOpt (r.map (.raised (.nak m))))
  | nakCrashed {m : M} {rest : List M} {next : Option Exn} {s : State W M} {e : Exn} {w : W}
      (he : e.isException = false) (h : Aside cfg env s.world w) :
      Micro (.nacking (m :: rest) next, s) (.raised e,
        ((s.push (.nak m)).inWorld w).push (.raised (.nak m) e))
  | nakDone {next : Option Exn} {s : State W M} :
      Micro (.nacking [] next, s) (.after next, s.setVars Batch.cleared)
  | crashed {ph : Phase M} {s : State W M} {c : Call M} {e : Exn} {w : W}
      (hc : AtStake s ph c) (he : e.isException = false) (h : Touched cfg env e s.world w) :
      Micro (ph, s) (.raised e, (s.inWorld w).push (.raised c e))

abbrev Path : Phase M × State W M → Phase M × State W M → Prop :=
  Relation.ReflTransGen (Micro cfg env)

end

variable {cfg : Config} {env : Env W M}

/-! ## The messages handed in -/

def Obs.taken : Obs M → Option M
  | .took m => some m
  | .skipped _ | .processed _ _ _ | .flushed | .ack _ | .nak _ | .raised _ _ => none

def tooks (t : List (Obs M)) : List M := t.filterMap Obs.taken

@[simp] theorem tooks_nil : tooks ([] : List (Obs M)) = [] := rfl

@[simp] theorem tooks_append (t t' : List (Obs M)) : tooks (t ++ t') = tooks t ++ tooks t' :=
  List.filterMap_append

@[simp] theorem tooks_cons (o : Obs M) (t : List (Obs M)) :
    tooks (o :: t) = o.taken.toList ++ tooks t := by
  cases o <;> rfl

@[simp] theorem tooks_raised {c : Call M} {r : Option Exn} :
    tooks ((r.map (Obs.raised c)).toList) = [] := by
  cases r <;> rfl

/-! ## Facts about single programs -/

theorem Aside.of_reply {α : Type} {p : Prog Exn W α} {w w' : W} {r : Except Exn α}
    (hp : p w = (r, w')) (h : Aside cfg env w (p w).2) : Aside cfg env w w' := by
  rw [hp] at h
  exact h

theorem logged_raises {evt : DBChangeEvent} {b : Bool} {w : W} :
    wp (logged env evt b) (fun _ _ => True) (fun e _ => e.isConsumerStop = false) w := by
  rw [logged]
  cases env.toJson evt with
  | ok _ => trivial
  | error _ => rfl

theorem beforeCutoff_raises {evt : DBChangeEvent} {e : Exn}
    (h : beforeCutoff cfg evt = .error e) : ∃ msg, e = .exception msg := by
  rw [beforeCutoff] at h
  split at h
  · cases h
  · split at h
    · next heq =>
      cases h
      unfold lookupCutoff at heq
      split at heq <;> cases heq <;> exact ⟨_, rfl⟩
    · cases h
    · split at h
      · next heq =>
        cases h
        rw [fromMillis, fromTimestamp, instant] at heq
        split at heq <;> cases heq
        exact ⟨_, rfl⟩
      · cases h

/-- What `should_skip` lets through is never one of the consumer's own signals. -/
theorem shouldSkip_raises (evt : DBChangeEvent) (w : W) :
    wp (shouldSkip cfg env evt) (fun _ _ => True) (fun e _ => e.isConsumerStop = false) w := by
  rw [shouldSkip]
  cases hcut : beforeCutoff cfg evt with
  | error e =>
    obtain ⟨msg, rfl⟩ := beforeCutoff_raises hcut
    rfl
  | ok b =>
    cases b with
    | true => trivial
    | false =>
      by_cases hv : cfg.hasValidator = true
      · simp only [hv, if_true]
        rw [wp_bind]
        refine wp_tryExcept (wp_any (fun v t => ?_) (fun e t => ⟨fun _ => ?_, fun he => ?_⟩))
        · rcases v with _ | ⟨found, valid, path⟩
          · exact logged_raises
          · show wp (if _ then _ else _) _ _ _
            split
            · exact logged_raises
            · split <;> trivial
        · exact logged_raises
        · cases e <;> first | rfl | cases he
      · simp only [hv]
        trivial

theorem nackEverything_clears {s : State W M} :
    wp (nackEverything env) (fun _ t => t.vars.pending = []) (fun _ _ => True) s := by
  rw [nackEverything, wp_bind, wp_read, wp_bind]
  exact wp_any (fun _ _ => rfl) (fun _ _ => trivial)

theorem flush_clears {s : State W M} :
    wp (flush env) (fun _ t => t.vars.pending = []) (fun _ _ => True) s := by
  rw [flush, wp_bind]
  refine wp_any (fun _ t => ?_) (fun _ _ => trivial)
  rw [wp_bind]
  refine wp_any (fun _ t => ?_) (fun _ _ => trivial)
  rw [wp_bind, wp_read, wp_bind]
  refine wp_any (fun _ t => ?_) (fun _ _ => trivial)
  rw [wp_bind]
  exact wp_any (fun _ _ => rfl) (fun _ _ => trivial)

variable [DecidableEq M]

theorem path_invariant {I : Phase M × State W M → Prop}
    (hstep : ∀ {x y}, Micro cfg env x y → I x → I y) {x y : Phase M × State W M}
    (h : Path cfg env x y) (hx : I x) : I y := by
  induction h with
  | refl => exact hx
  | tail _ hlast ih => exact hstep hlast ih

theorem micro_tooks {x y : Phase M × State W M} (h : Micro cfg env x y) :
    tooks y.2.trace = tooks x.2.trace := by
  cases h <;> simp [Obs.taken]

/-! ## The programs follow the moves

Each lemma starts where a path from `x₀` has arrived and says where the program
takes it.  The exceptional postcondition is always the same: the path has reached
`raised e` when `e` is raised. -/

section Paths

variable {x₀ : Phase M × State W M} {s : State W M}

theorem now_path {ph : Phase M} {X : Exn → State W M → Prop}
    (h : Path cfg env x₀ (ph, s)) :
    wp (now env) (fun _ t => Path cfg env x₀ (ph, t) ∧ t.vars = s.vars) X s := by
  refine wp_outside (fun t w hp => ?_) (fun e w hp => ?_)
  · have hw : w = (env.clock s.world).2 := (congrArg Prod.snd hp).symm
    subst hw
    exact ⟨h.tail (.aside .clock), rfl⟩
  · cases congrArg Prod.fst hp

theorem nakOne_path {m : M} {rest : List M} {next : Option Exn}
    (h : Path cfg env x₀ (.nacking (m :: rest) next, s)) :
    wp (nakOne env m) (fun _ t => Path cfg env x₀ (.nacking rest next, t))
      (fun e t => Path cfg env x₀ (.raised e, t)) s := by
  rw [nakOne, wp_bind, wp_note]
  refine wp_tryExcept (wp_call (fun _ w hp => ?_) (fun e w hp => ⟨fun he => ?_, fun he => ?_⟩))
  · have hw : Aside cfg env s.world w := Aside.of_reply hp (.nak m)
    exact h.tail (.naked (r := none) (by simp) hw)
  · have hw : Aside cfg env s.world w := Aside.of_reply hp (.nak m)
    exact h.tail (.naked (r := some e) (by simp [he]) hw)
  · exact h.tail (.nakCrashed he (Aside.of_reply hp (.nak m)))

theorem nackEverything_path {next : Option Exn}
    (h : Path cfg env x₀ (.nacking s.vars.pending next, s)) :
    wp (nackEverything env) (fun _ t => Path cfg env x₀ (.after next, t))
      (fun e t => Path cfg env x₀ (.raised e, t)) s := by
  rw [nackEverything, wp_bind, wp_read, wp_bind]
  have hloop := wp_each (f := nakOne env)
    (fun rest t => Path cfg env x₀ (.nacking rest next, t))
    (fun m rest t ht => nakOne_path ht) s.vars.pending s h
  exact wp_post hloop fun _ t ht => ht.tail .nakDone

theorem handleError_path {α : Type} {Q : α → State W M → Prop} {err : String}
    (h : Path cfg env x₀ (.nacking s.vars.pending (some (.consumerFatal err)), s)) :
    wp (handleError env err) Q (fun e t => Path cfg env x₀ (.raised e, t)) s := by
  rw [handleError, wp_bind]
  exact wp_post (nackEverything_path h) fun _ t ht => ht

theorem stop_path {α : Type} {Q : α → State W M → Prop}
    (h : Path cfg env x₀ (.nacking s.vars.pending (some .consumerStopped), s)) :
    wp (stop env) Q (fun e t => Path cfg env x₀ (.raised e, t)) s := by
  rw [stop, wp_bind]
  exact wp_post (nackEverything_path h) fun _ t ht => ht

theorem ackOne_path {m : M} {rest : List M} (h : Path cfg env x₀ (.acking (m :: rest), s)) :
    wp (ackOne env m) (fun _ t => Path cfg env x₀ (.acking rest, t))
      (fun e t => Path cfg env x₀ (.raised e, t)) s := by
  rw [ackOne, wp_bind, wp_note]
  refine wp_tryExcept (wp_call (fun _ w hp => ?_) (fun e w hp => ⟨fun he => ?_, fun he => ?_⟩))
  · exact h.tail (.acked (Aside.of_reply hp (.ack m)))
  · exact stop_path (h.tail (.ackRaised he (Aside.of_reply hp (.ack m))))
  · exact h.tail (.ackCrashed he (Aside.of_reply hp (.ack m)))

theorem flushDriver_path (h : Path cfg env x₀ (.idle, s)) :
    wp (flushDriver env) (fun _ t => Path cfg env x₀ (.acking t.vars.pending, t))
      (fun e t => Path cfg env x₀ (.raised e, t)) s := by
  rw [flushDriver, wp_bind, wp_read, wp_bind, wp_handle]
  refine wp_call (fun _ w hp => h.tail (.flushed hp)) (fun e w hp => ?_)
  show wp (if e = .driverStopped then _ else _) _ _ _
  by_cases hd : e = .driverStopped
  · rw [if_pos hd]
    have hstep := h.tail (.flushRaised (by rw [hd]; rfl) hp)
    rw [stopSignal, if_pos hd] at hstep
    exact stop_path hstep
  · rw [if_neg hd]
    cases he : e.isException
    · simp only [Bool.false_eq_true, if_false, wp_raise]
      exact h.tail (.crashed .flush he (.flush hp))
    · simp only [if_true]
      have hstep := h.tail (.flushRaised he hp)
      rw [stopSignal, if_neg hd] at hstep
      exact handleError_path hstep

theorem observeDurations_path {ph : Phase M} (h : Path cfg env x₀ (ph, s)) :
    wp (observeDurations env) (fun _ t => Path cfg env x₀ (ph, t))
      (fun e t => Path cfg env x₀ (.raised e, t)) s := by
  rw [observeDurations, wp_bind, wp_read]
  cases s.vars.pendingStarted with
  | none =>
    rw [wp_bind]
    exact wp_post (now_path h) fun _ t ht => ht.1
  | some _ =>
    rw [wp_bind]
    apply wp_post (now_path h)
    intro _ t ht
    rw [wp_bind]
    exact wp_post (now_path ht.1) fun _ t ht => ht.1

theorem flush_path (h : Path cfg env x₀ (.idle, s)) :
    wp (flush env) (fun _ t => Path cfg env x₀ (.idle, t))
      (fun e t => Path cfg env x₀ (.raised e, t)) s := by
  rw [flush, wp_bind]
  apply wp_post (now_path h)
  intro _ t ht
  rw [wp_bind]
  apply wp_post (flushDriver_path ht.1)
  intro _ t ht
  rw [wp_bind, wp_read, wp_bind]
  have hloop := wp_each (f := ackOne env) (fun rest t => Path cfg env x₀ (.acking rest, t))
    (fun m rest t ht => ackOne_path ht) t.vars.pending t ht
  apply wp_post hloop
  intro _ t ht
  rw [wp_bind]
  exact wp_post (observeDurations_path ht) fun _ t ht => ht.tail .flushDone

/-! ### Up to the driver -/

theorem checkSequence_path {m : M} {seq : Int} (h : Path cfg env x₀ (.held m seq, s)) :
    wp (checkSequence env m seq) (fun _ t => Path cfg env x₀ (.checked m seq, t))
      (fun e t => Path cfg env x₀ (.raised e, t)) s := by
  rw [checkSequence, wp_bind, wp_read]
  by_cases hseq : seq = s.vars.sequence + 1
  · rw [if_pos hseq]
    exact h.tail (.inOrder hseq)
  · rw [if_neg hseq, wp_bind, wp_note]
    exact handleError_path (h.tail (.outOfOrder _ hseq))

theorem receive_path {m : M} (h : Path cfg env x₀ (.taken m, s.push (.took m))) :
    wp (receive env m) (fun seq t => Path cfg env x₀ (.checked m seq, t))
      (fun e t => Path cfg env x₀ (.raised e, t)) s := by
  rw [receive, wp_bind, wp_note, wp_bind]
  refine wp_tryExcept (wp_call (fun md w hp => ?_) (fun e w hp => ⟨fun he => ?_, fun he => ?_⟩))
  · rw [wp_bind, wp_assign, wp_bind]
    exact wp_post (checkSequence_path (h.tail (.metadata hp))) fun _ _ ht => ht
  · exact handleError_path (h.tail (.metadataRaised he hp))
  · exact h.tail (.crashed .metadata he (.aside (Aside.of_reply hp (.metadata m))))

/-- A stage between the sequence check and the driver. -/
theorem stage_path {α : Type} {m : M} {seq : Int} {c : Call M} {p : Prog Exn W α}
    (hc : Stage m c) (hp : ∀ w, Aside cfg env w (p w).2)
    (h : Path cfg env x₀ (.checked m seq, s)) :
    wp (tryExcept (ask c p) fun e => handleError env e.str)
      (fun _ t => Path cfg env x₀ (.checked m seq, t))
      (fun e t => Path cfg env x₀ (.raised e, t)) s := by
  refine wp_tryExcept (wp_call (fun _ w hr => ?_) (fun e w hr => ⟨fun he => ?_, fun he => ?_⟩))
  · exact h.tail (.aside (Aside.of_reply hr (hp s.world)))
  · exact handleError_path (h.tail (.stageRaised hc he (Aside.of_reply hr (hp s.world))))
  · exact h.tail (.crashed (.stage hc) he (.aside (Aside.of_reply hr (hp s.world))))

theorem decide_path {m : M} {seq : Int} {evt : DBChangeEvent}
    (h : Path cfg env x₀ (.checked m seq, s)) :
    wp (ask (.shouldSkip m) (shouldSkip cfg env evt))
      (fun _ t => Path cfg env x₀ (.checked m seq, t))
      (fun e t => Path cfg env x₀ (.raised e, t)) s := by
  refine wp_call (fun _ w hp => ?_) (fun e w hp => ?_)
  · exact h.tail (.aside (Aside.of_reply hp (.shouldSkip evt)))
  · have he : e.isConsumerStop = false := wp_error (shouldSkip_raises evt s.world) hp
    exact h.tail (.skipRaised he (Aside.of_reply hp (.shouldSkip evt)))

theorem skip_path {m : M} {seq : Int} (h : Path cfg env x₀ (.checked m seq, s)) :
    wp (skip env m) (fun _ t => Path cfg env x₀ (.idle, t))
      (fun e t => Path cfg env x₀ (.raised e, t)) s := by
  have hskip := h.tail .skipped
  rw [skip, wp_bind, wp_note, wp_bind, wp_note, wp_bind]
  refine wp_tryExcept (wp_call (fun _ w hp => ?_) (fun e w hp => ⟨fun he => ?_, fun he => ?_⟩))
  · have hw : Aside cfg env s.world w := Aside.of_reply hp (.ack m)
    exact hskip.tail (.skipAcked (r := none) (by simp) hw)
  · have hw : Aside cfg env s.world w := Aside.of_reply hp (.ack m)
    exact hskip.tail (.skipAcked (r := some e) (by simp [he]) hw)
  · exact hskip.tail (.skipAckCrashed he (Aside.of_reply hp (.ack m)))

theorem migrate_path {m : M} {seq : Int} {evt : DBChangeEvent}
    (h : Path cfg env x₀ (.checked m seq, s)) :
    wp (migrate cfg env m evt) (fun _ t => Path cfg env x₀ (.checked m seq, t))
      (fun e t => Path cfg env x₀ (.raised e, t)) s := by
  rw [migrate]
  by_cases hm : cfg.supportsMigration = true
  · rw [if_pos hm]
    exact stage_path .migration (fun w => .migration evt) h
  · rw [if_neg hm]
    exact h

theorem trim_path {m : M} {seq : Int} {evt : DBChangeEvent}
    (h : Path cfg env x₀ (.checked m seq, s)) :
    wp (trim cfg env m evt) (fun _ t => Path cfg env x₀ (.checked m seq, t))
      (fun e t => Path cfg env x₀ (.raised e, t)) s := by
  rw [trim]
  split
  · exact stage_path .schema (fun w => .conform evt) h
  · exact h

theorem hand_path {m : M} {seq : Int} {evt : DBChangeEvent}
    (h : Path cfg env x₀ (.checked m seq, s)) :
    wp (hand env m seq evt) (fun _ t => Path cfg env x₀ (.idle, t))
      (fun e t => Path cfg env x₀ (.raised e, t)) s := by
  rw [hand, wp_bind]
  refine wp_tryExcept (wp_call (fun b w hp => ?_) (fun e w hp => ⟨fun he => ?_, fun he => ?_⟩))
  · exact h.tail (.processed hp)
  · exact handleError_path (h.tail (.processRaised he hp))
  · exact h.tail (.crashed .process he (.process evt hp))

/-! ### After the driver -/

theorem startBatch_path (h : Path cfg env x₀ (.idle, s)) :
    wp (startBatch env) (fun _ t => Path cfg env x₀ (.idle, t))
      (fun e t => Path cfg env x₀ (.raised e, t)) s := by
  rw [startBatch, wp_bind, wp_read]
  cases s.vars.pendingStarted with
  | some t => exact h
  | none =>
    rw [wp_bind]
    apply wp_post (now_path h)
    intro t _ ht
    rw [wp_bind, wp_assign]
    exact ht.1.tail (.started t)

theorem catchingUp_path {m : M} {started : Int} (h : Path cfg env x₀ (.idle, s)) :
    wp (catchingUp cfg env m started) (fun _ t => Path cfg env x₀ (.idle, t))
      (fun e t => Path cfg env x₀ (.raised e, t)) s := by
  have hclock : ∀ (n : Int) (t : State W M), Path cfg env x₀ (.idle, t) →
      wp (if n > cfg.maxBatch then do
            let now' ← now env
            pure (decide (now' - started < cfg.maxPendingLatency * 2))
          else pure false)
        (fun _ t => Path cfg env x₀ (.idle, t)) (fun e t => Path cfg env x₀ (.raised e, t)) t := by
    intro n t ht
    split
    · rw [wp_bind]
      exact wp_post (now_path ht) fun _ _ ht => ht.1
    · exact ht
  rw [catchingUp, wp_bind]
  refine wp_tryExcept ?_
  rw [wp_bind]
  refine wp_call (fun md w hp => ?_) (fun e w hp => ⟨fun he => ?_, fun he => ?_⟩)
  · exact hclock _ _ (h.tail (.aside (Aside.of_reply hp (.metadata m))))
  · refine hclock 0 _ (h.tail (.catchUpRaised he (Aside.of_reply hp (.metadata m))))
  · exact h.tail (.crashed .catchUp he (.aside (Aside.of_reply hp (.metadata m))))

theorem overdue_path {started : Int} (h : Path cfg env x₀ (.idle, s)) :
    wp (overdue cfg env started) (fun _ t => Path cfg env x₀ (.idle, t))
      (fun e t => Path cfg env x₀ (.raised e, t)) s := by
  rw [overdue, wp_bind, wp_read]
  split
  · exact h
  · rw [wp_bind]
    exact wp_post (now_path h) fun _ _ ht => ht.1

theorem settle_path {m : M} {wantsFlush force : Bool} (h : Path cfg env x₀ (.idle, s)) :
    wp (settle cfg env m wantsFlush force) (fun _ t => Path cfg env x₀ (.idle, t))
      (fun e t => Path cfg env x₀ (.raised e, t)) s := by
  rw [settle, wp_bind, wp_read]
  split
  · exact flush_path h
  · rw [wp_bind]
    apply wp_post (startBatch_path h)
    intro started t ht
    rw [wp_bind]
    apply wp_post (catchingUp_path ht)
    intro bypass t ht
    cases bypass with
    | true => exact ht
    | false =>
      simp only [Bool.false_eq_true, if_false]
      rw [wp_bind]
      apply wp_post (overdue_path ht)
      intro due t ht
      cases due with
      | false => exact ht
      | true =>
        simp only [if_true]
        rw [wp_bind]
        exact wp_post (now_path ht) fun _ _ ht => flush_path ht.1

theorem processMessage_path {m : M} (h : Path cfg env x₀ (.taken m, s.push (.took m))) :
    wp (processMessage cfg env m) (fun _ t => Path cfg env x₀ (.idle, t))
      (fun e t => Path cfg env x₀ (.raised e, t)) s := by
  rw [processMessage, wp_bind]
  apply wp_post (receive_path h)
  intro seq t ht
  rw [wp_bind]
  apply wp_post (stage_path .decode (fun w => .fromMessage m seq) ht)
  intro evt t ht
  rw [wp_bind]
  apply wp_post (decide_path ht)
  intro verdict t ht
  obtain ⟨skipIt, evt⟩ := verdict
  cases skipIt with
  | true => exact skip_path ht
  | false =>
    simp only [Bool.false_eq_true, if_false]
    rw [wp_bind]
    apply wp_post (migrate_path ht)
    intro verdict t ht
    rw [wp_bind]
    apply wp_post (trim_path ht)
    intro evt t ht
    rw [wp_bind]
    exact wp_post (hand_path ht) fun _ t ht => settle_path ht

theorem onIdle_path (h : Path cfg env x₀ (.idle, s)) :
    wp (onIdle cfg env) (fun _ t => Path cfg env x₀ (.idle, t))
      (fun e t => Path cfg env x₀ (.raised e, t)) s := by
  rw [onIdle, wp_bind, wp_read, wp_bind, wp_read]
  cases s.vars.pendingStarted with
  | none => exact h
  | some started =>
    show wp (if _ then _ else _) _ _ _
    split
    · rw [wp_bind]
      apply wp_post (now_path h)
      intro t _ ht
      split
      · exact flush_path ht.1
      · exact ht.1
    · exact h

end Paths

theorem path_tooks {x y : Phase M × State W M} (h : Path cfg env x y) :
    tooks y.2.trace = tooks x.2.trace :=
  path_invariant (I := fun z => tooks z.2.trace = tooks x.2.trace)
    (fun hstep hz => (micro_tooks hstep).trans hz) h rfl

/-! ## Sessions

A session is any sequence of calls from outside: messages are handed in while the
processor is idle or it is told to give its batch back, and it works in between. -/

section Sessions

variable (cfg : Config) (env : Env W M)

inductive Session (s₀ : State W M) : Phase M × State W M → Prop where
  | start : Session s₀ (.idle, s₀)
  | took {s : State W M} (m : M) (h : Session s₀ (.idle, s)) :
      Session s₀ (.taken m, s.push (.took m))
  | giveBack {s : State W M} (h : Session s₀ (.idle, s)) :
      Session s₀ (.nacking s.vars.pending none, s)
  | micro {x y : Phase M × State W M} (h : Session s₀ x) (hxy : Micro cfg env x y) : Session s₀ y

end Sessions

theorem Session.path {s₀ : State W M} {x y : Phase M × State W M} (h : Session cfg env s₀ x)
    (hxy : Path cfg env x y) : Session cfg env s₀ y :=
  path_invariant (fun hstep hx => hx.micro hstep) hxy h

end Consumer
end Eds
