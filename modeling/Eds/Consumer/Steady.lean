import Eds.Consumer.Bufferer

/-!
# What becomes of a message

Between two deliveries of a message the registry, the validator and the cutoffs may
change, so that an event is skipped the first time and handed over the second, or handed
over with another `diff`.  An environment is `Steady` if its verdict on a message is
always the same: `none` for one that is skipped, else the event that the driver gets.
The trace of every run then agrees with the verdict (`exec_consistent`).
-/

namespace Eds
namespace Consumer

open Effects Effects.Prog Effects.Traced

variable {W M : Type}

def migrated (cfg : Config) (env : Env W M) (evt : DBChangeEvent) :
    Prog Exn W (Bool × DBChangeEvent) :=
  if cfg.supportsMigration then handlePossibleMigration env evt else pure (false, evt)

def trimmed (cfg : Config) (env : Env W M) (evt : DBChangeEvent) : Prog Exn W DBChangeEvent :=
  if !evt.operation.eqStr "DELETE" && cfg.hasRegistry then conform env evt else pure evt

/-- The four stages between the sequence check and the driver, as one program. -/
def verdict (cfg : Config) (env : Env W M) (msg : M) (seq : Int) :
    Prog Exn W (Option DBChangeEvent) := do
  let evt ← env.fromMessage msg seq
  let (skipIt, evt) ← shouldSkip cfg env evt
  if skipIt then pure none
  else do
    let (_, evt) ← migrated cfg env evt
    let evt ← trimmed cfg env evt
    pure (some evt)

def Steady (cfg : Config) (env : Env W M) (event : M → Option DBChangeEvent) : Prop :=
  ∀ m seq, Returns (verdict cfg env m seq) fun r => r = event m

def Consistent (event : M → Option DBChangeEvent) : Obs M → Prop
  | .skipped m => event m = none
  | .processed m _ evt => event m = some evt
  | .took _ | .flushed | .ack _ | .nak _ | .raised _ _ => True

section Programs

variable {cfg : Config} {env : Env W M} {event : M → Option DBChangeEvent}

/-- Only events that agree with the verdict are added. -/
abbrev Agreeing (event : M → Option DBChangeEvent) : State W M → State W M → Prop :=
  Adds (Consistent event)

theorem read_agreeing {α : Type} (f : Batch M → α) :
    Within (Agreeing event) (read f : Proc W M α) := fun s => Adds.refl s

theorem assign_agreeing (f : Batch M → Batch M) :
    Within (Agreeing event) (assign f : Proc W M Unit) := fun _ => Adds.nothing rfl

theorem ask_agreeing {α : Type} (c : Call M) (p : Prog Exn W α) :
    Within (Agreeing event) (ask c p) :=
  (adds_outside p).handle
    (fun _ => (adds_note trivial).bind (fun _ => within_raise Adds.refl _) Adds.trans) Adds.trans

theorem now_agreeing : Within (Agreeing event) (now env) := adds_outside _

theorem nackEverything_agreeing : Within (Agreeing event) (nackEverything env) := by
  refine (read_agreeing _).bind (fun pending => ?_) Adds.trans
  refine (within_each (fun m => ?_) Adds.refl Adds.trans pending).bind
    (fun _ => assign_agreeing _) Adds.trans
  refine (adds_note trivial).bind (fun _ => ?_) Adds.trans
  exact within_tryExcept (ask_agreeing _ _) (fun _ => within_pure Adds.refl _) Adds.refl Adds.trans

theorem handleError_agreeing {α : Type} (err : String) :
    Within (Agreeing event) (handleError env err : Proc W M α) :=
  nackEverything_agreeing.bind (fun _ => within_raise Adds.refl _) Adds.trans

theorem stop_agreeing {α : Type} : Within (Agreeing event) (stop env : Proc W M α) :=
  nackEverything_agreeing.bind (fun _ => within_raise Adds.refl _) Adds.trans

theorem flush_agreeing : Within (Agreeing event) (flush env) := by
  refine now_agreeing.bind (fun _ => ?_) Adds.trans
  refine Within.bind ?_ (fun _ => ?_) Adds.trans
  · refine (read_agreeing _).bind (fun pending => ?_) Adds.trans
    refine Within.bind ?_ (fun _ => adds_note trivial) Adds.trans
    refine (ask_agreeing _ _).handle (fun e => ?_) Adds.trans
    split
    · exact stop_agreeing
    · split
      · exact handleError_agreeing _
      · exact within_raise Adds.refl _
  · refine (read_agreeing _).bind (fun pending => ?_) Adds.trans
    refine Within.bind ?_ (fun _ => ?_) Adds.trans
    · refine within_each (fun m => ?_) Adds.refl Adds.trans pending
      refine (adds_note trivial).bind (fun _ => ?_) Adds.trans
      exact within_tryExcept (ask_agreeing _ _) (fun _ => stop_agreeing) Adds.refl Adds.trans
    · refine Within.bind ?_ (fun _ => assign_agreeing _) Adds.trans
      refine (read_agreeing _).bind (fun started => ?_) Adds.trans
      cases started with
      | none => exact now_agreeing.bind (fun _ => within_pure Adds.refl _) Adds.trans
      | some t =>
        exact now_agreeing.bind (fun _ => now_agreeing.bind (fun _ => within_pure Adds.refl _)
          Adds.trans) Adds.trans

theorem receive_agreeing (m : M) : Within (Agreeing event) (receive env m) := by
  refine (adds_note trivial).bind (fun _ => ?_) Adds.trans
  refine (within_tryExcept (ask_agreeing _ _) (fun _ => handleError_agreeing _) Adds.refl
    Adds.trans).bind (fun md => ?_) Adds.trans
  refine (assign_agreeing _).bind (fun _ => ?_) Adds.trans
  refine Within.bind ?_ (fun _ => within_pure Adds.refl _) Adds.trans
  refine (read_agreeing _).bind (fun expected => ?_) Adds.trans
  split
  · exact assign_agreeing _
  · exact (adds_note trivial).bind (fun _ => handleError_agreeing _) Adds.trans

theorem settle_agreeing {m : M} {wantsFlush force : Bool} :
    Within (Agreeing event) (settle cfg env m wantsFlush force) := by
  refine (read_agreeing _).bind (fun count => ?_) Adds.trans
  split
  · exact flush_agreeing
  · refine Within.bind ?_ (fun started => ?_) Adds.trans
    · refine (read_agreeing _).bind (fun started => ?_) Adds.trans
      cases started with
      | some t => exact within_pure Adds.refl _
      | none =>
        exact now_agreeing.bind (fun _ => (assign_agreeing _).bind
          (fun _ => within_pure Adds.refl _) Adds.trans) Adds.trans
    · refine Within.bind ?_ (fun bypass => ?_) Adds.trans
      · refine Within.bind ?_ (fun pending => ?_) Adds.trans
        · exact within_tryExcept ((ask_agreeing _ _).bind (fun _ => within_pure Adds.refl _) Adds.trans)
            (fun _ => within_pure Adds.refl _) Adds.refl Adds.trans
        · split
          · exact now_agreeing.bind (fun _ => within_pure Adds.refl _) Adds.trans
          · exact within_pure Adds.refl _
      · split
        · exact within_pure Adds.refl _
        · refine Within.bind ?_ (fun due => ?_) Adds.trans
          · refine (read_agreeing _).bind (fun count => ?_) Adds.trans
            split
            · exact within_pure Adds.refl _
            · exact now_agreeing.bind (fun _ => within_pure Adds.refl _) Adds.trans
          · split
            · exact now_agreeing.bind (fun _ => flush_agreeing) Adds.trans
            · exact within_pure Adds.refl _

theorem onIdle_agreeing : Within (Agreeing event) (onIdle cfg env) := by
  refine (read_agreeing _).bind (fun count => ?_) Adds.trans
  refine (read_agreeing _).bind (fun started => ?_) Adds.trans
  cases started with
  | none => exact within_pure Adds.refl _
  | some t =>
    show Within _ (if _ then _ else _)
    split
    · refine now_agreeing.bind (fun now => ?_) Adds.trans
      split
      · exact flush_agreeing
      · exact within_pure Adds.refl _
    · exact within_pure Adds.refl _

/-- The rest of a program after the trace has grown. -/
theorem wp_agreeing {α : Type} {p : Proc W M α} (hp : Within (Agreeing event) p) {s t : State W M}
    (h : Agreeing event s t) :
    wp p (fun _ u => Agreeing event s u) (fun _ u => Agreeing event s u) t :=
  wp_mono (hp.wp t) (fun _ _ hu => h.trans hu) (fun _ _ hu => h.trans hu)

section Message

variable {m : M} {seq : Int} {evt : DBChangeEvent} {s t : State W M}

theorem skip_agreeing [DecidableEq M] (hevent : event m = none) :
    Within (Agreeing event) (skip env m) := by
  refine (adds_note (e := Obs.skipped m) hevent).bind (fun _ => ?_) Adds.trans
  refine (adds_note (e := Obs.ack m) trivial).bind (fun _ => ?_) Adds.trans
  refine Within.bind ?_ (fun _ => assign_agreeing _) Adds.trans
  exact within_tryExcept (ask_agreeing _ _) (fun _ => within_pure Adds.refl _) Adds.refl Adds.trans

theorem hand_agreeing (hevent : event m = some evt) : Within (Agreeing event) (hand env m seq evt) := by
  refine Within.bind ?_ (fun flush => ?_) Adds.trans
  · exact within_tryExcept (ask_agreeing _ _) (fun _ => handleError_agreeing _) Adds.refl Adds.trans
  · exact (adds_note (e := Obs.processed m seq evt) hevent).bind (fun _ => within_pure Adds.refl _)
      Adds.trans

/-- A stage that gives the batch back when it fails, with what it does to the world when it
returns. -/
theorem stage_agreeing {α : Type} {c : Call M} {p : Prog Exn W α} {Q : α → State W M → Prop}
    (h : Agreeing event s t) (hQ : ∀ a w, p t.world = (.ok a, w) → Q a (t.inWorld w)) :
    wp (tryExcept (ask c p) fun e => handleError env e.str) Q (fun _ u => Agreeing event s u) t := by
  refine wp_tryExcept (wp_call (fun a w hp => hQ a w hp) (fun e w _ => ?_))
  have hraised : Agreeing event s ((t.inWorld w).push (.raised c e)) :=
    h.trans (Adds.one rfl trivial)
  refine ⟨fun _ => ?_, fun _ => hraised⟩
  rw [handleError, wp_bind]
  exact wp_mono (nackEverything_agreeing.wp _) (fun _ _ hu => hraised.trans hu)
    (fun _ _ hu => hraised.trans hu)

/-- The two stages after the verdict on skipping, in a world that they may change. -/
theorem keep_agreeing (h : Agreeing event s t)
    (hverdict : ∀ {force : Bool} {evt' evt'' : DBChangeEvent} {w w' : W},
      migrated cfg env evt t.world = (.ok (force, evt'), w) →
      trimmed cfg env evt' w = (.ok evt'', w') → event m = some evt'') :
    wp (do
      let (force, evt) ← migrate cfg env m evt
      let evt ← trim cfg env m evt
      let wantsFlush ← hand env m seq evt
      settle cfg env m wantsFlush force : Proc W M Unit)
      (fun _ u => Agreeing event s u) (fun _ u => Agreeing event s u) t := by
  have hlast : ∀ {force : Bool} {evt' : DBChangeEvent} {w : W} {u : State W M},
      migrated cfg env evt t.world = (.ok (force, evt'), w) →
      u.world = w → Agreeing event s u →
      wp (do
        let evt ← trim cfg env m evt'
        let wantsFlush ← hand env m seq evt
        settle cfg env m wantsFlush force : Proc W M Unit)
        (fun _ u => Agreeing event s u) (fun _ u => Agreeing event s u) u := by
    intro force evt' w u hmigrated hu hs
    have hend : ∀ {evt'' : DBChangeEvent} {v : State W M}, event m = some evt'' →
        Agreeing event s v → wp (do
          let wantsFlush ← hand env m seq evt''
          settle cfg env m wantsFlush force : Proc W M Unit)
          (fun _ u => Agreeing event s u) (fun _ u => Agreeing event s u) v := fun hevent hv =>
      wp_agreeing ((hand_agreeing hevent).bind (fun _ => settle_agreeing) Adds.trans) hv
    rw [wp_bind, trim]
    by_cases htrim : (!evt'.operation.eqStr "DELETE" && cfg.hasRegistry) = true
    · rw [if_pos htrim]
      refine stage_agreeing hs fun evt'' w' hp => ?_
      exact hend (hverdict hmigrated (by rw [trimmed, if_pos htrim, ← hu]; exact hp)) hs
    · rw [if_neg htrim, wp_pure]
      exact hend (hverdict hmigrated (by rw [trimmed, if_neg htrim]; rfl)) hs
  rw [wp_bind, migrate]
  by_cases hmigrate : cfg.supportsMigration = true
  · rw [if_pos hmigrate]
    refine stage_agreeing h fun r w hp => ?_
    exact hlast (by rw [migrated, if_pos hmigrate]; exact hp) rfl h
  · rw [if_neg hmigrate, wp_pure]
    exact hlast (by rw [migrated, if_neg hmigrate]; rfl) rfl h

theorem processMessage_agreeing [DecidableEq M] (hsteady : Steady cfg env event) (m : M) :
    Within (Agreeing event) (processMessage cfg env m) := by
  intro s
  refine wp_state (I := fun t => Agreeing event s t) ?_
  rw [processMessage, wp_bind]
  refine wp_mono ((receive_agreeing m).wp s) (fun seq t ht => ?_) (fun _ _ ht => ht)
  rw [wp_bind, decode]
  refine stage_agreeing ht fun evt w₁ h₁ => ?_
  rw [wp_bind, ask]
  refine wp_call (fun r w₂ h₂ => ?_) (fun e w _ => ?_)
  · obtain ⟨skipIt, evt'⟩ := r
    cases skipIt with
    | true =>
      have hevent : none = event m := by
        refine (hsteady m seq).reply (s := t.world) (t := w₂) ?_
        exact (bind_of_ok h₁).trans (bind_of_ok h₂)
      exact wp_agreeing (skip_agreeing hevent.symm) ht
    | false =>
      refine keep_agreeing ht fun {force evt₃ evt₄ w₃ w₄} h₃ h₄ => ?_
      have hevent : some evt₄ = event m := by
        refine (hsteady m seq).reply (s := t.world) (t := w₄) ?_
        refine (bind_of_ok h₁).trans ((bind_of_ok h₂).trans ?_)
        exact (bind_of_ok h₃).trans (bind_of_ok h₄)
      exact hevent.symm
  · exact ht.trans (Adds.one rfl trivial)

end Message

/-! ## Runs -/

variable [DecidableEq M] {b : Bufferer W M}

theorem handle_agreeing (hsteady : Steady cfg env event) (item : Option M) :
    Agreeing event b.processor (b.handle cfg env item).processor := by
  cases item with
  | none => exact flush_agreeing b.processor
  | some m => exact processMessage_agreeing hsteady m b.processor

theorem step_agreeing (hsteady : Steady cfg env event) (move : Bufferer.Move M) :
    Agreeing event b.processor (b.step cfg env move).processor := by
  cases move with
  | turn =>
    show Agreeing event b.processor (b.turn cfg env).processor
    unfold Bufferer.turn
    split
    · next rest _ _ => exact handle_agreeing (b := { b with queue := rest }) hsteady _
    · split
      · exact nackEverything_agreeing b.processor
      · exact onIdle_agreeing b.processor
    · next rest _ _ => exact handle_agreeing (b := { b with queue := rest }) hsteady _
    · exact Adds.refl _
    · exact Adds.refl _
    · exact Adds.refl _
  | timeout =>
    show Agreeing event b.processor (if _ then _ else _ : Bufferer W M).processor
    split <;> exact Adds.refl _
  | put item => exact Adds.refl _
  | setCancel => exact Adds.refl _
  | kill =>
    show Agreeing event b.processor b.kill.processor
    unfold Bufferer.kill
    split <;> exact Adds.refl _

theorem exec_agreeing (hsteady : Steady cfg env event) (moves : List (Bufferer.Move M)) :
    Agreeing event b.processor (b.exec cfg env moves).processor := by
  induction moves generalizing b with
  | nil => exact Adds.refl _
  | cons move rest ih => exact (step_agreeing hsteady move).trans ih

/-- In a run of the drain task every message meets the verdict on it. -/
theorem exec_consistent (hsteady : Steady cfg env event) (queue : List (Option M)) (cancel : Bool)
    (sequence : Int) (w : W) (moves : List (Bufferer.Move M)) :
    ∀ o ∈ ((Bufferer.initial queue cancel sequence w).exec cfg env moves).processor.trace,
      Consistent event o :=
  (exec_agreeing hsteady moves).all fun _ h => absurd h List.not_mem_nil

end Programs
end Consumer
end Eds
