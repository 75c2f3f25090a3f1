import Eds.Consumer.Failures
import Eds.Consumer.Frames
import Eds.Consumer.Pending

/-!
# How long a batch is kept

With a clock that does not go back, a message that is handed to the driver leaves
no batch, or one that is younger than twice the maximum latency: `settle` reads the
clock last, and keeps the batch only if the reading says so.

A message that is skipped returns before that test, and leaves the batch as old as
it is.  `skipEnd` is the world in which it returns.
-/

namespace Eds
namespace Consumer

open Effects Effects.Prog Effects.Traced Collections

variable {W M : Type}

/-- Time passes in the calls, and the clock reads it. -/
structure Env.Monotone (env : Env W M) (time : W → Int) : Prop
    extends env.Keeps fun w w' => time w ≤ time w' where
  reads : ∀ w, (env.clock w).1 = time (env.clock w).2
  process : ∀ evt, Within (fun w w' => time w ≤ time w') (env.process evt)
  migrateNewTable : ∀ schema, Within (fun w w' => time w ≤ time w') (env.migrateNewTable schema)
  migrateNewColumns : ∀ schema cols,
    Within (fun w w' => time w ≤ time w') (env.migrateNewColumns schema cols)
  getTableVersion : ∀ table, Within (fun w w' => time w ≤ time w') (env.getTableVersion table)
  getSchema : ∀ table version, Within (fun w w' => time w ≤ time w') (env.getSchema table version)
  setTableVersion : ∀ table version,
    Within (fun w w' => time w ≤ time w') (env.setTableVersion table version)

/-- No batch is pending, or less than twice the maximum latency has passed since its
first message. -/
def Fresh (cfg : Config) (time : W → Int) (s : State W M) : Prop :=
  s.vars.pending = [] ∨ ∃ began, s.vars.pendingStarted = some began ∧
    time s.world - began < 2 * cfg.maxPendingLatency

/-- The world in which the call returns if the message is skipped. -/
def skipEnd (cfg : Config) (env : Env W M) (msg : M) (s : State W M) : Option W :=
  match decoded env msg s with
  | none => none
  | some (evt, w) =>
    match shouldSkip cfg env evt w with
    | (.ok (true, _), w') => some (env.ack msg w').2
    | _ => none

/-- A batch has a first message, and that came in the past. -/
structure Timed (time : W → Int) (s : State W M) : Prop where
  started : s.vars.pending ≠ [] → ∃ began, s.vars.pendingStarted = some began
  begun : ∀ began, s.vars.pendingStarted = some began → began ≤ time s.world

/-- Time has passed, and the batch is the same one. -/
structure Later (time : W → Int) (s t : State W M) : Prop where
  time : time s.world ≤ time t.world
  started : t.vars.pendingStarted = s.vars.pendingStarted

section Programs

variable {cfg : Config} {env : Env W M} {time : W → Int} (hclock : env.Monotone time)
  {s t : State W M}

theorem Later.trans {u : State W M} (h : Later time s t) (h' : Later time t u) : Later time s u :=
  ⟨Int.le_trans h.time h'.time, h'.started.trans h.started⟩

theorem Later.begun (h : Later time s t)
    (hs : ∀ began, s.vars.pendingStarted = some began → began ≤ time s.world) :
    ∀ began, t.vars.pendingStarted = some began → began ≤ time t.world := by
  intro began hbegan
  rw [h.started] at hbegan
  exact Int.le_trans (hs began hbegan) h.time

/-- A part of the processor that moves neither the batch nor the clock back. -/
theorem later_of {α : Type} {p : Proc W M α}
    (hquiet : wp p (fun _ u => Quiet t u) (fun _ _ => True) t)
    (hkeeps : Within (OnWorld fun w w' => time w ≤ time w') p) :
    wp p (fun _ u => Quiet t u ∧ Later time t u) (fun _ _ => True) t := by
  refine wp_mono (wp_and hquiet (hkeeps.wp t)) (fun _ u hu => ⟨hu.1, hu.2, ?_⟩)
    (fun _ _ _ => trivial)
  rw [hu.1.vars]

include hclock

theorem now_reads :
    wp (now env) (fun n u => Quiet t u ∧ Later time t u ∧ n = time u.world) (fun _ _ => True) t := by
  refine wp_outside (fun n w hp => ?_) (fun _ _ _ => trivial)
  cases hp
  exact ⟨⟨rfl, rfl, rfl⟩, ⟨hclock.clock _, rfl⟩, hclock.reads _⟩

/-! ## Frames -/

theorem handlePossibleMigration_keeps (evt : DBChangeEvent) :
    Within (fun w w' => time w ≤ time w') (handlePossibleMigration env evt) := by
  have hdone : ∀ a : Bool × DBChangeEvent, Within (fun w w' => time w ≤ time w')
      (pure a : Prog Exn W _) := fun a => within_pure hclock.refl a
  refine (hclock.getTableVersion _).bind (fun found => ?_) hclock.trans
  obtain ⟨found, version⟩ := found
  show Within _ (if _ then _ else _)
  split
  · exact hdone _
  · refine (hclock.getSchema _ _).bind (fun newschema => ?_) hclock.trans
    split
    · refine (hclock.migrateNewTable _).bind (fun _ => ?_) hclock.trans
      exact (hclock.setTableVersion _ _).bind (fun _ => hdone _) hclock.trans
    · refine (hclock.getSchema _ _).bind (fun oldschema => ?_) hclock.trans
      simp only
      split
      · exact hdone _
      · refine (hclock.migrateNewColumns _ _).bind (fun _ => ?_) hclock.trans
        split
        · exact within_raise hclock.refl _
        · exact (hclock.setTableVersion _ _).bind (fun _ => hdone _) hclock.trans

theorem conform_keeps (evt : DBChangeEvent) :
    Within (fun w w' => time w ≤ time w') (conform env evt) := by
  refine (hclock.getSchema _ _).bind (fun schema => ?_) hclock.trans
  split
  · exact within_pure hclock.refl _
  · simp only
    split
    · exact within_pure hclock.refl _
    · exact within_pure hclock.refl _

theorem stage_keeps {α : Type} {c : Call M} {p : Prog Exn W α}
    (hp : Within (fun w w' => time w ≤ time w') p) :
    Within (OnWorld fun w w' => time w ≤ time w')
      (tryExcept (ask c p) fun e => handleError env e.str) :=
  keeps_tryExcept hclock.toKeeps (within_ask hp) fun _ => handleError_keeps hclock.toKeeps _

theorem migrate_later {m : M} {evt : DBChangeEvent} :
    wp (migrate cfg env m evt) (fun _ u => Quiet t u ∧ Later time t u) (fun _ _ => True) t := by
  refine later_of (migrate_quiet (Quiet.refl t)) ?_
  rw [migrate]
  split
  · exact stage_keeps hclock (handlePossibleMigration_keeps hclock evt)
  · exact keeps_pure hclock.toKeeps _

theorem trim_later {m : M} {evt : DBChangeEvent} :
    wp (trim cfg env m evt) (fun _ u => Quiet t u ∧ Later time t u) (fun _ _ => True) t := by
  refine later_of (trim_quiet (Quiet.refl t)) ?_
  rw [trim]
  split
  · exact stage_keeps hclock (conform_keeps hclock evt)
  · exact keeps_pure hclock.toKeeps _

theorem hand_later {m : M} {seq : Int} {evt : DBChangeEvent} :
    wp (hand env m seq evt) (fun _ u => Later time t u) (fun _ _ => True) t := by
  rw [hand, wp_bind]
  apply wp_post (later_of (stage_quiet (Quiet.refl t)) (stage_keeps hclock (hclock.process evt)))
  intro _ u hu
  exact ⟨hu.2.time, hu.2.started⟩

/-! ## The test of the latency -/

theorem startBatch_reads (hbegun : ∀ began, t.vars.pendingStarted = some began → began ≤ time t.world) :
    wp (startBatch env) (fun began u => u.vars.pendingStarted = some began ∧ began ≤ time u.world)
      (fun _ _ => True) t := by
  rw [startBatch, wp_bind, wp_read]
  cases hstarted : t.vars.pendingStarted with
  | some began => exact ⟨hstarted, hbegun began hstarted⟩
  | none =>
    rw [wp_bind]
    apply wp_post (now_reads hclock)
    intro began u hu
    exact ⟨rfl, Int.le_of_eq hu.2.2⟩

/-- The bypass is taken only while the batch is younger than twice the latency. -/
theorem catchingUp_reads {m : M} {began : Int} :
    wp (catchingUp cfg env m began)
      (fun bypass u => Later time t u ∧
        (bypass = true → time u.world - began < 2 * cfg.maxPendingLatency))
      (fun _ _ => True) t := by
  have hread : ∀ (n : Int) (u : State W M), Later time t u →
      wp (if n > cfg.maxBatch then do
            let now' ← now env
            pure (decide (now' - began < cfg.maxPendingLatency * 2))
          else pure false)
        (fun bypass v => Later time t v ∧
          (bypass = true → time v.world - began < 2 * cfg.maxPendingLatency)) (fun _ _ => True) u := by
    intro n u hu
    split
    · rw [wp_bind]
      apply wp_post (now_reads hclock)
      intro reading v hgiven
      obtain ⟨_, hlater, hreading⟩ := hgiven
      refine ⟨hu.trans hlater, fun hbypass => ?_⟩
      rw [← hreading]
      have := of_decide_eq_true hbypass
      omega
    · exact ⟨hu, nofun⟩
  have hask : ∀ w, time t.world ≤ time w → ∀ trace, Later time t ⟨t.vars, w, trace⟩ :=
    fun w hw _ => ⟨hw, rfl⟩
  rw [catchingUp, wp_bind]
  refine wp_tryExcept ?_
  rw [wp_bind]
  refine wp_call (fun md w hp => ?_) (fun e w hp => ⟨fun _ => ?_, fun _ => trivial⟩)
  · exact hread _ _ (hask w ((hclock.metadata m).reply hp) _)
  · exact hread 0 _ (hask w ((hclock.metadata m).reply hp) _)

/-- A batch that is not due is younger than the latency itself. -/
theorem overdue_reads {began : Int} :
    wp (overdue cfg env began)
      (fun due u => Later time t u ∧
        (due = false → time u.world - began < cfg.maxPendingLatency)) (fun _ _ => True) t := by
  rw [overdue, wp_bind, wp_read]
  split
  · refine ⟨⟨Int.le_refl _, rfl⟩, fun hdue => ?_⟩
    cases hdue
  · rw [wp_bind]
    apply wp_post (now_reads hclock)
    intro reading u hgiven
    obtain ⟨_, hlater, hreading⟩ := hgiven
    refine ⟨hlater, fun hdue => ?_⟩
    rw [← hreading]
    have := of_decide_eq_false hdue
    omega

omit hclock in
theorem flush_cleared :
    wp (flush env) (fun _ u => u.vars.pending = [] ∧ u.vars.pendingStarted = none) (fun _ _ => True)
      t := by
  apply wp_post (flush_drained (Quiet.refl t))
  intro _ u hu
  rw [hu.vars, Batch.cleared]
  exact ⟨rfl, rfl⟩

omit hclock in
theorem Timed.of_cleared {u : State W M}
    (h : u.vars.pending = [] ∧ u.vars.pendingStarted = none) : Timed time u := by
  refine ⟨fun hne => absurd h.1 hne, fun began hbegan => ?_⟩
  rw [h.2] at hbegan
  cases hbegan

omit hclock in
theorem flush_fresh :
    wp (flush env) (fun _ u => Fresh cfg time u ∧ Timed time u) (fun _ _ => True) t :=
  wp_post flush_cleared fun _ _ hu => ⟨Or.inl hu.1, Timed.of_cleared hu⟩

omit hclock in
theorem flush_timed : wp (flush env) (fun _ u => Timed time u) (fun _ _ => True) t :=
  wp_post flush_cleared fun _ _ hu => Timed.of_cleared hu

theorem settle_fresh {m : M} {wantsFlush force : Bool}
    (hbegun : ∀ began, t.vars.pendingStarted = some began → began ≤ time t.world) :
    wp (settle cfg env m wantsFlush force) (fun _ u => Fresh cfg time u ∧ Timed time u)
      (fun _ _ => True) t := by
  rw [settle, wp_bind, wp_read]
  split
  · exact flush_fresh
  · rw [wp_bind]
    apply wp_post (startBatch_reads hclock hbegun)
    intro began t₁ hgiven
    obtain ⟨hstarted, hbefore⟩ := hgiven
    have hkept : ∀ u, Later time t₁ u → time u.world - began < 2 * cfg.maxPendingLatency →
        Fresh cfg time u ∧ Timed time u := by
      intro u hu hyoung
      have hstill := hu.started.trans hstarted
      refine ⟨Or.inr ⟨began, hstill, hyoung⟩, fun _ => ⟨began, hstill⟩, ?_⟩
      intro began' hbegan'
      cases hstill.symm.trans hbegan'
      exact Int.le_trans hbefore hu.time
    rw [wp_bind]
    apply wp_post (catchingUp_reads hclock)
    intro bypass t₂ hgiven
    obtain ⟨h₂, hyoung⟩ := hgiven
    cases bypass with
    | true => exact hkept t₂ h₂ (hyoung rfl)
    | false =>
      simp only [Bool.false_eq_true, if_false]
      rw [wp_bind]
      apply wp_post (overdue_reads hclock)
      intro due t₃ hgiven
      obtain ⟨h₃, hyoung⟩ := hgiven
      cases due with
      | false =>
        have hlater := h₂.trans h₃
        apply hkept t₃ hlater
        -- The latency is positive, because the batch began in the past.
        have hsince := Int.le_trans hbefore hlater.time
        have := hyoung rfl
        omega
      | true =>
        simp only [if_true]
        rw [wp_bind]
        exact wp_any (fun _ u => flush_fresh) (fun _ _ => trivial)

omit hclock in
theorem erase_joined [DecidableEq M] (pending : List M) (m : M) :
    (pending ++ [m]).erase m = [] ↔ pending = [] := by
  have hlength : ((pending ++ [m]).erase m).length = pending.length := by
    rw [List.length_erase_of_mem (by simp), List.length_append, List.length_singleton]
    omega
  rw [← List.length_eq_zero_iff, hlength, List.length_eq_zero_iff]

omit hclock in
theorem skip_spec [DecidableEq M] {m : M} :
    wp (skip env m)
      (fun _ u => u.vars = { t.vars with pending := t.vars.pending.erase m } ∧
        u.world = (env.ack m t.world).2) (fun _ _ => True) t := by
  rw [skip, wp_bind, wp_note, wp_bind, wp_note, wp_bind]
  refine wp_tryExcept (wp_call (fun _ w hp => ?_) (fun e w hp => ⟨fun _ => ?_, fun _ => trivial⟩))
  · exact ⟨rfl, (congrArg Prod.snd hp).symm⟩
  · exact ⟨rfl, (congrArg Prod.snd hp).symm⟩

/-- A message that was skipped leaves the batch as it was, at the time its ack is over,
and any other one leaves it fresh. -/
theorem processMessage_fresh [DecidableEq M] {msg : M} (hs : Timed time s) :
    wp (processMessage cfg env msg)
      (fun _ u => Timed time u ∧
        ((skipEnd cfg env msg s = none ∧ Fresh cfg time u) ∨
          (skipEnd cfg env msg s = some u.world ∧ u.vars.pendingStarted = s.vars.pendingStarted ∧
            (u.vars.pending = [] ↔ s.vars.pending = []))))
      (fun _ _ => True) s := by
  rw [processMessage, wp_bind]
  refine wp_mono (wp_and receive_ends ((receive_keeps hclock.toKeeps msg).wp s))
    (fun seq t₁ hgiven => ?_) (fun _ _ _ => trivial)
  obtain ⟨⟨h₁, hstarted, hseq, md, hmd, hnumber⟩, htime⟩ := hgiven
  have hlater₁ : Later time s t₁ := ⟨htime, hstarted⟩
  have hpending : t₁.vars.pending = s.vars.pending ++ [msg] := by
    rw [h₁.pending, atStake, hmd]
  rw [wp_bind]
  refine wp_mono (wp_and (decode_ends h₁)
    (later_of (stage_quiet (Quiet.refl t₁)) (stage_keeps hclock (hclock.fromMessage msg seq))))
    (fun evt t₂ hgiven => ?_) (fun _ _ _ => trivial)
  obtain ⟨⟨_, hevt⟩, hquiet₂, hlater₂⟩ := hgiven
  have hdecoded : decoded env msg s = some (evt, t₂.world) := by
    simp only [decoded, hmd, hnumber, hseq, if_true]
    rw [← hseq, hevt]
  rw [wp_bind]
  refine wp_call (fun verdict w hskip => ?_) (fun _ _ _ => trivial)
  have htime₃ : time t₂.world ≤ time w := (shouldSkip_keeps hclock.toKeeps evt).reply hskip
  have hlater₃ : Later time s (t₂.inWorld w) := (hlater₁.trans hlater₂).trans ⟨htime₃, rfl⟩
  obtain ⟨skipIt, evt'⟩ := verdict
  cases skipIt with
  | true =>
    refine wp_mono (wp_and skip_spec ((skip_keeps hclock.toKeeps msg).wp _)) (fun _ u hu => ?_)
      (fun _ _ _ => trivial)
    obtain ⟨⟨hvars, hworld⟩, htime₄⟩ := hu
    have hsame : u.vars.pendingStarted = s.vars.pendingStarted := by
      rw [hvars]
      exact hlater₃.started
    have hempty : u.vars.pending = [] ↔ s.vars.pending = [] := by
      rw [hvars]
      show t₂.vars.pending.erase msg = [] ↔ _
      rw [hquiet₂.vars, hpending]
      exact erase_joined _ _
    have hend : skipEnd cfg env msg s = some u.world := by
      rw [skipEnd, hdecoded]
      simp only [hskip]
      rw [hworld]
      rfl
    refine ⟨⟨fun hne => ?_, ?_⟩, Or.inr ⟨hend, hsame, hempty⟩⟩
    · rw [hsame]
      exact hs.started fun h => hne (hempty.mpr h)
    · exact Later.begun ⟨Int.le_trans hlater₃.time htime₄, hsame⟩ hs.begun
  | false =>
    have hnone : skipEnd cfg env msg s = none := by
      rw [skipEnd, hdecoded]
      simp only [hskip]
    simp only [Bool.false_eq_true, if_false]
    rw [wp_bind]
    apply wp_post (migrate_later hclock)
    intro migrated t₄ h₄
    rw [wp_bind]
    apply wp_post (trim_later hclock)
    intro evt t₅ h₅
    rw [wp_bind]
    apply wp_post (hand_later hclock)
    intro wantsFlush t₆ h₆
    have hlater₆ : Later time s t₆ := ((hlater₃.trans h₄.2).trans h₅.2).trans h₆
    apply wp_post (settle_fresh hclock (hlater₆.begun hs.begun))
    intro _ u hu
    exact ⟨hu.2, Or.inl ⟨hnone, hu.1⟩⟩

theorem onIdle_timed (ht : Timed time t) :
    wp (onIdle cfg env) (fun _ u => Timed time u) (fun _ _ => True) t := by
  rw [onIdle, wp_bind, wp_read, wp_bind, wp_read]
  cases t.vars.pendingStarted with
  | none => exact ht
  | some began =>
    show wp (if _ then _ else _) _ _ _
    split
    · rw [wp_bind]
      apply wp_post (now_reads hclock)
      intro _ u hu
      split
      · exact flush_timed
      · refine ⟨fun hne => ?_, hu.2.1.begun ht.begun⟩
        rw [hu.2.1.started]
        rw [hu.1.vars] at hne
        exact ht.started hne
    · exact ht

theorem step_timed [DecidableEq M] (step : Step M) (ht : Timed time t) :
    wp (step.run cfg env) (fun _ u => Timed time u) (fun _ _ => True) t := by
  cases step with
  | message m => exact wp_post (processMessage_fresh hclock ht) fun _ _ hu => hu.1
  | idle => exact onIdle_timed hclock ht
  | flush => exact flush_timed

end Programs

/-! ## Runs -/

section Runs

variable [DecidableEq M]

/-- The processor after some steps, with no batch at the start. -/
def after (cfg : Config) (env : Env W M) (start : Int) (w : W) (steps : List (Step M)) :
    Except Exn Unit × State W M :=
  each (Step.run cfg env) steps ⟨⟨[], none, start⟩, w, []⟩

/-- If the message is skipped while a batch is pending, the call is over before twice the
maximum latency has passed since the first message of the batch. -/
def Prompt (cfg : Config) (env : Env W M) (time : W → Int) (msg : M) (s : State W M) : Prop :=
  ∀ w began, skipEnd cfg env msg s = some w → s.vars.pending ≠ [] →
    s.vars.pendingStarted = some began → time w < began + 2 * cfg.maxPendingLatency

variable {cfg : Config} {env : Env W M} {time : W → Int} {start : Int} {w : W}

theorem after_timed (hclock : env.Monotone time) {steps : List (Step M)} {s : State W M}
    (h : after cfg env start w steps = (.ok (), s)) : Timed time s := by
  have hstart : Timed time (⟨⟨[], none, start⟩, w, []⟩ : State W M) :=
    ⟨fun hne => absurd rfl hne, nofun⟩
  have hall := wp_each (f := Step.run cfg env) (E := fun _ _ => True) (fun _ t => Timed time t)
    (fun step _ _ ht => step_timed hclock step ht) steps _ hstart
  exact wp_ok hall h

theorem fresh_iff_prompt (hclock : env.Monotone time) {msg : M} {s t : State W M}
    (hs : Timed time s) (h : processMessage cfg env msg s = (.ok (), t)) :
    Fresh cfg time t ↔ Prompt cfg env time msg s := by
  have hfresh := (wp_ok (processMessage_fresh hclock hs) h).2
  rcases hfresh with ⟨hnone, hfresh⟩ | ⟨hend, hstarted, hempty⟩
  · refine ⟨fun _ w began hw => ?_, fun _ => hfresh⟩
    rw [hnone] at hw
    cases hw
  · constructor
    · intro hfresh w began hw hne hbegan
      cases hend.symm.trans hw
      rcases hfresh with hnil | ⟨began', hbegan', hyoung⟩
      · exact absurd (hempty.mp hnil) hne
      · cases (hstarted.symm.trans hbegan').symm.trans hbegan
        omega
    · intro hprompt
      by_cases hnil : s.vars.pending = []
      · exact Or.inl (hempty.mpr hnil)
      · obtain ⟨began, hbegan⟩ := hs.started hnil
        have := hprompt _ began hend hnil hbegan
        exact Or.inr ⟨began, hstarted.trans hbegan, by omega⟩

theorem message_fresh_iff (hclock : env.Monotone time) {pre post : List (Step M)} {msg : M}
    (hrun : (after cfg env start w (pre ++ .message msg :: post)).1 = .ok ()) :
    Fresh cfg time (after cfg env start w (pre ++ [.message msg])).2 ↔
      Prompt cfg env time msg (after cfg env start w pre).2 := by
  obtain ⟨s, hpre, hrest⟩ := each_append_ok_iff.mp (Prod.ext hrun rfl)
  obtain ⟨_, t, hmsg, _⟩ := bind_ok_iff.mp hrest
  have hone : each (Step.run cfg env) [.message msg] s = (.ok (), t) := each_of_ok hmsg
  have hbefore : after cfg env start w pre = (.ok (), s) := hpre
  have hboth : after cfg env start w (pre ++ [.message msg]) = (.ok (), t) :=
    each_append_ok_iff.mpr ⟨s, hpre, hone⟩
  rw [hboth, hbefore]
  exact fresh_iff_prompt hclock (after_timed hclock hbefore) hmsg

/-- In a run that returns, every message leaves no batch or one younger than twice the
maximum latency, exactly when every message that is skipped while a batch is pending is
done with by then.  Nothing else that happens in the run matters: neither how many
messages are skipped, nor the backlog, nor the idle ticks. -/
theorem processor_fresh_iff (cfg : Config) (env : Env W M) (time : W → Int)
    (hclock : env.Monotone time) (start : Int) (w : W) (steps : List (Step M))
    (hrun : (after cfg env start w steps).1 = .ok ()) :
    (∀ pre msg post, steps = pre ++ .message msg :: post →
      Fresh cfg time (after cfg env start w (pre ++ [.message msg])).2) ↔
    ∀ pre msg post, steps = pre ++ .message msg :: post →
      Prompt cfg env time msg (after cfg env start w pre).2 := by
  constructor
  · intro h pre msg post hsteps
    exact (message_fresh_iff hclock (hsteps ▸ hrun)).mp (h pre msg post hsteps)
  · intro h pre msg post hsteps
    exact (message_fresh_iff hclock (hsteps ▸ hrun)).mpr (h pre msg post hsteps)

/-- The batch is fresh throughout a run in which no message is skipped while one is pending. -/
theorem fresh_of_unskipped (hclock : env.Monotone time) {steps : List (Step M)}
    (hrun : (after cfg env start w steps).1 = .ok ())
    (hkept : ∀ pre msg post, steps = pre ++ .message msg :: post →
      (after cfg env start w pre).2.vars.pending ≠ [] →
        skipEnd cfg env msg (after cfg env start w pre).2 = none) :
    ∀ pre msg post, steps = pre ++ .message msg :: post →
      Fresh cfg time (after cfg env start w (pre ++ [.message msg])).2 := by
  intro pre msg post hsteps
  rw [message_fresh_iff hclock (hsteps ▸ hrun)]
  intro w' began hend hne _
  rw [hkept pre msg post hsteps hne] at hend
  cases hend

end Runs

/-- Message `m` arrives at time `100 * m`, the validator lets the first one through only, and
every call returns at once. -/
def Env.hundreds : Env Int Int where
  metadata m w :=
    (.ok { consumerSeq := m, streamSeq := m, numDelivered := 1, numPending := 0 }, max w (100 * m))
  ack _ := pure ()
  nak _ := pure ()
  fromMessage m _ := pure
    { operation := .str "INSERT", table := .str "user", modelVersion := .str "v1", object := none,
      diff := .null, timestamp := m, schemaValidatedPath := none }
  toJson _ := .ok ""
  process _ := pure false
  flush := pure ()
  migrateNewTable _ := pure ()
  migrateNewColumns _ _ := pure ()
  getTableVersion _ := pure (true, "v1")
  getSchema _ _ := pure
    { properties := Dict.empty, primaryKeys := [], table := "user", modelVersion := "v1" }
  setTableVersion _ _ := pure ()
  validate evt := pure (true, evt.timestamp == 1, "")
  clock w := (w, w)

theorem hundreds_monotone : Env.hundreds.Monotone id where
  refl _ := Int.le_refl _
  trans h h' := Int.le_trans h h'
  metadata _ _ := Int.le_max_left _ _
  ack _ _ := Int.le_refl _
  nak _ _ := Int.le_refl _
  fromMessage _ _ _ := Int.le_refl _
  flush _ := Int.le_refl _
  validate _ _ := Int.le_refl _
  clock _ := Int.le_refl _
  reads _ := rfl
  process _ _ := Int.le_refl _
  migrateNewTable _ _ := Int.le_refl _
  migrateNewColumns _ _ _ := Int.le_refl _
  getTableVersion _ _ := Int.le_refl _
  getSchema _ _ _ := Int.le_refl _
  setTableVersion _ _ _ := Int.le_refl _

/-- A maximum latency of ten. -/
def Config.validated : Config where
  __ := Config.pairs
  hasValidator := true

/-- One message is handed to the driver and the others are skipped. -/
theorem processor_stale :
    Env.hundreds.Monotone id ∧
      (after Config.validated Env.hundreds 0 0 [.message 1, .message 2, .message 3]).1 = .ok () ∧
      ¬ Fresh Config.validated id
        (after Config.validated Env.hundreds 0 0 [.message 1, .message 2, .message 3]).2 := by
  refine ⟨hundreds_monotone, by decide +kernel, fun hfresh => ?_⟩
  rcases hfresh with hnil | ⟨began, hbegan, hyoung⟩
  · revert hnil
    decide +kernel
  · have hstarted : (after Config.validated Env.hundreds 0 0
        [.message 1, .message 2, .message 3]).2.vars.pendingStarted = some 100 := by decide +kernel
    cases hstarted.symm.trans hbegan
    revert hyoung
    decide +kernel

theorem processor_fresh_iff_one :
    Fresh Config.validated id (after Config.validated Env.hundreds 0 0 [.message 1]).2 := by
  have hiff := processor_fresh_iff Config.validated Env.hundreds id hundreds_monotone 0 0
    [.message 1, .idle] (by decide +kernel)
  refine hiff.mpr ?_ [] 1 [.idle] rfl
  intro pre msg post hsteps w began hend
  cases pre with
  | nil =>
    cases hsteps
    cases hend
  | cons step pre =>
    cases pre with
    | nil => cases hsteps
    | cons step' pre =>
      cases pre with
      | nil => cases hsteps
      | cons _ _ => cases hsteps

end Consumer
end Eds
