import Eds.Consumer.Lifecycle

/-!
# How `process_message` fails

Most steps stand in a `try` of their own, whose handler gives the whole batch back
and raises one of the two stop signals.  `Stopped` is that ending.  What is outside
`Exception` passes every handler, as `Passed` says, and the code means it to.

`should_skip` stands in no `try`.  `Judgeable` is when it does not raise, and then
the two endings are the only ones.
-/

namespace Eds
namespace Consumer

open Effects Effects.Prog Effects.Traced Collections

variable {W M : Type} {cfg : Config} {env : Env W M}

/-! ## The endings -/

/-- `nak` was attempted on each message after the state `s`. -/
def GivenBack (s : State W M) (msgs : List M) (t : State W M) : Prop :=
  ∃ es, t.trace = s.trace ++ es ∧ ∀ m ∈ msgs, .nak m ∈ es

/-- The batch was given back and one of the two signals raised. -/
structure Stopped (s : State W M) (msgs : List M) (e : Exn) (t : State W M) : Prop where
  signal : e.isConsumerStop = true
  pending : t.vars.pending = []
  started : t.vars.pendingStarted = none
  nak : GivenBack s msgs t

/-- An exception outside `Exception` that a call raised goes through. -/
structure Passed (s : State W M) (e : Exn) (t : State W M) : Prop where
  outside : e.isException = false
  raised : ∃ es c, t.trace = s.trace ++ es ∧ .raised c e ∈ es

def Ends (s : State W M) (msgs : List M) (e : Exn) (t : State W M) : Prop :=
  Stopped s msgs e t ∨ Passed s e t

/-- Since `s` the trace has grown only, and `msgs` is the batch. -/
structure Holding (s : State W M) (msgs : List M) (t : State W M) : Prop where
  grown : s.trace <+: t.trace
  pending : t.vars.pending = msgs

/-- What is to be given back if `msg` fails: it joins the batch once its metadata is
read. -/
def atStake (env : Env W M) (msg : M) (s : State W M) : List M :=
  match env.metadata msg s.world with
  | (.ok _, _) => s.vars.pending ++ [msg]
  | (.error _, _) => s.vars.pending

/-- The event of a message that is in order and can be decoded, and the world in which
it is judged. -/
def decoded (env : Env W M) (msg : M) (s : State W M) : Option (DBChangeEvent × W) :=
  match env.metadata msg s.world with
  | (.error _, _) => none
  | (.ok md, w) =>
    if md.consumerSeq = s.vars.sequence + 1 then
      match env.fromMessage msg md.consumerSeq w with
      | (.error _, _) => none
      | (.ok evt, w') => some (evt, w')
    else none

/-- The validator has something against the event, or fails on it. -/
def rejects (env : Env W M) (evt : DBChangeEvent) (w : W) : Bool :=
  match (env.validate evt w).1 with
  | .ok (found, valid, _) => !found || !valid
  | .error e => e.isException

/-- The cutoff of the event's table can be looked up and compared with its timestamp,
and the event has a JSON text where the verdict on it is logged with one. -/
def Judgeable (cfg : Config) (env : Env W M) (evt : DBChangeEvent) (w : W) : Prop :=
  match beforeCutoff cfg evt with
  | .error _ => False
  | .ok true => True
  | .ok false => cfg.hasValidator = true → rejects env evt w = true → (env.toJson evt).isOk = true

theorem Holding.refl (s : State W M) : Holding s s.vars.pending s := ⟨List.prefix_rfl, rfl⟩

section Programs

variable {s t : State W M} {msgs : List M} {α : Type}

theorem Holding.inWorld (h : Holding s msgs t) (w : W) : Holding s msgs (t.inWorld w) :=
  ⟨h.grown, h.pending⟩

theorem Holding.push (h : Holding s msgs t) (o : Obs M) : Holding s msgs (t.push o) :=
  ⟨h.grown.trans (List.prefix_append _ _), h.pending⟩

theorem Holding.setVars (h : Holding s msgs t) {f : Batch M → Batch M}
    (hf : ∀ b, (f b).pending = b.pending) : Holding s msgs (t.setVars f) :=
  ⟨h.grown, (hf _).trans h.pending⟩

/-- The exception is recorded just before it is raised. -/
theorem Holding.passed (h : Holding s msgs t) {c : Call M} {e : Exn} (he : e.isException = false) :
    Passed s e (t.push (.raised c e)) := by
  obtain ⟨es, hes⟩ := h.grown
  refine ⟨he, es ++ [.raised c e], c, ?_, by simp⟩
  rw [push_trace, ← hes, List.append_assoc]

theorem ask_ends {c : Call M} {p : Prog Exn W α} (h : Holding s msgs t) :
    wp (ask c p) (fun a u => Holding s msgs u ∧ p t.world = (.ok a, u.world))
      (fun e u => Holding s msgs u ∧ p t.world = (.error e, u.world) ∧
        (e.isException = false → Passed s e u)) t := by
  refine wp_call (fun a w hp => ⟨h.inWorld w, hp⟩) (fun e w hp => ?_)
  exact ⟨(h.inWorld w).push _, hp, fun he => (h.inWorld w).passed he⟩

theorem now_holding (h : Holding s msgs t) :
    wp (now env) (fun _ u => Holding s msgs u) (Ends s msgs) t := by
  refine wp_outside (fun _ w _ => h.inWorld w) (fun e w hp => ?_)
  cases congrArg Prod.fst hp

/-! ### Giving back -/

theorem nakOne_given {m : M} (h : GivenBack s msgs t) :
    wp (nakOne env m) (fun _ u => GivenBack s (msgs ++ [m]) u) (fun e u => Passed s e u) t := by
  obtain ⟨es, hes, hnak⟩ := h
  have hgiven : ∀ rest, GivenBack s (msgs ++ [m])
      ({ t with trace := t.trace ++ [.nak m] ++ rest } : State W M) := by
    intro rest
    refine ⟨es ++ [.nak m] ++ rest, by simp [hes], fun x hx => ?_⟩
    rcases List.mem_append.mp hx with hx | hx
    · simp [hnak x hx]
    · rw [List.mem_singleton.mp hx]
      simp
  rw [nakOne, wp_bind, wp_note]
  refine wp_tryExcept (wp_call (fun _ w _ => ?_) (fun e w _ => ⟨fun _ => ?_, fun he => ?_⟩))
  · have hdone := hgiven []
    rw [List.append_nil] at hdone
    exact hdone
  · exact hgiven [.raised (.nak m) e]
  · refine ⟨he, es ++ [.nak m] ++ [.raised (.nak m) e], .nak m, ?_, by simp⟩
    simp [hes]

theorem nackEverything_given (h : Holding s msgs t) :
    wp (nackEverything env)
      (fun _ u => GivenBack s msgs u ∧ u.vars.pending = [] ∧ u.vars.pendingStarted = none)
      (fun e u => Passed s e u) t := by
  have hstart : GivenBack s [] t := by
    obtain ⟨es, hes⟩ := h.grown
    exact ⟨es, hes.symm, fun m hm => absurd hm List.not_mem_nil⟩
  rw [nackEverything, wp_bind, wp_read, wp_bind, h.pending]
  apply wp_post (wp_each_done (fun done u => GivenBack s done u)
    (fun done m rest u _ hu => nakOne_given hu) hstart)
  intro _ u hu
  exact ⟨hu, rfl, rfl⟩

theorem handleError_fails {err : String} {Q : α → State W M → Prop} (h : Holding s msgs t) :
    wp (handleError env err) Q (Ends s msgs) t := by
  rw [handleError, wp_bind]
  refine wp_mono (nackEverything_given h) (fun _ u hu => ?_) (fun e u hu => Or.inr hu)
  exact Or.inl ⟨rfl, hu.2.1, hu.2.2, hu.1⟩

theorem stop_fails {Q : α → State W M → Prop} (h : Holding s msgs t) :
    wp (stop env) Q (Ends s msgs) t := by
  rw [stop, wp_bind]
  refine wp_mono (nackEverything_given h) (fun _ u hu => ?_) (fun e u hu => Or.inr hu)
  exact Or.inl ⟨rfl, hu.2.1, hu.2.2, hu.1⟩

/-! ### The steps that stand in a `try` -/

theorem stage_ends {c : Call M} {p : Prog Exn W α} (h : Holding s msgs t) :
    wp (tryExcept (ask c p) fun e => handleError env e.str)
      (fun a u => Holding s msgs u ∧ p t.world = (.ok a, u.world)) (Ends s msgs) t := by
  refine wp_tryExcept (wp_mono (ask_ends h) (fun _ _ hu => hu) fun e u hu => ⟨fun _ => ?_, ?_⟩)
  · exact handleError_fails hu.1
  · intro he
    exact Or.inr (hu.2.2 he)

theorem migrate_ends {m : M} {evt : DBChangeEvent} (h : Holding s msgs t) :
    wp (migrate cfg env m evt) (fun _ u => Holding s msgs u) (Ends s msgs) t := by
  rw [migrate]
  split
  · exact wp_post (stage_ends h) fun _ _ hu => hu.1
  · exact h

theorem trim_ends {m : M} {evt : DBChangeEvent} (h : Holding s msgs t) :
    wp (trim cfg env m evt) (fun _ u => Holding s msgs u) (Ends s msgs) t := by
  rw [trim]
  split
  · exact wp_post (stage_ends h) fun _ _ hu => hu.1
  · exact h

theorem hand_ends {m : M} {seq : Int} {evt : DBChangeEvent} (h : Holding s msgs t) :
    wp (hand env m seq evt) (fun _ u => Holding s msgs u) (Ends s msgs) t := by
  rw [hand, wp_bind]
  apply wp_post (stage_ends h)
  intro _ u hu
  exact hu.1.push _

theorem skip_ends [DecidableEq M] {m : M} (h : Holding s msgs t) :
    wp (skip env m) (fun _ _ => True) (Ends s msgs) t := by
  rw [skip, wp_bind, wp_note, wp_bind, wp_note, wp_bind]
  refine wp_tryExcept (wp_mono (ask_ends ((h.push _).push _)) (fun _ _ _ => trivial)
    fun e u hu => ⟨fun _ => trivial, fun he => ?_⟩)
  exact Or.inr (hu.2.2 he)

theorem ackOne_ends {m : M} (h : Holding s msgs t) :
    wp (ackOne env m) (fun _ u => Holding s msgs u) (Ends s msgs) t := by
  rw [ackOne, wp_bind, wp_note]
  refine wp_tryExcept (wp_mono (ask_ends (h.push _)) (fun _ _ hu => hu.1)
    fun e u hu => ⟨fun _ => ?_, fun he => ?_⟩)
  · exact stop_fails hu.1
  · exact Or.inr (hu.2.2 he)

theorem flushDriver_ends (h : Holding s msgs t) :
    wp (flushDriver env) (fun _ u => Holding s msgs u) (Ends s msgs) t := by
  rw [flushDriver, wp_bind, wp_read, wp_bind, wp_handle]
  refine wp_mono (ask_ends h) (fun _ u hu => hu.1.push _) (fun e u hu => ?_)
  show wp (if e = .driverStopped then _ else _) _ _ _
  by_cases hd : e = .driverStopped
  · rw [if_pos hd]
    exact stop_fails hu.1
  · rw [if_neg hd]
    cases he : e.isException with
    | true => exact handleError_fails hu.1
    | false => exact Or.inr (hu.2.2 he)

theorem observeDurations_ends (h : Holding s msgs t) :
    wp (observeDurations env) (fun _ _ => True) (Ends s msgs) t := by
  rw [observeDurations, wp_bind, wp_read]
  cases t.vars.pendingStarted with
  | none =>
    rw [wp_bind]
    exact wp_post (now_holding h) fun _ _ _ => trivial
  | some _ =>
    rw [wp_bind]
    apply wp_post (now_holding h)
    intro _ u hu
    rw [wp_bind]
    exact wp_post (now_holding hu) fun _ _ _ => trivial

/-- The batch is given back as a whole, acknowledged messages included. -/
theorem flush_ends (h : Holding s msgs t) : wp (flush env) (fun _ _ => True) (Ends s msgs) t := by
  rw [flush, wp_bind]
  apply wp_post (now_holding h)
  intro _ t₁ h₁
  rw [wp_bind]
  apply wp_post (flushDriver_ends h₁)
  intro _ t₂ h₂
  rw [wp_bind, wp_read, wp_bind]
  apply wp_post (wp_each (f := ackOne env) (fun _ u => Holding s msgs u)
    (fun _ _ _ hu => ackOne_ends hu) t₂.vars.pending t₂ h₂)
  intro _ t₃ h₃
  rw [wp_bind]
  exact wp_post (observeDurations_ends h₃) fun _ _ _ => trivial

/-! ### After the driver -/

theorem startBatch_holding (h : Holding s msgs t) :
    wp (startBatch env) (fun _ u => Holding s msgs u) (Ends s msgs) t := by
  rw [startBatch, wp_bind, wp_read]
  cases t.vars.pendingStarted with
  | some _ => exact h
  | none =>
    rw [wp_bind]
    apply wp_post (now_holding h)
    intro began u hu
    exact hu.setVars fun _ => rfl

theorem catchingUp_ends {m : M} {began : Int} (h : Holding s msgs t) :
    wp (catchingUp cfg env m began) (fun _ u => Holding s msgs u) (Ends s msgs) t := by
  have hclock : ∀ (n : Int) (u : State W M), Holding s msgs u →
      wp (if n > cfg.maxBatch then do
            let now' ← now env
            pure (decide (now' - began < cfg.maxPendingLatency * 2))
          else pure false)
        (fun _ u => Holding s msgs u) (Ends s msgs) u := by
    intro n u hu
    split
    · rw [wp_bind]
      exact wp_post (now_holding hu) fun _ _ hv => hv
    · exact hu
  rw [catchingUp, wp_bind]
  refine wp_tryExcept ?_
  rw [wp_bind]
  refine wp_mono (ask_ends h) (fun md u hu => hclock _ _ hu.1) fun e u hu => ⟨fun _ => ?_, ?_⟩
  · exact hclock 0 _ hu.1
  · intro he
    exact Or.inr (hu.2.2 he)

theorem overdue_holding {began : Int} (h : Holding s msgs t) :
    wp (overdue cfg env began) (fun _ u => Holding s msgs u) (Ends s msgs) t := by
  rw [overdue, wp_bind, wp_read]
  split
  · exact h
  · rw [wp_bind]
    exact wp_post (now_holding h) fun _ _ hu => hu

theorem settle_ends {m : M} {wantsFlush force : Bool} (h : Holding s msgs t) :
    wp (settle cfg env m wantsFlush force) (fun _ _ => True) (Ends s msgs) t := by
  rw [settle, wp_bind, wp_read]
  split
  · exact flush_ends h
  · rw [wp_bind]
    apply wp_post (startBatch_holding h)
    intro began t₁ h₁
    rw [wp_bind]
    apply wp_post (catchingUp_ends h₁)
    intro bypass t₂ h₂
    cases bypass with
    | true => trivial
    | false =>
      simp only [Bool.false_eq_true, if_false]
      rw [wp_bind]
      apply wp_post (overdue_holding h₂)
      intro due t₃ h₃
      cases due with
      | false => trivial
      | true =>
        simp only [if_true]
        rw [wp_bind]
        apply wp_post (now_holding h₃)
        intro _ t₄ h₄
        exact flush_ends h₄

end Programs

/-! ## The step that stands in no `try` -/

theorem logged_of_json {evt : DBChangeEvent} {text : String} (h : env.toJson evt = .ok text)
    (skip : Bool) (w : W) : logged env evt skip w = (.ok (skip, evt), w) := by
  rw [logged, h]
  rfl

theorem logged_of_error {evt : DBChangeEvent} {msg : String} (h : env.toJson evt = .error msg)
    (skip : Bool) (w : W) : logged env evt skip w = (.error (.valueError msg), w) := by
  rw [logged, h]
  rfl

section Judging

variable {evt : DBChangeEvent} {w : W} (hcut : beforeCutoff cfg evt = .ok false)
  (hval : cfg.hasValidator = true)

include hcut hval

/-- A verdict against the event is logged with its JSON. -/
theorem shouldSkip_rejects (h : rejects env evt w = true) :
    ∃ w', shouldSkip cfg env evt w = logged env evt true w' := by
  rw [rejects] at h
  rw [shouldSkip, hcut]
  simp only [hval, if_true]
  rcases hv : env.validate evt w with ⟨r, w'⟩
  rw [hv] at h
  refine ⟨w', ?_⟩
  cases r with
  | error e =>
    apply bind_of_ok (a := none)
    rw [tryExcept, handle, bind_of_error hv]
    show (if e.isException = true then pure none else raise e :
      Prog Exn W (Option (Bool × Bool × String))) w' = _
    rw [if_pos h]
    rfl
  | ok verdict =>
    obtain ⟨found, valid, path⟩ := verdict
    have hsome : tryExcept (do let v ← env.validate evt; pure (some v)) (fun _ => pure none) w =
        (.ok (some (found, valid, path)), w') := by
      rw [tryExcept, handle, bind_of_ok hv]
      rfl
    rw [bind_of_ok hsome]
    simp only [if_pos (show (!found || !valid) = true from h)]

/-- Without one, only what is outside `Exception` leaves the validator. -/
theorem shouldSkip_accepts (h : rejects env evt w = false) :
    wp (shouldSkip cfg env evt) (fun _ _ => True) (fun e _ => e.isException = false) w := by
  rw [rejects] at h
  rw [shouldSkip, hcut]
  simp only [hval, if_true]
  rcases hv : env.validate evt w with ⟨r, w'⟩
  rw [hv] at h
  rw [wp_bind]
  refine wp_tryExcept ?_
  rw [wp_bind]
  simp only [wp, hv]
  cases r with
  | error e => exact ⟨fun he => absurd (he.symm.trans h) (by decide), fun he => he⟩
  | ok verdict =>
    obtain ⟨found, valid, path⟩ := verdict
    show wp (if (!found || !valid) = true then _ else _) _ _ w'
    rw [if_neg (ne_true_of_eq_false h)]
    split <;> trivial

end Judging

theorem shouldSkip_judgeable {evt : DBChangeEvent} {w : W} (h : Judgeable cfg env evt w) :
    wp (shouldSkip cfg env evt) (fun _ _ => True) (fun e _ => e.isException = false) w := by
  rw [Judgeable] at h
  cases hcut : beforeCutoff cfg evt with
  | error e =>
    rw [hcut] at h
    exact h.elim
  | ok before =>
    rw [hcut] at h
    cases before with
    | true =>
      rw [shouldSkip, hcut]
      trivial
    | false =>
      cases hval : cfg.hasValidator with
      | false =>
        rw [shouldSkip, hcut]
        simp only [hval]
        trivial
      | true =>
        cases hrejects : rejects env evt w with
        | false => exact shouldSkip_accepts hcut hval hrejects
        | true =>
          obtain ⟨w', hw'⟩ := shouldSkip_rejects hcut hval hrejects
          have hjson := h hval hrejects
          rw [wp, hw']
          cases htext : env.toJson evt with
          | ok text =>
            rw [logged_of_json htext]
            trivial
          | error msg =>
            rw [htext] at hjson
            cases hjson

theorem shouldSkip_unjudgeable {evt : DBChangeEvent} {w : W} (h : ¬ Judgeable cfg env evt w) :
    ∃ e w', shouldSkip cfg env evt w = (.error e, w') ∧ e.isException = true := by
  rw [Judgeable] at h
  cases hcut : beforeCutoff cfg evt with
  | error e =>
    obtain ⟨msg, rfl⟩ := beforeCutoff_raises hcut
    refine ⟨.exception msg, w, ?_, rfl⟩
    rw [shouldSkip, hcut]
    rfl
  | ok before =>
    rw [hcut] at h
    cases before with
    | true => exact absurd trivial h
    | false =>
      simp only [Classical.not_imp] at h
      obtain ⟨hval, hrejects, hjson⟩ := h
      obtain ⟨w', hw'⟩ := shouldSkip_rejects hcut hval hrejects
      cases htext : env.toJson evt with
      | ok text =>
        rw [htext] at hjson
        exact absurd rfl hjson
      | error msg =>
        exact ⟨.valueError msg, w', hw'.trans (logged_of_error htext true w'), rfl⟩

/-! ## The whole call -/

section Message

variable {msg : M} {s : State W M}

theorem checkSequence_ends {seq : Int} {msgs : List M} {t : State W M} (h : Holding s msgs t) :
    wp (checkSequence env msg seq)
      (fun _ u => Holding s msgs u ∧ u.world = t.world ∧
        u.vars.pendingStarted = t.vars.pendingStarted ∧ seq = t.vars.sequence + 1)
      (Ends s msgs) t := by
  rw [checkSequence, wp_bind, wp_read]
  by_cases hseq : seq = t.vars.sequence + 1
  · rw [if_pos hseq]
    exact ⟨h.setVars fun _ => rfl, rfl, rfl, hseq⟩
  · rw [if_neg hseq, wp_bind, wp_note]
    exact handleError_fails (h.push _)

/-- The message has joined the batch and is in order. -/
theorem receive_ends :
    wp (receive env msg)
      (fun seq u => Holding s (atStake env msg s) u ∧
        u.vars.pendingStarted = s.vars.pendingStarted ∧ seq = s.vars.sequence + 1 ∧
        ∃ md, env.metadata msg s.world = (.ok md, u.world) ∧ md.consumerSeq = seq)
      (Ends s (atStake env msg s)) s := by
  have htook : Holding s s.vars.pending (s.push (.took msg)) := (Holding.refl s).push _
  rw [receive, wp_bind, wp_note, wp_bind]
  refine wp_tryExcept (wp_call (fun md w hmd => ?_) (fun e w hmd => ?_))
  · have hmd' : env.metadata msg s.world = (.ok md, w) := hmd
    have hstake : atStake env msg s = s.vars.pending ++ [msg] := by rw [atStake, hmd']
    rw [wp_bind, wp_assign, wp_bind, hstake]
    have hjoined : Holding s (s.vars.pending ++ [msg]) (((s.push (.took msg)).inWorld w).setVars
        fun b => { b with pending := b.pending ++ [msg] }) := ⟨htook.grown, rfl⟩
    apply wp_post (checkSequence_ends hjoined)
    intro _ u hu
    obtain ⟨hholding, hworld, hstarted, hseq⟩ := hu
    refine ⟨hholding, hstarted, hseq, md, ?_, rfl⟩
    rw [hworld]
    exact hmd'
  · have hmd' : env.metadata msg s.world = (.error e, w) := hmd
    have hstake : atStake env msg s = s.vars.pending := by rw [atStake, hmd']
    rw [hstake]
    refine ⟨fun _ => handleError_fails ((htook.inWorld w).push _), fun he => ?_⟩
    exact Or.inr ((htook.inWorld w).passed he)

theorem decode_ends {seq : Int} {msgs : List M} {t : State W M} (h : Holding s msgs t) :
    wp (decode env msg seq)
      (fun evt u => Holding s msgs u ∧ env.fromMessage msg seq t.world = (.ok evt, u.world))
      (Ends s msgs) t := stage_ends h

theorem processMessage_ends [DecidableEq M]
    (hjudge : ∀ evt w, decoded env msg s = some (evt, w) → Judgeable cfg env evt w) :
    wp (processMessage cfg env msg) (fun _ _ => True) (Ends s (atStake env msg s)) s := by
  rw [processMessage, wp_bind]
  apply wp_post receive_ends
  intro seq t₁ hgiven
  obtain ⟨h₁, _, hseq, md, hmd, hnumber⟩ := hgiven
  rw [wp_bind]
  apply wp_post (decode_ends h₁)
  intro evt t₂ hgiven
  obtain ⟨h₂, hevt⟩ := hgiven
  have hdecoded : decoded env msg s = some (evt, t₂.world) := by
    simp only [decoded, hmd, hnumber, hseq, if_true]
    rw [← hseq, hevt]
  rw [wp_bind]
  have hskip := shouldSkip_judgeable (hjudge evt _ hdecoded)
  refine wp_mono (ask_ends h₂) (fun verdict t₃ h₃ => ?_)
    (fun e t₃ h₃ => Or.inr (h₃.2.2 (wp_error hskip h₃.2.1)))
  obtain ⟨skipIt, evt⟩ := verdict
  cases skipIt with
  | true => exact skip_ends h₃.1
  | false =>
    simp only [Bool.false_eq_true, if_false]
    rw [wp_bind]
    apply wp_post (migrate_ends h₃.1)
    intro migrated t₄ h₄
    rw [wp_bind]
    apply wp_post (trim_ends h₄)
    intro evt t₅ h₅
    rw [wp_bind]
    apply wp_post (hand_ends h₅)
    intro wantsFlush t₆ h₆
    exact settle_ends h₆

theorem receive_returns {md : MsgMetadata} {w : W} (hmd : env.metadata msg s.world = (.ok md, w))
    (hseq : md.consumerSeq = s.vars.sequence + 1) :
    wp (receive env msg) (fun seq u => seq = md.consumerSeq ∧ u.world = w) (fun _ _ => False) s := by
  rw [receive, wp_bind, wp_note, wp_bind]
  refine wp_tryExcept (wp_call (fun md' w' h => ?_) (fun e w' h => ?_))
  · cases hmd.symm.trans h
    rw [wp_bind, wp_assign, wp_bind, checkSequence, wp_bind, wp_read]
    show wp (if md.consumerSeq = s.vars.sequence + 1 then _ else _) _ _ _
    rw [if_pos hseq]
    exact ⟨rfl, rfl⟩
  · cases hmd.symm.trans h

theorem decode_returns {seq : Int} {evt : DBChangeEvent} {t : State W M} {w : W}
    (hevt : env.fromMessage msg seq t.world = (.ok evt, w)) :
    wp (decode env msg seq) (fun evt' u => evt' = evt ∧ u.world = w) (fun _ _ => False) t := by
  refine wp_tryExcept (wp_call (fun evt' w' h => ?_) (fun e w' h => ?_))
  · cases hevt.symm.trans h
    exact ⟨rfl, rfl⟩
  · cases hevt.symm.trans h

/-- The exception of `should_skip` leaves the call as it is. -/
theorem processMessage_unjudgeable [DecidableEq M] {evt : DBChangeEvent} {w : W}
    (hdecoded : decoded env msg s = some (evt, w)) {e : Exn} {w' : W}
    (hskip : shouldSkip cfg env evt w = (.error e, w')) :
    ∃ t, processMessage cfg env msg s = (.error e, t) := by
  have hraises : wp (processMessage cfg env msg) (fun _ _ => False) (fun e' _ => e' = e) s := by
    rw [decoded] at hdecoded
    split at hdecoded
    · cases hdecoded
    · next md w₁ hmd =>
      split at hdecoded
      · next hseq =>
        split at hdecoded
        · cases hdecoded
        · next evt' w₂ hevt =>
          cases hdecoded
          rw [processMessage, wp_bind]
          refine wp_mono (receive_returns hmd hseq) (fun seq t₁ h₁ => ?_) (fun _ _ h => h.elim)
          obtain ⟨rfl, rfl⟩ := h₁
          rw [wp_bind]
          refine wp_mono (decode_returns hevt) (fun evt t₂ h₂ => ?_) (fun _ _ h => h.elim)
          obtain ⟨rfl, rfl⟩ := h₂
          rw [wp_bind]
          refine wp_call (fun verdict w h => ?_) (fun e' w h => ?_)
          · cases hskip.symm.trans h
          · cases hskip.symm.trans h
            rfl
      · cases hdecoded
  rcases wp_elim hraises with ⟨_, _, h⟩ | ⟨e', he', heq⟩
  · exact h.elim
  · rw [heq] at he'
    exact ⟨_, Prod.ext he' rfl⟩

end Message

/-- Whatever the driver, the registry, the validator and the message do, a call that
raises has given back the whole batch, with the message in it once its metadata is
read, and raises a stop signal, unless a call raised outside `Exception`: exactly when
every event that can be decoded can be judged. -/
theorem processMessage_fails_iff [DecidableEq M] (cfg : Config) (env : Env W M) (msg : M)
    (s : State W M) :
    (∀ e t, processMessage cfg env msg s = (.error e, t) →
      Stopped s (atStake env msg s) e t ∨ Passed s e t) ↔
    ∀ evt w, decoded env msg s = some (evt, w) → Judgeable cfg env evt w := by
  constructor
  · intro hall evt w hdecoded
    by_contra hjudge
    obtain ⟨e, w', hskip, he⟩ := shouldSkip_unjudgeable hjudge
    obtain ⟨t, ht⟩ := processMessage_unjudgeable hdecoded hskip
    rcases hall e t ht with h | h
    · have hstop := wp_error (shouldSkip_raises evt w) hskip
      rw [h.signal] at hstop
      cases hstop
    · rw [h.outside] at he
      cases he
  · intro hjudge e t ht
    exact wp_error (processMessage_ends hjudge) ht

/-- Every call returns, and each event bears a timestamp past the year 9999. -/
def Env.farFuture : Env Unit Int where
  __ := Env.obliging
  fromMessage _ _ := pure
    { operation := .str "INSERT", table := .str "user", modelVersion := .str "v1", object := none,
      diff := .null, timestamp := 10 ^ 20, schemaValidatedPath := none }

/-- The table of the event was exported at the epoch. -/
def Config.exported : Config where
  __ := Config.pairs
  tableTimestamps := some (Dict.ofList [("user", some 0)])

/-- The timestamp is converted outside any `try`: neither signal is raised, and the
message stays in the batch. -/
theorem processMessage_farFuture :
    let run := processMessage Config.exported Env.farFuture 1 ⟨⟨[], none, 0⟩, (), []⟩
    run.1 = .error (.exception "date value out of range") ∧ run.2.vars.pending = [1] ∧
      ¬ ∀ e t, run = (.error e, t) →
        Stopped (⟨⟨[], none, 0⟩, (), []⟩ : State Unit Int) [1] e t := by
  intro run
  have herror : run.1 = .error (.exception "date value out of range") := by decide +kernel
  refine ⟨herror, by decide +kernel, fun hall => ?_⟩
  have hfailed := hall _ run.2 (Prod.ext herror rfl)
  cases hfailed.signal

end Consumer
end Eds
