import Eds.Consumer.Consumer

/-!
# Who learns that the drain task has ended

The control loop waits for the fatal event and for the calls of `stop` it makes
itself.  The drain task ends with one of the two in most cases.  It ends with
neither when the processor raises its clean stop, after a failed ack or a stopped
driver, and when an exception gets past the processor: one raised by `should_skip`,
or one that is no `Exception`.
-/

namespace Eds
namespace Consumer

open Effects Effects.Prog Effects.Traced

variable {W M : Type}

/-- A failure that ends the drain task without a report. -/
def Obs.silent : Obs M → Bool
  | .raised (.ackFlushed _) _ => true
  | .raised (.shouldSkip _) _ => true
  | .raised (.flush _) e => decide (e = .driverStopped) || !e.isException
  | .raised _ e => !e.isException
  | .took _ | .skipped _ | .processed _ _ _ | .flushed | .ack _ | .nak _ => false

/-- The exception is reported, or one of the silent failures is behind it. -/
def Explained (e : Exn) (t : List (Obs M)) : Prop :=
  (∃ msg, e = .consumerFatal msg) ∨ ∃ o ∈ t, o.silent = true

theorem Explained.append {e : Exn} {t : List (Obs M)} (h : Explained e t) (t' : List (Obs M)) :
    Explained e (t ++ t') :=
  h.imp id fun ⟨o, hmem, ho⟩ => ⟨o, List.mem_append_left t' hmem, ho⟩

theorem Explained.fatal {msg : String} {t : List (Obs M)} :
    Explained (.consumerFatal msg) t :=
  Or.inl ⟨msg, rfl⟩

theorem Explained.last {e : Exn} {t : List (Obs M)} {o : Obs M} (ho : o.silent = true) :
    Explained e (t ++ [o]) :=
  Or.inr ⟨o, List.mem_append_right t (List.mem_singleton_self o), ho⟩

theorem silent_crash {c : Call M} {e : Exn} (he : e.isException = false) :
    (Obs.raised c e).silent = true := by
  cases c <;> simp [Obs.silent, he]

/-- The exception a phase carries or is about to raise. -/
def Phase.exn : Phase M → Option Exn
  | .nacking _ next => next
  | .raised e => some e
  | .idle | .taken _ | .held _ _ | .checked _ _ | .skipping _ | .acking _ => none

def ExplainedAt (x : Phase M × State W M) : Prop :=
  ∀ e, x.1.exn = some e → Explained e x.2.trace

section Processor

variable [DecidableEq M] {cfg : Config} {env : Env W M}

theorem explained_micro {x y : Phase M × State W M} (h : Micro cfg env x y)
    (hx : ExplainedAt x) : ExplainedAt y := by
  intro e he
  cases h with
  | metadata _ => cases he
  | metadataRaised _ _ => cases he; exact .fatal
  | outOfOrder _ _ => cases he; exact .fatal
  | inOrder _ => cases he
  | aside _ => exact hx e he
  | stageRaised _ _ _ => cases he; exact .fatal
  | skipRaised _ _ => exact .last rfl
  | skipped => cases he
  | skipAcked _ _ => cases he
  | skipAckCrashed he' _ => exact .last (silent_crash he')
  | processed _ => cases he
  | processRaised _ _ => cases he; exact .fatal
  | catchUpRaised _ _ => cases he
  | started _ => cases he
  | flushed _ => cases he
  | @flushRaised s e' w _ _ =>
    cases he
    by_cases hstop : e' = .driverStopped
    · exact .last (by simp [Obs.silent, hstop])
    · rw [stopSignal, if_neg hstop]
      exact .fatal
  | acked _ => cases he
  | ackRaised _ _ => exact .last rfl
  | ackCrashed _ _ => exact .last rfl
  | flushDone => cases he
  | naked _ _ =>
    have hx := hx e he
    simp only [pushOpt_trace, inWorld_trace, push_trace]
    exact (hx.append _).append _
  | nakCrashed he' _ => exact .last (silent_crash he')
  | @nakDone next s =>
    have hnext : next = some e := by
      cases next with
      | none => cases he
      | some e' => exact he
    exact hx e hnext
  | crashed _ he' _ => exact .last (silent_crash he')

/-- A silent failure is on its way out of the processor. -/
def SilentRaises (x : Phase M × State W M) : Prop :=
  ∀ o ∈ x.2.trace, o.silent = true → x.1.exn.isSome = true

theorem silentRaises_micro {x y : Phase M × State W M} (h : Micro cfg env x y)
    (hx : SilentRaises x) : SilentRaises y := by
  have hsnoc : ∀ {o o' : Obs M} {t : List (Obs M)}, o ∈ t ++ [o'] → o.silent = true →
      o'.silent = false → o ∈ t := by
    intro o o' t hmem ho ho'
    rcases List.mem_append.mp hmem with hmem | hmem
    · exact hmem
    · rw [List.mem_singleton.mp hmem, ho'] at ho
      cases ho
  intro o hmem ho
  cases h with
  | metadata _ => exact hx o hmem ho
  | metadataRaised _ _ => rfl
  | outOfOrder _ _ => rfl
  | inOrder _ => exact hx o hmem ho
  | aside _ => exact hx o hmem ho
  | stageRaised _ _ _ => rfl
  | skipRaised _ _ => rfl
  | skipped => exact hx o (hsnoc hmem ho rfl) ho
  | @skipAcked m s r w hr _ =>
    cases r with
    | none => exact hx o (hsnoc hmem ho rfl) ho
    | some e => exact hx o (hsnoc (hsnoc hmem ho (by simp [Obs.silent, hr e rfl])) ho rfl) ho
  | skipAckCrashed _ _ => rfl
  | processed _ => exact hx o (hsnoc hmem ho rfl) ho
  | processRaised _ _ => rfl
  | catchUpRaised he _ => exact hx o (hsnoc hmem ho (by simp [Obs.silent, he])) ho
  | started _ => exact hx o hmem ho
  | flushed _ => exact hx o (hsnoc hmem ho rfl) ho
  | flushRaised _ _ => rfl
  | acked _ => exact hx o (hsnoc hmem ho rfl) ho
  | ackRaised _ _ => rfl
  | ackCrashed _ _ => rfl
  | flushDone => exact hx o hmem ho
  | @naked m rest next s r w hr _ =>
    cases r with
    | none => exact hx o (hsnoc hmem ho rfl) ho
    | some e => exact hx o (hsnoc (hsnoc hmem ho (by simp [Obs.silent, hr e rfl])) ho rfl) ho
  | nakCrashed _ _ => rfl
  | @nakDone next s =>
    have hnext : next.isSome = true := hx o hmem ho
    cases next with
    | none => cases hnext
    | some e => rfl
  | crashed _ _ _ => rfl

/-- Nothing has failed silently. -/
def Loud (t : List (Obs M)) : Prop := ∀ o ∈ t, o.silent = false

theorem loud_of_path {ph : Phase M} {s t : State W M} (h : Path cfg env (ph, s) (.idle, t))
    (hs : Loud s.trace) : Loud t.trace := by
  have hstart : SilentRaises (ph, s) := by
    intro o hmem ho
    rw [hs o hmem] at ho
    cases ho
  intro o hmem
  have hend := path_invariant silentRaises_micro h hstart o hmem
  cases hsilent : o.silent with
  | false => rfl
  | true => cases hend hsilent

theorem processMessage_explained {m : M} {s : State W M} :
    wp (processMessage cfg env m) (fun _ _ => True) (fun e t => Explained e t.trace) s := by
  have hpath : Path cfg env (.taken m, s.push (.took m)) (.taken m, s.push (.took m)) := .refl
  refine wp_mono (processMessage_path hpath) (fun _ _ _ => trivial) (fun e t ht => ?_)
  exact path_invariant explained_micro ht nofun e rfl

theorem processMessage_loud {m : M} {s : State W M} (hs : Loud s.trace) :
    wp (processMessage cfg env m) (fun _ t => Loud t.trace) (fun _ _ => True) s := by
  have hpath : Path cfg env (.taken m, s.push (.took m)) (.taken m, s.push (.took m)) := .refl
  have htook : Loud (s.push (.took m)).trace := by
    intro o hmem
    rcases List.mem_append.mp hmem with hmem | hmem
    · exact hs o hmem
    · rw [List.mem_singleton.mp hmem]
      rfl
  exact wp_mono (processMessage_path hpath) (fun _ t ht => loud_of_path ht htook)
    (fun _ _ _ => trivial)

theorem onIdle_loud {s : State W M} (hs : Loud s.trace) :
    wp (onIdle cfg env) (fun _ t => Loud t.trace) (fun _ _ => True) s := by
  have hpath : Path cfg env (.idle, s) (.idle, s) := .refl
  exact wp_mono (onIdle_path hpath) (fun _ t ht => loud_of_path ht hs) (fun _ _ _ => trivial)

theorem onIdle_explained {s : State W M} :
    wp (onIdle cfg env) (fun _ _ => True) (fun e t => Explained e t.trace) s := by
  have hpath : Path cfg env (.idle, s) (.idle, s) := .refl
  refine wp_mono (onIdle_path hpath) (fun _ _ _ => trivial) (fun e t ht => ?_)
  exact path_invariant explained_micro ht nofun e rfl

end Processor

/-! ## The drain task -/

/-- An ended task was reported or has failed silently. -/
def Reported (b : Bufferer W M) : Prop :=
  b.pc.running = false → b.fatal.isSome = true ∨ ∃ o ∈ b.processor.trace, o.silent = true

section Drain

variable {cfg : Config} {env : Env W M} {b : Bufferer W M}

theorem reported_guardedCall {next : Pc} {p : Proc W M Unit} (hnext : next.running = true)
    (hp : wp p (fun _ _ => True) (fun e t => Explained e t.trace) b.processor) :
    Reported (b.guardedCall next p) := by
  intro hend
  rcases wp_elim hp with ⟨_, hr, _⟩ | ⟨e, hr, hexplained⟩
  · simp only [Bufferer.guardedCall, hr, Bufferer.afterCall] at hend
    rw [hnext] at hend
    cases hend
  · rcases hexplained with ⟨msg, rfl⟩ | hsilent
    · refine Or.inl ?_
      simp only [Bufferer.guardedCall, hr, Bufferer.reported]
      rfl
    · exact Or.inr hsilent

theorem loud_guardedCall {next : Pc} {p : Proc W M Unit}
    (hp : wp p (fun _ t => Loud t.trace) (fun _ _ => True) b.processor)
    (hrun : (b.guardedCall next p).pc.running = true) : Loud (b.guardedCall next p).processor.trace := by
  rcases wp_elim hp with ⟨_, _, hloud⟩ | ⟨e, hr, _⟩
  · exact hloud
  · simp only [Bufferer.guardedCall, hr, Bufferer.afterCall] at hrun
    split at hrun <;> cases hrun

variable [DecidableEq M]

theorem loud_turn (h : b.pc.running = true → Loud b.processor.trace) :
    (b.turn cfg env).pc.running = true → Loud (b.turn cfg env).processor.trace := by
  have hhandle : ∀ {item : Option M} {rest : List (Option M)}, b.pc.running = true →
      (Bufferer.handle cfg env { b with queue := rest } item).pc.running = true →
      Loud (Bufferer.handle cfg env { b with queue := rest } item).processor.trace := by
    intro item rest hb hrun
    cases item with
    | none =>
      rw [show (Bufferer.handle cfg env { b with queue := rest } none).pc.running = false from
        Bufferer.afterCall_returned_running _] at hrun
      cases hrun
    | some m => exact loud_guardedCall (processMessage_loud (h hb)) hrun
  unfold Bufferer.turn
  split
  · next hpc hq => exact hhandle (by rw [hpc]; rfl)
  · next hpc hq =>
    split
    · intro hrun
      rw [Bufferer.giveUp_running] at hrun
      cases hrun
    · exact loud_guardedCall (onIdle_loud (h (by rw [hpc]; rfl)))
  · next hpc hq => exact hhandle (by rw [hpc]; rfl)
  · exact h
  · exact h
  · exact h

/-- A task that is running has seen no silent failure. -/
theorem loud_step (h : b.pc.running = true → Loud b.processor.trace) (mv : Bufferer.Move M)
    (hrun : (b.step cfg env mv).pc.running = true) :
    Loud (b.step cfg env mv).processor.trace := by
  cases mv with
  | turn => exact loud_turn h hrun
  | timeout =>
    by_cases hpc : b.pc = .waiting
    · have hstep : b.step cfg env .timeout = { b with pc := .draining } := if_pos hpc
      rw [hstep]
      exact h (by rw [hpc]; rfl)
    · have hstep : b.step cfg env .timeout = b := if_neg hpc
      rw [hstep] at hrun ⊢
      exact h hrun
  | put item => exact h hrun
  | setCancel => exact h hrun
  | kill =>
    by_cases hb : b.pc.running = true
    · have hstep : b.step cfg env .kill = { b with pc := .crashed (.base "CancelledError") } :=
        if_pos hb
      rw [hstep] at hrun
      cases hrun
    · have hstep : b.step cfg env .kill = b := if_neg hb
      rw [hstep] at hrun
      exact absurd hrun hb

/-- Without a sentinel and without the cancel event a turn ends the task with a
report or after a silent failure. -/
theorem reported_turn (hqueue : none ∉ b.queue) (hcancel : b.cancel = false) (h : Reported b) :
    Reported (b.turn cfg env) := by
  have hhandle : ∀ {item : Option M} {rest : List (Option M)}, b.queue = item :: rest →
      Reported (Bufferer.handle cfg env { b with queue := rest } item) := by
    intro item rest hq
    cases item with
    | none => exact absurd (hq ▸ List.mem_cons_self) hqueue
    | some m => exact reported_guardedCall rfl processMessage_explained
  unfold Bufferer.turn
  split
  · next hpc hq => exact hhandle hq
  · next hpc hq =>
    rw [hcancel, if_neg Bool.false_ne_true]
    exact reported_guardedCall rfl onIdle_explained
  · next hpc hq => exact hhandle hq
  · exact h
  · exact h
  · exact h

theorem turn_queue {item : Option M} (h : item ∈ (b.turn cfg env).queue) : item ∈ b.queue := by
  have hhandle : ∀ {first : Option M} {rest : List (Option M)},
      (Bufferer.handle cfg env { b with queue := rest } first).queue = rest := by
    intro first rest
    cases first <;> rfl
  unfold Bufferer.turn at h
  split at h
  · next hpc hq =>
    rw [hhandle] at h
    rw [hq]
    exact List.mem_cons_of_mem _ h
  · next hpc hq =>
    split at h
    · exact h
    · exact h
  · next hpc hq =>
    rw [hhandle] at h
    rw [hq]
    exact List.mem_cons_of_mem _ h
  · exact h
  · exact h
  · exact h

theorem turn_cancel : (b.turn cfg env).cancel = b.cancel := by
  have hhandle : ∀ {first : Option M} {rest : List (Option M)},
      (Bufferer.handle cfg env { b with queue := rest } first).cancel = b.cancel := by
    intro first rest
    cases first <;> rfl
  unfold Bufferer.turn
  split
  · exact hhandle
  · split <;> rfl
  · exact hhandle
  · rfl
  · rfl
  · rfl

end Drain

/-! ## The consumer -/

/-- As long as `stop` has not been entered nobody has asked the drain task to end,
and its end is reported or silent. -/
def Watched (c : ConsumerState W M) : Prop :=
  c.stopping = .no → none ∉ c.drain.queue ∧ c.drain.cancel = false ∧ Reported c.drain

section Runs

variable [DecidableEq M] {cfg : Config} {env : Env W M} {seqOf : M → Int} {maxsize : Int}
  {c c' : ConsumerState W M}

theorem watched_transition {a : Act M} (h : ConsumerState.Transition cfg env seqOf c a c')
    (hc : Watched c) : Watched c' := by
  intro hno
  cases h with
  | turn =>
    obtain ⟨hqueue, hcancel, hreported⟩ := hc hno
    exact ⟨fun hmem => hqueue (turn_queue hmem), turn_cancel.trans hcancel,
      reported_turn hqueue hcancel hreported⟩
  | timeout =>
    obtain ⟨hqueue, hcancel, hreported⟩ := hc hno
    by_cases hpc : c.drain.pc = .waiting
    · have hstep : c.drain.step cfg env .timeout = { c.drain with pc := .draining } := if_pos hpc
      rw [hstep]
      exact ⟨hqueue, hcancel, nofun⟩
    · have hstep : c.drain.step cfg env .timeout = c.drain := if_neg hpc
      rw [hstep]
      exact ⟨hqueue, hcancel, hreported⟩
  | put h =>
    obtain ⟨hqueue, hcancel, hreported⟩ := hc hno
    refine ⟨?_, hcancel, hreported⟩
    show none ∉ c.drain.queue ++ [some _]
    simp [hqueue]
  | stop _ => cases hno
  | quiesce _ => cases hno
  | sentinel _ => cases hno
  | cancel _ => cases hno
  | await _ => cases hno
  | close _ => cases hno
  | kill _ => cases hno
  | _ => exact hc hno

theorem watched_exec (acts : List (Act M)) (hc : Watched c) :
    Watched (c.exec cfg env seqOf maxsize acts) := by
  induction acts generalizing c with
  | nil => exact hc
  | cons a rest ih => exact ih (watched_transition (ConsumerState.step_transition a) hc)

theorem loud_exec {b : Bufferer W M} (moves : List (Bufferer.Move M))
    (h : b.pc.running = true → Loud b.processor.trace)
    (hrun : (b.exec cfg env moves).pc.running = true) :
    Loud (b.exec cfg env moves).processor.trace := by
  induction moves generalizing b with
  | nil => exact h hrun
  | cons mv rest ih => exact ih (loud_step h mv) hrun

/-- In every run without a silent failure an ended drain task has a call of `stop`
or the fatal event beside it.  And a silent failure leaves the task ended: unless
`stop` has been entered or an error reported, nobody learns of it. -/
theorem ended_drain_is_signalled (cfg : Config) (env : Env W M) (seqOf : M → Int) (maxsize : Int)
    (sequence : Int) (w : W) (acts : List (Act M)) :
    let c := (ConsumerState.started sequence w).exec cfg env seqOf maxsize acts
    ((∀ o ∈ c.drain.processor.trace, o.silent = false) → c.drain.pc.running = false →
      c.stopping ≠ .no ∨ c.drain.fatal.isSome = true) ∧
    ((∃ o ∈ c.drain.processor.trace, o.silent = true) → c.stopping = .no → c.drain.fatal = none →
      c.drain.pc.running = false) := by
  intro c
  constructor
  · intro hloud hended
    by_cases hno : c.stopping = .no
    · have hstart : Watched (ConsumerState.started sequence w : ConsumerState W M) := by
        intro _
        exact ⟨List.not_mem_nil, rfl, nofun⟩
      have hwatched : Watched c := watched_exec acts hstart
      rcases (hwatched hno).2.2 hended with hfatal | ⟨o, hmem, ho⟩
      · exact Or.inr hfatal
      · rw [hloud o hmem] at ho
        cases ho
    · exact Or.inl hno
  · intro h _ _
    obtain ⟨o, hmem, ho⟩ := h
    obtain ⟨moves, hmoves⟩ : ∃ moves, c.drain =
        (Bufferer.initial [] false sequence w).exec cfg env moves :=
      ConsumerState.exec_drain (ConsumerState.started sequence w) acts
    cases hrun : c.drain.pc.running with
    | false => rfl
    | true =>
      rw [hmoves] at hrun hmem
      rw [loud_exec moves (fun _ _ hnil => absurd hnil List.not_mem_nil) hrun o hmem] at ho
      cases ho

end Runs

/-- Every ack is refused. -/
def Env.ackless : Env Unit Int :=
  { Env.obliging with ack := fun _ => raise (.exception "nats: timeout") }

/-- Two messages are delivered, queued and taken. -/
def twoMessages : List (Act Int) :=
  [.deliver 1, .deliver 2, .fetched 2, .put, .put, .turn, .turn]

/-- A batch of two is flushed, its first ack fails, and the consumer goes on without
a drain task. -/
theorem ended_drain_unsignalled :
    let c := (ConsumerState.started 0 ()).exec Config.pairs Env.ackless id 100 twoMessages
    c.drain.pc.running = false ∧ ¬ (c.stopping ≠ .no ∨ c.drain.fatal.isSome = true) := by
  decide +kernel

end Consumer
end Eds
