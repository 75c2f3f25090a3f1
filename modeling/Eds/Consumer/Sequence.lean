import Eds.Consumer.Consumer
import Mathlib.Data.List.ReduceOption

/-!
# The sequence numbers that enter the processor

The server numbers its deliveries consecutively, and the processor ends the consumer
at the first number it does not expect.  What lies between them keeps the order, so
the numbers stay consecutive as long as no message is lost on the way: by cancelling
the fetch loop or unsubscribing while messages are held, by a fetch that raises with
messages in hand, or by a delivery without a subscription.
-/

namespace Eds
namespace Consumer

open Effects Effects.Prog Effects.Traced

variable {W M : Type}

/-- The numbers follow on `start`. -/
def Consecutive (start : Int) : List Int → Prop
  | [] => True
  | n :: rest => n = start + 1 ∧ Consecutive n rest

theorem consecutive_append {start : Int} {l l' : List Int} :
    Consecutive start (l ++ l') ↔ Consecutive start l ∧ Consecutive (start + l.length) l' := by
  induction l generalizing start with
  | nil => simp [Consecutive]
  | cons n rest ih =>
    rw [List.cons_append, Consecutive, Consecutive, ih, and_assoc, List.length_cons]
    constructor
    · intro h
      obtain ⟨hn, hrest, htail⟩ := h
      refine ⟨hn, hrest, ?_⟩
      rw [show start + ((rest.length + 1 : Nat) : Int) = n + rest.length by push_cast; omega]
      exact htail
    · intro h
      obtain ⟨hn, hrest, htail⟩ := h
      refine ⟨hn, hrest, ?_⟩
      rw [show n + (rest.length : Int) = start + ((rest.length + 1 : Nat) : Int) by push_cast; omega]
      exact htail

/-! ## The processor -/

/-- No message was refused for its number. -/
def InSequence (t : List (Obs M)) : Prop := ∀ m e, .raised (.sequence m) e ∉ t

def Obs.refused : Obs M → Bool
  | .raised (.sequence _) _ => true
  | _ => false

theorem InSequence.snoc {t : List (Obs M)} {o : Obs M} (h : InSequence t)
    (ho : o.refused = false) : InSequence (t ++ [o]) := by
  intro m e hmem
  rcases List.mem_append.mp hmem with hmem | hmem
  · exact h m e hmem
  · rw [← List.mem_singleton.mp hmem] at ho
    cases ho

/-- What the processor's own counter is while the message with number `n` is in
hand, and `n` again once it is accepted. -/
def Counts (seqOf : M → Int) (n : Int) (b : Batch M) : Phase M → Prop
  | .taken m => seqOf m = n ∧ b.sequence + 1 = n
  | .held _ seq => seq = n ∧ b.sequence + 1 = n
  | .nacking _ next => next = none → b.sequence = n
  | .raised _ => True
  | .idle | .checked _ _ | .skipping _ | .acking _ => b.sequence = n

def Counted (seqOf : M → Int) (n : Int) (x : Phase M × State W M) : Prop :=
  InSequence x.2.trace ∧ Counts seqOf n x.2.vars x.1

/-- The metadata of a message reports its number. -/
def Env.Numbers (env : Env W M) (seqOf : M → Int) : Prop :=
  ∀ m w md w', env.metadata m w = (.ok md, w') → md.consumerSeq = seqOf m

section Processor

variable [DecidableEq M] {cfg : Config} {env : Env W M} {seqOf : M → Int} {n : Int}

theorem counted_micro (henv : env.Numbers seqOf) {x y : Phase M × State W M}
    (h : Micro cfg env x y) (hx : Counted seqOf n x) : Counted seqOf n y := by
  obtain ⟨htrace, hcounts⟩ := hx
  cases h with
  | metadata h => exact ⟨htrace, (henv _ _ _ _ h).trans hcounts.1, hcounts.2⟩
  | metadataRaised _ _ => exact ⟨htrace.snoc rfl, nofun⟩
  | outOfOrder _ h => exact absurd (hcounts.1.trans hcounts.2.symm) h
  | inOrder h => exact ⟨htrace, hcounts.1⟩
  | aside _ => exact ⟨htrace, hcounts⟩
  | stageRaised hc _ _ =>
    refine ⟨htrace.snoc ?_, nofun⟩
    cases hc <;> rfl
  | skipRaised _ _ => exact ⟨htrace.snoc rfl, trivial⟩
  | skipped => exact ⟨htrace.snoc rfl, hcounts⟩
  | @skipAcked m s r w _ _ =>
    cases r with
    | none => exact ⟨htrace.snoc rfl, hcounts⟩
    | some e => exact ⟨(htrace.snoc rfl).snoc rfl, hcounts⟩
  | skipAckCrashed _ _ => exact ⟨(htrace.snoc rfl).snoc rfl, trivial⟩
  | processed _ => exact ⟨htrace.snoc rfl, hcounts⟩
  | processRaised _ _ => exact ⟨htrace.snoc rfl, nofun⟩
  | catchUpRaised _ _ => exact ⟨htrace.snoc rfl, hcounts⟩
  | started _ => exact ⟨htrace, hcounts⟩
  | flushed _ => exact ⟨htrace.snoc rfl, hcounts⟩
  | flushRaised _ _ => exact ⟨htrace.snoc rfl, nofun⟩
  | acked _ => exact ⟨htrace.snoc rfl, hcounts⟩
  | ackRaised _ _ => exact ⟨(htrace.snoc rfl).snoc rfl, nofun⟩
  | ackCrashed _ _ => exact ⟨(htrace.snoc rfl).snoc rfl, trivial⟩
  | flushDone => exact ⟨htrace, hcounts⟩
  | @naked m rest next s r w _ _ =>
    cases r with
    | none => exact ⟨htrace.snoc rfl, hcounts⟩
    | some e => exact ⟨(htrace.snoc rfl).snoc rfl, hcounts⟩
  | nakCrashed _ _ => exact ⟨(htrace.snoc rfl).snoc rfl, trivial⟩
  | @nakDone next s =>
    cases next with
    | none => exact ⟨htrace, hcounts rfl⟩
    | some e => exact ⟨htrace, trivial⟩
  | crashed hc _ _ =>
    refine ⟨htrace.snoc ?_, trivial⟩
    cases hc with
    | stage hstage => cases hstage <;> rfl
    | _ => rfl

/-- The counter stands at the number of messages that have entered. -/
def UpToDate (start : Int) (s : State W M) : Prop :=
  InSequence s.trace ∧ s.vars.sequence = start + (tooks s.trace).length

variable {start : Int}

theorem processMessage_counted (henv : env.Numbers seqOf) {m : M} {s : State W M}
    (hs : UpToDate start s) (hnext : seqOf m = s.vars.sequence + 1) :
    wp (processMessage cfg env m) (fun _ t => UpToDate start t) (fun _ t => InSequence t.trace) s := by
  have hpath : Path cfg env (.taken m, s.push (.took m)) (.taken m, s.push (.took m)) := .refl
  have hstart : Counted seqOf (seqOf m) (.taken m, s.push (.took m)) :=
    ⟨hs.1.snoc rfl, rfl, hnext.symm⟩
  refine wp_mono (processMessage_path hpath) (fun _ t ht => ?_)
    (fun _ t ht => (path_invariant (counted_micro henv) ht hstart).1)
  have hcounted := path_invariant (counted_micro henv) ht hstart
  have hlength : (tooks t.trace).length = (tooks s.trace).length + 1 := by
    have htooks : tooks t.trace = tooks (s.push (.took m)).trace := path_tooks ht
    rw [htooks, push_trace, tooks_append, List.length_append]
    rfl
  have hsequence : t.vars.sequence = seqOf m := hcounted.2
  refine ⟨hcounted.1, ?_⟩
  rw [hsequence, hnext, hs.2, hlength]
  push_cast
  omega

/-- The processor's other entry points leave the counter as it is. -/
theorem idle_counted (henv : env.Numbers seqOf) {p : Proc W M Unit} {ph : Phase M} {s : State W M}
    (hs : UpToDate start s) (hph : Counts seqOf s.vars.sequence s.vars ph)
    (hp : wp p (fun _ t => Path cfg env (ph, s) (.idle, t))
      (fun e t => Path cfg env (ph, s) (.raised e, t)) s) :
    wp p (fun _ t => UpToDate start t) (fun _ t => InSequence t.trace) s := by
  have hstart : Counted seqOf s.vars.sequence (ph, s) := ⟨hs.1, hph⟩
  refine wp_mono hp (fun _ t ht => ?_)
    (fun _ t ht => (path_invariant (counted_micro henv) ht hstart).1)
  have hcounted := path_invariant (counted_micro henv) ht hstart
  have htooks : tooks t.trace = tooks s.trace := path_tooks ht
  have hsequence : t.vars.sequence = s.vars.sequence := hcounted.2
  exact ⟨hcounted.1, by rw [hsequence, htooks, hs.2]⟩

end Processor

/-! ## The drain task -/

/-- The messages that have entered the processor and those that wait in the queue. -/
def entering (b : Bufferer W M) : List M := tooks b.processor.trace ++ b.queue.reduceOption

/-- No message was refused, and a running task is up to date. -/
structure Ordered (start : Int) (b : Bufferer W M) : Prop where
  inSequence : InSequence b.processor.trace
  upToDate : b.pc.running = true → UpToDate start b.processor

section Drain

variable {cfg : Config} {env : Env W M} {seqOf : M → Int} {start : Int} {b : Bufferer W M}

theorem ordered_guardedCall {next : Pc} {p : Proc W M Unit}
    (hp : wp p (fun _ t => UpToDate start t) (fun _ t => InSequence t.trace) b.processor) :
    Ordered start (b.guardedCall next p) := by
  rcases wp_elim hp with ⟨_, _, hupToDate⟩ | ⟨e, hr, htrace⟩
  · exact ⟨hupToDate.1, fun _ => hupToDate⟩
  · refine ⟨htrace, fun hrun => ?_⟩
    simp only [Bufferer.guardedCall, hr, Bufferer.afterCall] at hrun
    split at hrun <;> cases hrun

/-- A call after which the task is over. -/
theorem ordered_over {b' : Bufferer W M} {p : Proc W M Unit}
    (hp : wp p (fun _ t => UpToDate start t) (fun _ t => InSequence t.trace) b.processor)
    (hprocessor : b'.processor = (p b.processor).2) (hover : b'.pc.running = false) :
    Ordered start b' := by
  have htrace : InSequence (p b.processor).2.trace :=
    wp_state (I := fun t => InSequence t.trace) (wp_mono hp (fun _ _ ht => ht.1) (fun _ _ ht => ht))
  rw [← hprocessor] at htrace
  exact ⟨htrace, fun hrun => by rw [hover] at hrun; cases hrun⟩

variable [DecidableEq M]

theorem entering_handle {item : Option M} {rest : List (Option M)} (hq : b.queue = item :: rest) :
    entering (Bufferer.handle cfg env { b with queue := rest } item) = entering b := by
  have hqueue : (Bufferer.handle cfg env { b with queue := rest } item).queue = rest := by
    cases item <;> rfl
  rw [entering, entering, Bufferer.tooks_handle, hqueue, hq]
  cases item with
  | none => simp
  | some m => simp

theorem ordered_handle (henv : env.Numbers seqOf) {item : Option M} {rest : List (Option M)}
    (hq : b.queue = item :: rest) (hup : UpToDate start b.processor)
    (hconsecutive : Consecutive start ((entering b).map seqOf)) :
    Ordered start (Bufferer.handle cfg env { b with queue := rest } item) := by
  cases item with
  | none =>
    have hpath : Path cfg env (.idle, b.processor) (.idle, b.processor) := .refl
    have hidle : Counts seqOf b.processor.vars.sequence b.processor.vars .idle := rfl
    exact ordered_over (idle_counted henv hup hidle (flush_path hpath)) rfl
      (Bufferer.afterCall_returned_running _)
  | some m =>
    have hnext : seqOf m = b.processor.vars.sequence + 1 := by
      rw [entering, hq, List.map_append, consecutive_append] at hconsecutive
      have hhead := hconsecutive.2
      simp only [List.reduceOption_cons_of_some, List.map_cons, Consecutive, List.length_map]
        at hhead
      rw [hhead.1, hup.2]
    exact ordered_guardedCall (processMessage_counted henv hup hnext)

theorem ordered_turn (henv : env.Numbers seqOf) (h : Ordered start b)
    (hconsecutive : Consecutive start ((entering b).map seqOf)) :
    Ordered start (b.turn cfg env) ∧ entering (b.turn cfg env) = entering b := by
  unfold Bufferer.turn
  split
  · next hpc hq =>
    exact ⟨ordered_handle henv hq (h.upToDate (by rw [hpc]; rfl)) hconsecutive, entering_handle hq⟩
  · next hpc hq =>
    have hup := h.upToDate (by rw [hpc]; rfl)
    split
    · have hpath : Path cfg env (.nacking b.processor.vars.pending none, b.processor)
          (.nacking b.processor.vars.pending none, b.processor) := .refl
      have hnacking : Counts seqOf b.processor.vars.sequence b.processor.vars
          (.nacking b.processor.vars.pending none) := fun _ => rfl
      have hnack := nackEverything_path hpath
      refine ⟨ordered_over (idle_counted henv hup hnacking hnack) rfl (b.giveUp_running env), ?_⟩
      exact congrArg (· ++ b.queue.reduceOption) (Bufferer.tooks_of_path hnack)
    · have hpath : Path cfg env (.idle, b.processor) (.idle, b.processor) := .refl
      have hidle : Counts seqOf b.processor.vars.sequence b.processor.vars .idle := rfl
      have htick := onIdle_path hpath
      refine ⟨ordered_guardedCall (idle_counted henv hup hidle htick), ?_⟩
      exact congrArg (· ++ b.queue.reduceOption) (Bufferer.tooks_of_path htick)
  · next hpc hq =>
    exact ⟨ordered_handle henv hq (h.upToDate (by rw [hpc]; rfl)) hconsecutive, entering_handle hq⟩
  · exact ⟨h, rfl⟩
  · exact ⟨h, rfl⟩
  · exact ⟨h, rfl⟩

theorem ordered_step (cfg : Config) (henv : env.Numbers seqOf) (h : Ordered start b)
    (hconsecutive : Consecutive start ((entering b).map seqOf)) (mv : Bufferer.Move M) :
    Ordered start (b.step cfg env mv) ∧
      entering (b.step cfg env mv) = entering b ++ mv.added.reduceOption := by
  cases mv with
  | turn =>
    obtain ⟨hordered, hentering⟩ := ordered_turn henv h hconsecutive
    exact ⟨hordered, hentering.trans (List.append_nil _).symm⟩
  | timeout =>
    by_cases hpc : b.pc = .waiting
    · have hstep : b.step cfg env .timeout = { b with pc := .draining } := if_pos hpc
      rw [hstep]
      exact ⟨⟨h.inSequence, fun _ => h.upToDate (by rw [hpc]; rfl)⟩, (List.append_nil _).symm⟩
    · have hstep : b.step cfg env .timeout = b := if_neg hpc
      rw [hstep]
      exact ⟨h, (List.append_nil _).symm⟩
  | put item =>
    refine ⟨⟨h.inSequence, h.upToDate⟩, ?_⟩
    show _ ++ (b.queue ++ [item]).reduceOption = _
    rw [List.reduceOption_append, ← List.append_assoc]
    rfl
  | setCancel => exact ⟨⟨h.inSequence, h.upToDate⟩, (List.append_nil _).symm⟩
  | kill =>
    by_cases hrun : b.pc.running = true
    · have hstep : b.step cfg env .kill = { b with pc := .crashed (.base "CancelledError") } :=
        if_pos hrun
      rw [hstep]
      exact ⟨⟨h.inSequence, nofun⟩, (List.append_nil _).symm⟩
    · have hstep : b.step cfg env .kill = b := if_neg hrun
      rw [hstep]
      exact ⟨h, (List.append_nil _).symm⟩

end Drain

/-! ## The consumer -/

/-- The messages delivered so far that are not lost, in order. -/
def ConsumerState.delivered (c : ConsumerState W M) : List M :=
  entering c.drain ++ (c.loop.held ++ c.inbox)

/-- The messages an act loses. -/
def ConsumerState.lost (seqOf : M → Int) (c : ConsumerState W M) : Act M → List M
  | .pause => c.loop.held ++ c.inbox
  | .quiesce =>
    match c.stopping with
    | .entered _ => c.loop.held ++ c.inbox
    | _ => []
  | .fetchRaised count =>
    match c.loop with
    | .fetching => c.inbox.take count
    | .off | .putting _ => []
  | .deliver m => if seqOf m = c.next ∧ c.subscribed = false then [m] else []
  | _ => []

structure Contiguous (seqOf : M → Int) (start : Int) (c : ConsumerState W M) : Prop where
  ordered : Ordered start c.drain
  consecutive : Consecutive start (c.delivered.map seqOf)
  next : c.next = start + c.delivered.length + 1
  unbound : c.bound = false → c.subscribed = false ∧ c.loop.held ++ c.inbox = []

section Runs

variable {seqOf : M → Int} {start : Int} {c c' : ConsumerState W M}

theorem Contiguous.entered (h : Contiguous seqOf start c) :
    Consecutive start ((entering c.drain).map seqOf) := by
  have hall := h.consecutive
  rw [ConsumerState.delivered, List.map_append, consecutive_append] at hall
  exact hall.1

/-- Nothing is delivered. -/
theorem Contiguous.same (h : Contiguous seqOf start c) (hordered : Ordered start c'.drain)
    (hdelivered : c'.delivered = c.delivered) (hnext : c'.next = c.next)
    (hunbound : c'.bound = false → c'.subscribed = false ∧ c'.loop.held ++ c'.inbox = []) :
    Contiguous seqOf start c' := by
  refine ⟨hordered, ?_, ?_, hunbound⟩
  · rw [hdelivered]
    exact h.consecutive
  · rw [hnext, hdelivered]
    exact h.next

/-- The drain task is untouched and the same messages are on the way to it. -/
theorem Contiguous.loop (h : Contiguous seqOf start c) (hdrain : c'.drain = c.drain)
    (hheld : c'.loop.held ++ c'.inbox = c.loop.held ++ c.inbox) (hnext : c'.next = c.next)
    (hunbound : c'.bound = false → c'.subscribed = false ∧ c'.loop.held ++ c'.inbox = []) :
    Contiguous seqOf start c' := by
  refine h.same (hdrain ▸ h.ordered) ?_ hnext hunbound
  rw [ConsumerState.delivered, ConsumerState.delivered, hdrain, hheld]

theorem Contiguous.receive (h : Contiguous seqOf start c) {m : M} (hm : seqOf m = c.next)
    (hsubscribed : c.subscribed = true) :
    Contiguous seqOf start { c with inbox := c.inbox ++ [m], next := c.next + 1 } := by
  have hdelivered : ({ c with inbox := c.inbox ++ [m], next := c.next + 1 } :
      ConsumerState W M).delivered = c.delivered ++ [m] := by
    simp [ConsumerState.delivered]
  refine ⟨h.ordered, ?_, ?_, fun hb => ?_⟩
  · rw [hdelivered, List.map_append, consecutive_append]
    refine ⟨h.consecutive, ?_, trivial⟩
    rw [hm, h.next, List.length_map]
  · rw [hdelivered, List.length_append, List.length_singleton]
    show c.next + 1 = _
    rw [h.next]
    push_cast
    omega
  · rw [(h.unbound hb).1] at hsubscribed
    cases hsubscribed

variable [DecidableEq M] {cfg : Config} {env : Env W M} {maxsize : Int}

/-- A move of the drain task that brings nothing new. -/
theorem Contiguous.drain (cfg : Config) (henv : env.Numbers seqOf) (h : Contiguous seqOf start c)
    (mv : Bufferer.Move M) (hadded : mv.added.reduceOption = []) (stopping : Stopping) :
    Contiguous seqOf start
      { c with drain := c.drain.step cfg env mv, stopping := stopping } := by
  obtain ⟨hordered, hentering⟩ := ordered_step cfg henv h.ordered h.entered mv
  refine h.same hordered ?_ rfl h.unbound
  rw [ConsumerState.delivered, ConsumerState.delivered, hentering, hadded, List.append_nil]

theorem Contiguous.put (cfg : Config) (henv : env.Numbers seqOf) (h : Contiguous seqOf start c)
    {m : M} {rest : List M} (hloop : c.loop = .putting (m :: rest)) :
    Contiguous seqOf start
      { c with drain := c.drain.step cfg env (.put (some m)), loop := .putting rest } := by
  obtain ⟨hordered, hentering⟩ := ordered_step cfg henv h.ordered h.entered (.put (some m))
  refine h.same hordered ?_ rfl fun hb => ?_
  · show entering (c.drain.step cfg env (.put (some m))) ++ (rest ++ c.inbox) = _
    rw [ConsumerState.delivered, hentering, hloop, List.append_assoc]
    rfl
  · have hheld := (h.unbound hb).2
    rw [hloop] at hheld
    cases hheld

theorem contiguous_transition (henv : env.Numbers seqOf) {a : Act M}
    (h : ConsumerState.Transition cfg env seqOf c a c') (hkept : c.lost seqOf a = [])
    (hc : Contiguous seqOf start c) : Contiguous seqOf start c' := by
  cases h with
  | disabled => exact hc
  | turn => exact hc.drain cfg henv .turn rfl c.stopping
  | timeout => exact hc.drain cfg henv .timeout rfl c.stopping
  | deliver hm =>
    by_cases hsubscribed : c.subscribed = true
    · rw [if_pos hsubscribed]
      exact hc.receive hm hsubscribed
    · simp [ConsumerState.lost, hm, hsubscribed] at hkept
  | @fetched count hloop =>
    have hheld : c.inbox.take count ++ c.inbox.drop count = c.loop.held ++ c.inbox := by
      rw [List.take_append_drop, hloop]
      rfl
    refine hc.loop rfl hheld rfl fun hb => ⟨(hc.unbound hb).1, ?_⟩
    exact hheld.trans (hc.unbound hb).2
  | @fetchRaised count hloop =>
    simp only [ConsumerState.lost, hloop] at hkept
    have hinbox : c.inbox.drop count = c.inbox := by
      have hsplit := List.take_append_drop count c.inbox
      rw [hkept] at hsplit
      exact hsplit
    rw [hinbox]
    exact hc
  | fetchAgain hloop =>
    have hheld : FetchLoop.fetching.held ++ c.inbox = c.loop.held ++ c.inbox := by
      rw [hloop]
      rfl
    refine hc.loop rfl hheld rfl fun hb => ⟨(hc.unbound hb).1, ?_⟩
    exact hheld.trans (hc.unbound hb).2
  | put hloop => exact hc.put cfg henv hloop
  | pause => exact hc.loop rfl hkept.symm rfl fun _ => ⟨rfl, rfl⟩
  | unpause hb => exact hc.loop rfl (hc.unbound hb).2.symm rfl nofun
  | stop _ => exact hc.loop rfl rfl rfl hc.unbound
  | quiesce hstop =>
    simp only [ConsumerState.lost, hstop] at hkept
    exact hc.loop rfl hkept.symm rfl fun _ => ⟨rfl, rfl⟩
  | sentinel _ => exact hc.drain cfg henv (.put none) rfl .awaiting
  | cancel _ => exact hc.drain cfg henv .setCancel rfl .awaiting
  | await _ => exact hc.loop rfl rfl rfl hc.unbound
  | close _ => exact hc.loop rfl rfl rfl hc.unbound
  | kill _ => exact hc.drain cfg henv .kill rfl .closed

/-- No act of the run loses a message. -/
def ConsumerState.keepsAll (cfg : Config) (env : Env W M) (seqOf : M → Int) (maxsize : Int)
    (c : ConsumerState W M) : List (Act M) → Bool
  | [] => true
  | a :: rest =>
    (c.lost seqOf a).isEmpty &&
      (c.step cfg env seqOf maxsize a).keepsAll cfg env seqOf maxsize rest

theorem contiguous_exec (henv : env.Numbers seqOf) (acts : List (Act M))
    (hkept : c.keepsAll cfg env seqOf maxsize acts = true) (hc : Contiguous seqOf start c) :
    Contiguous seqOf start (c.exec cfg env seqOf maxsize acts) := by
  induction acts generalizing c with
  | nil => exact hc
  | cons a rest ih =>
    rw [ConsumerState.keepsAll, Bool.and_eq_true, List.isEmpty_iff] at hkept
    have hstep : Contiguous seqOf start (c.step cfg env seqOf maxsize a) :=
      contiguous_transition henv (ConsumerState.step_transition a) hkept.1 hc
    exact ih hkept.2 hstep

/-- In every run in which no act loses a message, the numbers of the messages that
enter the processor are consecutive and none is refused: a pause and an unpause do
no harm while nothing is on the way to the queue. -/
theorem entered_consecutive (cfg : Config) (env : Env W M) (seqOf : M → Int)
    (henv : env.Numbers seqOf) (maxsize start : Int) (w : W) (acts : List (Act M))
    (hkept : (ConsumerState.started start w).keepsAll cfg env seqOf maxsize acts = true) :
    let t := ((ConsumerState.started start w).exec cfg env seqOf maxsize acts).drain.processor.trace
    Consecutive start ((tooks t).map seqOf) ∧ ∀ m e, .raised (.sequence m) e ∉ t := by
  intro t
  have hstart : Contiguous seqOf start (ConsumerState.started start w : ConsumerState W M) := by
    refine ⟨⟨fun m e => List.not_mem_nil, fun _ => ⟨fun m e => List.not_mem_nil, ?_⟩⟩, trivial, ?_,
      nofun⟩
    · show start = start + ((0 : Nat) : Int)
      omega
    · show start + 1 = start + ((0 : Nat) : Int) + 1
      omega
  have hall := contiguous_exec henv acts hkept hstart
  refine ⟨?_, hall.ordered.inSequence⟩
  have hentered := hall.entered
  rw [entering, List.map_append, consecutive_append] at hentered
  exact hentered.1

end Runs

/-! ## A pause that loses a message -/

/-- A message is taken; the next is delivered to a fetch that a pause cancels; after
the unpause the one after it comes in. -/
def pausedFetch : List (Act Int) :=
  [.deliver 1, .fetched 1, .put, .put, .turn, .deliver 2, .pause, .unpause,
    .deliver 3, .fetched 1, .put, .turn, .turn]

theorem pause_breaks_sequence :
    let c := (ConsumerState.started 0 ()).exec Config.pairs Env.obliging id 100 pausedFetch
    ¬ Consecutive 0 ((tooks c.drain.processor.trace).map id) ∧
      c.drain.fatal = some (.consumerFatal "out of order sequence: 3, expected: 2") := by
  intro c
  refine ⟨?_, by decide +kernel⟩
  rw [show tooks c.drain.processor.trace = [1, 3] by decide +kernel]
  simp [Consecutive]

/-- The pause falls between two fetches. -/
def pausedIdle : List (Act Int) :=
  [.deliver 1, .fetched 1, .put, .put, .pause, .unpause, .deliver 2, .fetched 1, .put, .turn, .turn]

theorem obliging_numbers : Env.obliging.Numbers id := by
  intro m w md w' h
  cases h
  rfl

theorem entered_consecutive_pausedIdle :
    let c := (ConsumerState.started 0 ()).exec Config.pairs Env.obliging id 100 pausedIdle
    (tooks c.drain.processor.trace).length = 2 ∧
      Consecutive 0 ((tooks c.drain.processor.trace).map id) :=
  ⟨by decide +kernel, (entered_consecutive Config.pairs Env.obliging id obliging_numbers 100 0 ()
    pausedIdle (by decide +kernel)).1⟩

end Consumer
end Eds
