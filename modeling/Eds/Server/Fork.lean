import Eds.Effects.Machine
import Mathlib.Data.List.Basic

/-!
# The control loop of the fork

`_run_fork_async` creates the consumer, then waits for a command, for one of the two events
of the consumer or for the signal to shut down, and acts on it.  Commands are queued by HTTP
requests at any time and taken one at a time.

That it is paused is known twice: to the loop by its flag, and to the consumer by its pull
subscription, which `unpause` refuses to take a second time.  The refusal is an exception that
nothing catches, so the loop ends when an `unpause` is taken that no `pause` came before
(`survives_iff`).  A second `pause` does no harm.

One action is what happens between two points where the loop waits for something.  The awaits
inside of `create`, `pause` and `unpause` are not among them: what arrives then finds the same
state as what arrives later.
-/

namespace Eds
namespace Server
namespace Fork

open Effects

inductive Command where
  | pause
  | unpause
  | restart
  | ctlShutdown
  deriving DecidableEq

/-! ## The consumer -/

/-- `psub` and `consuming` say that `_psub` and `_consume_task` are not `None`. -/
structure Consumer where
  running : Bool
  psub : Bool
  consuming : Bool
  fatal : Bool
  disconnected : Bool
  deriving DecidableEq

def Consumer.new : Consumer := ⟨false, false, false, false, false⟩

def alreadyStarted : String := "consumer already started"

/-- `bind` is the exception of `pull_subscribe_bind`, if it raises one. -/
def Consumer.unpause (c : Consumer) (bind : Option String) : Except String Consumer :=
  if c.psub then .error alreadyStarted
  else match bind with
    | some e => .error e
    | none => .ok { c with psub := true, consuming := true }

/-- Whatever its two awaits raise is suppressed. -/
def Consumer.pause (c : Consumer) : Consumer := { c with consuming := false, psub := false }

def Consumer.start (c : Consumer) (bind : Option String) : Except String Consumer :=
  if c.running then .error alreadyStarted else { c with running := true }.unpause bind

/-! ## The loop -/

/-- How the loop was left; `raised` is an exception that nothing caught. -/
inductive Leave where
  | restart
  | ctlShutdown
  | fatal
  | disconnected
  | shutdown
  | createFailed
  | raised (e : String)
  deriving DecidableEq

/-- `checking` is the top of the loop, `waiting` is `asyncio.wait`. -/
inductive Pc where
  | checking
  | waiting
  | left (why : Leave)
  deriving DecidableEq

/-- A command acted on, with the loop's flag at that time; and an exception of `create` or of
`pull_subscribe_bind`. -/
inductive Obs where
  | acted (cmd : Command) (paused : Bool)
  | failed (e : String)
  deriving DecidableEq

structure Loop where
  pc : Pc
  paused : Bool
  consumer : Option Consumer
  control : List Command
  shutdownEvt : Bool
  exitCode : Int
  trace : List Obs
  deriving DecidableEq

/-- The waiters that `asyncio.wait` returned as done. -/
structure Done where
  control : Bool
  fatal : Bool
  disconnected : Bool
  shutdown : Bool
  deriving DecidableEq

inductive Action where
  | request (cmd : Command)
  | fatal
  | disconnected
  | shutdown
  | create (create bind : Option String)
  | wake (done : Done) (bind : Option String)
  deriving DecidableEq

namespace Loop

def initial : Loop where
  pc := .checking
  paused := false
  consumer := none
  control := []
  shutdownEvt := false
  exitCode := 0
  trace := []

def leave (s : Loop) (why : Leave) : Loop := { s with pc := .left why }

def observe (s : Loop) (o : Option Obs) : Loop := { s with trace := s.trace ++ o.toList }

/-- The consumer is stopped and forgotten. -/
def drop (s : Loop) : Loop := { s with consumer := none }

def exitWith (s : Loop) (code : Int) : Loop := { s with exitCode := code }

def createFailed (s : Loop) (e : String) : Loop :=
  (((s.observe (some (.failed e))).exitWith 1).drop).leave .createFailed

/-- The top of the loop. -/
def create (s : Loop) (create bind : Option String) : Loop :=
  if !s.paused && s.consumer.isNone then
    match create with
    | some e => s.createFailed e
    | none => match Consumer.new.start bind with
      | .error e => s.createFailed e
      | .ok c => { s with consumer := some c, pc := .waiting }
  else { s with pc := .waiting }

def pause (s : Loop) (c : Consumer) : Loop :=
  { s with consumer := some c.pause, paused := true, pc := .checking }

def unpause (s : Loop) (c : Consumer) (bind : Option String) : Loop :=
  let asked := s.observe (if c.psub then none else bind.map .failed)
  match c.unpause bind with
  | .error e => asked.leave (.raised e)
  | .ok c => { asked with consumer := some c, paused := false, pc := .checking }

def act (s : Loop) (bind : Option String) : Command → Loop
  | .restart => ((s.exitWith 4).drop).leave .restart
  | .ctlShutdown => s.drop.leave .ctlShutdown
  | .pause => match s.consumer with
    | some c => s.pause c
    | none => { s with pc := .checking }
  | .unpause => match s.consumer with
    | some c => s.unpause c bind
    | none => { s with pc := .checking }

/-- A waiter can be done only when what it waits for has happened, and one of them is. -/
def ready (s : Loop) (done : Done) : Bool :=
  (done.control || done.fatal || done.disconnected || done.shutdown) &&
  (!done.control || !s.control.isEmpty) &&
  (!done.fatal || s.consumer.any Consumer.fatal) &&
  (!done.disconnected || s.consumer.any Consumer.disconnected) &&
  (!done.shutdown || s.shutdownEvt)

def wake (s : Loop) (done : Done) (bind : Option String) : Loop :=
  if done.control then match s.control with
    | cmd :: rest => ({ s with control := rest }.observe (some (.acted cmd s.paused))).act bind cmd
    | [] => s
  else if done.fatal then (s.exitWith 1).leave .fatal
  else if done.disconnected then (s.exitWith 5).leave .disconnected
  else if done.shutdown then s.leave .shutdown
  else { s with pc := .checking }

end Loop

def fire (s : Loop) : Action → Option Loop
  | .request cmd => some { s with control := s.control ++ [cmd] }
  | .fatal => s.consumer.map fun c => { s with consumer := some { c with fatal := true } }
  | .disconnected => s.consumer.map fun c => { s with consumer := some { c with disconnected := true } }
  | .shutdown => some { s with shutdownEvt := true }
  | .create create bind => if s.pc = .checking then some (s.create create bind) else none
  | .wake done bind => if s.pc = .waiting ∧ s.ready done then some (s.wake done bind) else none

/-- An exception is a way to leave when it came from creating or subscribing the consumer. -/
def Leave.Allowed (t : List Obs) : Leave → Prop
  | .raised e => .failed e ∈ t
  | _ => True

/-! ## What holds of the loop -/

/-- Whether the consumer has a pull subscription, when there is a consumer. -/
def Loop.bound (s : Loop) : Option Bool := s.consumer.map Consumer.psub

def Agrees (s : Loop) : Prop := ∀ b, s.bound = some b → (s.paused = true ↔ b = false)

/-- So far nothing failed, and no `unpause` was acted on that no `pause` came before. -/
def Unharmed (t : List Obs) : Prop := (∀ e, .failed e ∉ t) ∧ .acted .unpause false ∉ t

def Inv (s : Loop) : Prop :=
  Agrees s ∧ match s.pc with
    | .checking => Unharmed s.trace ∧ (s.bound = none → s.paused = false)
    | .waiting => Unharmed s.trace ∧ s.bound ≠ none
    | .left why => why.Allowed s.trace ↔ .acted .unpause false ∉ s.trace

theorem inv_initial : Inv .initial :=
  ⟨nofun, ⟨fun _ => List.not_mem_nil, List.not_mem_nil⟩, fun _ => rfl⟩

section Steps

variable {s t : Loop}

theorem Agrees.congr (h : Agrees s) (hbound : t.bound = s.bound) (hpaused : t.paused = s.paused) :
    Agrees t := by
  intro b hb
  rw [hpaused]
  exact h b (hbound ▸ hb)

/-- What arrives from outside changes nothing that the invariant speaks of. -/
theorem Inv.congr (h : Inv s) (hpc : t.pc = s.pc) (hbound : t.bound = s.bound)
    (hpaused : t.paused = s.paused) (htrace : t.trace = s.trace) : Inv t := by
  refine ⟨h.1.congr hbound hpaused, ?_⟩
  rw [hpc, hbound, hpaused, htrace]
  exact h.2

theorem Unharmed.acted {l : List Obs} (h : Unharmed l) {cmd : Command} {paused : Bool}
    (hcmd : cmd = .unpause → paused = true) : Unharmed (l ++ [.acted cmd paused]) := by
  refine ⟨fun e he => ?_, fun hmem => ?_⟩
  · rcases List.mem_append.mp he with he | he
    · exact h.1 e he
    · cases List.mem_singleton.mp he
  · rcases List.mem_append.mp hmem with hmem | hmem
    · exact h.2 hmem
    · cases List.mem_singleton.mp hmem
      cases hcmd rfl

/-- Leaving in a way that is allowed. -/
theorem inv_leave {why : Leave} (hagrees : Agrees s) (hpc : s.pc = .left why)
    (hwhy : why.Allowed s.trace) (hacted : .acted .unpause false ∉ s.trace) : Inv s := by
  refine ⟨hagrees, ?_⟩
  rw [hpc]
  exact iff_of_true hwhy hacted

theorem agrees_of_none (h : s.consumer = none) : Agrees s := by
  intro b hb
  rw [Loop.bound, h] at hb
  cases hb

theorem failed_mem (l : List Obs) (e : String) : .failed e ∈ l ++ [.failed e] :=
  List.mem_append_right l (List.mem_singleton_self _)

theorem Unharmed.failed {l : List Obs} (h : Unharmed l) (e : String) :
    .acted .unpause false ∉ l ++ [.failed e] := by
  intro hmem
  rcases List.mem_append.mp hmem with hmem | hmem
  · exact h.2 hmem
  · cases List.mem_singleton.mp hmem

theorem inv_createFailed (h : Unharmed s.trace) (e : String) : Inv (s.createFailed e) :=
  inv_leave (agrees_of_none rfl) rfl trivial (h.failed e)

theorem inv_create {create bind : Option String} (hpc : s.pc = .checking) (h : Inv s) :
    Inv (s.create create bind) := by
  obtain ⟨hagrees, hinv⟩ := h
  rw [hpc] at hinv
  obtain ⟨hclean, hnone⟩ := hinv
  unfold Loop.create
  by_cases hfirst : (!s.paused && s.consumer.isNone) = true
  · rw [if_pos hfirst]
    cases create with
    | some e => exact inv_createFailed hclean e
    | none =>
      cases bind with
      | some e => exact inv_createFailed hclean e
      | none =>
        refine ⟨fun b hb => ?_, hclean, nofun⟩
        rw [Bool.and_eq_true, Bool.not_eq_true'] at hfirst
        have hrunning : s.paused = false := hfirst.1
        cases hb
        exact iff_of_false (by show ¬ s.paused = true; simp [hrunning]) nofun
  · rw [if_neg hfirst]
    refine ⟨hagrees.congr rfl rfl, hclean, fun hbound => hfirst ?_⟩
    have hconsumer : s.consumer = none := Option.map_eq_none_iff.mp hbound
    rw [hnone hbound, hconsumer]
    rfl

/-- An `unpause` that has been taken. -/
theorem inv_unpause {bind : Option String} {c : Consumer} {before : List Obs}
    (hbefore : Unharmed before) (hagrees : s.paused = true ↔ c.psub = false)
    (hconsumer : s.consumer = some c) (htrace : s.trace = before ++ [.acted .unpause s.paused]) :
    Inv (s.unpause c bind) := by
  have hagree : Agrees s := by
    intro b hb
    rw [Loop.bound, hconsumer] at hb
    cases hb
    exact hagrees
  cases hpsub : c.psub with
  | true =>
    have hpaused : s.paused = false := by
      rw [← Bool.not_eq_true, hagrees, hpsub]
      exact Bool.noConfusion
    have hfinal : s.unpause c bind = s.leave (.raised alreadyStarted) := by
      simp [Loop.unpause, Consumer.unpause, hpsub, Loop.observe]
    rw [hfinal]
    refine ⟨hagree.congr rfl rfl, iff_of_false (fun hfailed => ?_) fun hacted => hacted ?_⟩
    · have hfailed : .failed alreadyStarted ∈ s.trace := hfailed
      rw [htrace] at hfailed
      rcases List.mem_append.mp hfailed with hfailed | hfailed
      · exact hbefore.1 _ hfailed
      · cases List.mem_singleton.mp hfailed
    · show .acted .unpause false ∈ s.trace
      rw [htrace, hpaused]
      exact List.mem_append_right _ (List.mem_singleton_self _)
  | false =>
    have hclean : Unharmed s.trace := by
      rw [htrace]
      exact hbefore.acted fun _ => hagrees.mpr hpsub
    cases bind with
    | some e =>
      have hfinal : s.unpause c (some e) = (s.observe (some (.failed e))).leave (.raised e) := by
        simp [Loop.unpause, Consumer.unpause, hpsub]
      rw [hfinal]
      exact inv_leave (hagree.congr rfl rfl) rfl (failed_mem s.trace e) (hclean.failed e)
    | none =>
      have hfinal : s.unpause c none = { s with
          consumer := some { c with psub := true, consuming := true }
          paused := false
          pc := .checking } := by
        simp [Loop.unpause, Consumer.unpause, hpsub, Loop.observe]
      rw [hfinal]
      refine ⟨fun b hb => ?_, hclean, nofun⟩
      cases hb
      exact iff_of_false nofun nofun

theorem inv_act {bind : Option String} {cmd : Command} {before : List Obs}
    (hagrees : Agrees s) (hbefore : Unharmed before) (hbound : s.bound ≠ none)
    (htrace : s.trace = before ++ [.acted cmd s.paused]) : Inv (s.act bind cmd) := by
  obtain ⟨c, hconsumer⟩ : ∃ c, s.consumer = some c := by
    rw [← Option.ne_none_iff_exists']
    exact fun hnone => hbound (by rw [Loop.bound, hnone]; rfl)
  have hc : s.paused = true ↔ c.psub = false := hagrees c.psub (by rw [Loop.bound, hconsumer]; rfl)
  cases cmd with
  | restart =>
    have hclean : Unharmed (before ++ [.acted .restart s.paused]) := hbefore.acted nofun
    exact inv_leave (agrees_of_none rfl) rfl trivial (htrace ▸ hclean.2)
  | ctlShutdown =>
    have hclean : Unharmed (before ++ [.acted .ctlShutdown s.paused]) := hbefore.acted nofun
    exact inv_leave (agrees_of_none rfl) rfl trivial (htrace ▸ hclean.2)
  | pause =>
    rw [show s.act bind .pause = s.pause c by simp [Loop.act, hconsumer]]
    refine ⟨fun b hb => ?_, ?_, nofun⟩
    · cases hb
      exact iff_of_true rfl rfl
    · show Unharmed s.trace
      rw [htrace]
      exact hbefore.acted nofun
  | unpause =>
    rw [show s.act bind .unpause = s.unpause c bind by simp [Loop.act, hconsumer]]
    exact inv_unpause hbefore hc hconsumer htrace

theorem inv_wake {done : Done} {bind : Option String} (hpc : s.pc = .waiting) (h : Inv s) :
    Inv (s.wake done bind) := by
  have hkeep : Inv s := h
  obtain ⟨hagrees, hinv⟩ := h
  rw [hpc] at hinv
  obtain ⟨hclean, hbound⟩ := hinv
  unfold Loop.wake
  split
  · split
    · next cmd rest hcontrol =>
      refine inv_act (hagrees.congr rfl rfl) hclean ?_ rfl
      exact hbound
    · exact hkeep
  · split
    · exact inv_leave (hagrees.congr rfl rfl) rfl trivial hclean.2
    · split
      · exact inv_leave (hagrees.congr rfl rfl) rfl trivial hclean.2
      · split
        · exact inv_leave (hagrees.congr rfl rfl) rfl trivial hclean.2
        · exact ⟨hagrees.congr rfl rfl, hclean, fun hnone => absurd hnone hbound⟩

theorem inv_step (a : Action) (h : Inv s) (hfire : fire s a = some t) : Inv t := by
  cases a with
  | request cmd =>
    have hfire : { s with control := s.control ++ [cmd] } = t := by simpa [fire] using hfire
    exact h.congr (hfire ▸ rfl) (hfire ▸ rfl) (hfire ▸ rfl) (hfire ▸ rfl)
  | fatal =>
    obtain ⟨c, hc, rfl⟩ := Option.map_eq_some_iff.mp hfire
    exact h.congr rfl (by simp [Loop.bound, hc]) rfl rfl
  | disconnected =>
    obtain ⟨c, hc, rfl⟩ := Option.map_eq_some_iff.mp hfire
    exact h.congr rfl (by simp [Loop.bound, hc]) rfl rfl
  | shutdown =>
    have hfire : { s with shutdownEvt := true } = t := by simpa [fire] using hfire
    exact h.congr (hfire ▸ rfl) (hfire ▸ rfl) (hfire ▸ rfl) (hfire ▸ rfl)
  | create create bind =>
    have hfire : s.pc = .checking ∧ s.create create bind = t := by simpa [fire] using hfire
    exact hfire.2 ▸ inv_create hfire.1 h
  | wake done bind =>
    have hfire : (s.pc = .waiting ∧ s.ready done = true) ∧ s.wake done bind = t := by
      simpa [fire] using hfire
    exact hfire.2 ▸ inv_wake hfire.1.1 h

end Steps

/-! ## Every run -/

/-- In every run, in any order of commands and events: the loop is left only in one of the ways
that are allowed, and the flag agrees with the subscription, if and only if no `unpause` was
acted on while the loop was not paused. -/
theorem survives_iff (actions : List Action) (s : Loop)
    (h : follow fire (fun _ _ => true) actions .initial = some s) :
    ((∀ why, s.pc = .left why → why.Allowed s.trace) ∧
      ∀ c, s.consumer = some c → (s.paused = true ↔ c.psub = false)) ↔
    .acted .unpause false ∉ s.trace := by
  have hinv : Inv s := follow_invariant (fun _ a _ _ hfire hs => inv_step a hs hfire) h inv_initial
  obtain ⟨hagrees, hpc⟩ := hinv
  have hflag : ∀ c, s.consumer = some c → (s.paused = true ↔ c.psub = false) :=
    fun c hc => hagrees c.psub (by rw [Loop.bound, hc]; rfl)
  rw [and_iff_left hflag]
  cases hat : s.pc with
  | checking =>
    rw [hat] at hpc
    exact iff_of_true nofun hpc.1.2
  | waiting =>
    rw [hat] at hpc
    exact iff_of_true nofun hpc.1.2
  | left why =>
    rw [hat] at hpc
    have hpc : why.Allowed s.trace ↔ .acted .unpause false ∉ s.trace := hpc
    rw [← hpc]
    exact ⟨fun hall => hall why rfl, fun hwhy why' heq => Pc.left.inj heq ▸ hwhy⟩

def control : Done := ⟨true, false, false, false⟩

/-- Two pauses, one `unpause` and a restart. -/
def pausedTwice : List Action :=
  [.create none none, .request .pause, .request .pause, .wake control none, .create none none,
    .wake control none, .request .unpause, .create none none, .wake control none,
    .create none none, .request .restart, .wake control none]

theorem survives_iff_pausedTwice : ∃ s,
    follow fire (fun _ _ => true) pausedTwice .initial = some s ∧ s.pc = .left .restart ∧
      (∀ why, s.pc = .left why → why.Allowed s.trace) ∧
      ∀ c, s.consumer = some c → (s.paused = true ↔ c.psub = false) :=
  ⟨_, rfl, rfl, (survives_iff pausedTwice _ rfl).mpr (by decide)⟩

/-- An `unpause` of a consumer that runs is left through the exception. -/
theorem second_unpause_raises : ∃ s,
    follow fire (fun _ _ => true) [.create none none, .request .pause, .request .unpause,
      .request .unpause, .wake control none, .create none none, .wake control none,
      .create none none, .wake control none] .initial = some s ∧
    s.pc = .left (.raised alreadyStarted) ∧ ¬ (Leave.raised alreadyStarted).Allowed s.trace := by
  refine ⟨_, rfl, rfl, fun hallowed => ?_⟩
  have hmem : .failed alreadyStarted ∈ [Obs.acted .pause false, .acted .unpause true,
    .acted .unpause false] := hallowed
  revert hmem
  decide

end Fork
end Server
end Eds
