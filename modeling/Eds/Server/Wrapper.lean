import Eds.Effects.Machine
import Mathlib.Data.List.Basic

/-!
# The wrapper that supervises the server

`_run_wrapper_loop` starts the server as a child process and waits for events: a request to
restart, a shutdown, or the exit of the child, which a thread of its own reports for each
child.  A restart terminates the child and drains the queue, so that the exit of that child
is not taken for the exit of the next one.

The drain takes what is on the queue at that moment: not an exit that is reported later, and
any other event with it.

A machine takes one step of the main thread, of a waiter thread or of the outside at a time.
An exit on the queue carries the child it is about, which the source does not record.
-/

namespace Eds
namespace Server

open Effects

def maxFailures : Nat := 5

inductive Message where
  | restart
  | shutdown
  | exited (child : Nat) (code : Int)
  deriving DecidableEq

/-- Where `_terminate` returns to. -/
inductive After where
  | drain
  | complete
  deriving DecidableEq

/-- Where the main thread stands.  `checking` is the condition of the loop, `spawned` lies
between `Popen` and the start of the waiter thread, `waiting` is `events.get`, `terminating`
and `killing` are the two waits of `_terminate`, `draining` is `_drain_exited`, `finishing`
is the wait after a shutdown, and `ended` also follows an exception. -/
inductive Phase where
  | checking
  | spawned
  | waiting
  | terminating (next : After)
  | killing (next : After)
  | draining
  | finishing
  | ended
  deriving DecidableEq

/-- A child that is started, with those that are still alive; an exit acted on, with the
child started last; and a shutdown acted on. -/
inductive Obs where
  | started (alive : List Nat)
  | acted (child : Nat) (code : Int) (current : Nat)
  | stopping
  deriving DecidableEq

/-- `children` has the exit code of each child, in the order in which they were started, or
`none` while it is alive.  `waiters` are the children whose exit is not reported yet, and
`asked` says that the shutdown thread has put its event. -/
structure Supervisor where
  phase : Phase
  children : List (Option Int)
  waiters : List Nat
  queue : List Message
  asked : Bool
  failures : Nat
  completed : Bool
  exitCode : Int
  trace : List Obs
  deriving DecidableEq

namespace Supervisor

def initial : Supervisor where
  phase := .checking
  children := []
  waiters := []
  queue := []
  asked := false
  failures := 0
  completed := false
  exitCode := 1
  trace := []

/-- The child started last. -/
def current (s : Supervisor) : Nat := s.children.length - 1

def alive (s : Supervisor) : List Nat :=
  (List.range s.children.length).filter fun child => s.children[child]? = some none

/-- The child started last has exited. -/
def exited (s : Supervisor) : Bool := s.children.getLast?.join.isSome

def more (s : Supervisor) : Bool := decide (s.failures < maxFailures) && !s.completed

def start (s : Supervisor) : Supervisor :=
  { s with
    phase := .spawned
    children := s.children ++ [none]
    trace := s.trace ++ [.started s.alive] }

/-- The sleep after a failure is left out. -/
def act (child : Nat) (code : Int) (s : Supervisor) : Supervisor :=
  let s := { s with
    phase := .checking
    exitCode := code
    trace := s.trace ++ [Obs.acted child code s.current] }
  if code = 0 ∨ code = 1 then { s with completed := true }
  else { s with failures := s.failures + 1 }

def handle (rest : List Message) (s : Supervisor) : Message → Supervisor
  | .restart => { s with queue := rest, phase := .terminating .drain }
  | .shutdown => { s with queue := rest, phase := .finishing, trace := s.trace ++ [.stopping] }
  | .exited child code => act child code { s with queue := rest }

def complete (s : Supervisor) : Supervisor :=
  { s with phase := .checking, exitCode := 0, completed := true }

def resume (s : Supervisor) : After → Supervisor
  | .drain => { s with phase := .draining }
  | .complete => s.complete

/-- The next step of the main thread, unless it has to wait. -/
def next (s : Supervisor) : Option Supervisor :=
  match s.phase with
  | .checking => some (if s.more then s.start else { s with phase := .ended })
  | .spawned => some { s with waiters := s.waiters ++ [s.current], phase := .waiting }
  | .waiting => match s.queue with
    | [] => none
    | m :: rest => some (s.handle rest m)
  | .terminating after | .killing after => if s.exited then some (s.resume after) else none
  | .draining => match s.queue with
    | [] => some { s with phase := .checking }
    | _ :: rest => some { s with queue := rest }
  | .finishing => if s.exited then some s.complete else none
  | .ended => none

end Supervisor

/-- `timeout` and `spawnFails` are the main thread's own exceptions; the others are a child
that exits, a waiter thread that reports it, a request and the shutdown thread. -/
inductive Action where
  | loop
  | timeout
  | spawnFails
  | exits (child : Nat) (code : Int)
  | reports (child : Nat)
  | restart
  | shutdown
  deriving DecidableEq

def fire (s : Supervisor) : Action → Option Supervisor
  | .loop => s.next
  | .timeout => match s.phase with
    | .terminating after => some { s with phase := .killing after }
    | .finishing => some { s with phase := .terminating .complete }
    | _ => none
  | .spawnFails => if s.phase = .checking ∧ s.more then some { s with phase := .ended } else none
  | .exits child code =>
    if s.children[child]? = some none then
      some { s with children := s.children.set child (some code) }
    else none
  | .reports child =>
    match s.children[child]? with
    | some (some code) =>
      if child ∈ s.waiters then
        some { s with waiters := s.waiters.erase child, queue := s.queue ++ [.exited child code] }
      else none
    | _ => none
  | .restart => some { s with queue := s.queue ++ [.restart] }
  | .shutdown =>
    if s.asked then none else some { s with asked := true, queue := s.queue ++ [.shutdown] }

/-- Exits are taken for those of the right child, no child is started beside another, and a
shutdown is still to be acted on or has been. -/
structure Supervised (s : Supervisor) : Prop where
  acted : ∀ child code current, .acted child code current ∈ s.trace → child = current
  started : ∀ alive, .started alive ∈ s.trace → alive = []
  shutdown : s.asked = true → .shutdown ∈ s.queue ∨ .stopping ∈ s.trace

/-- A drain ends after the exit of the terminated child was reported, and takes no shutdown. -/
def timely (s : Supervisor) : Action → Bool
  | .loop => match s.phase, s.queue with
    | .draining, [] => decide (s.current ∉ s.waiters)
    | .draining, m :: _ => decide (m ≠ .shutdown)
    | _, _ => true
  | _ => true

/-! ## The invariant -/

def Message.isExit : Message → Bool
  | .exited _ _ => true
  | .restart | .shutdown => false

/-- The exits that are reported or to be reported, and not acted on yet. -/
def Supervisor.unread (s : Supervisor) : Nat := s.waiters.length + s.queue.countP Message.isExit

def Supervisor.Quiet (s : Supervisor) : Prop := ∀ i : Nat, s.children[i]? ≠ some none

structure Inv (s : Supervisor) : Prop where
  supervised : Supervised s
  alone : ∀ i : Nat, s.children[i]? = some none → i + 1 = s.children.length
  waiters : ∀ i ∈ s.waiters, i + 1 = s.children.length
  reported : ∀ i code, .exited i code ∈ s.queue →
    i + 1 = s.children.length ∧ s.children[i]? = some (some code)
  single : s.unread ≤ 1
  spawned : s.phase = .spawned → s.unread = 0 ∧ s.children ≠ []
  draining : s.phase = .draining → s.Quiet
  checking : s.phase = .checking → s.completed = true ∨ (s.Quiet ∧ s.unread = 0)

section Steps

variable {s t : Supervisor}

theorem inv_initial : Inv .initial where
  supervised := ⟨fun _ _ _ h => absurd h List.not_mem_nil, fun _ h => absurd h List.not_mem_nil, nofun⟩
  alone _ h := nomatch h
  waiters _ h := absurd h List.not_mem_nil
  reported _ _ h := absurd h List.not_mem_nil
  single := Nat.zero_le 1
  spawned := nofun
  draining := nofun
  checking _ := Or.inr ⟨fun _ h => (nomatch h), rfl⟩

theorem Supervised.congr (h : Supervised s) (htrace : t.trace = s.trace)
    (hasked : t.asked = s.asked) (hqueue : .shutdown ∈ s.queue → .shutdown ∈ t.queue) :
    Supervised t := by
  obtain ⟨hacted, hstarted, hshutdown⟩ := h
  refine ⟨?_, ?_, ?_⟩
  · rw [htrace]
    exact hacted
  · rw [htrace]
    exact hstarted
  · rw [htrace, hasked]
    exact fun h => (hshutdown h).imp hqueue id

/-- One more observation. -/
theorem Supervised.observe {o : Obs} (h : Supervised s) (htrace : t.trace = s.trace ++ [o])
    (hacted : ∀ child code current, o = .acted child code current → child = current)
    (hstarted : ∀ alive, o = .started alive → alive = [])
    (hshutdown : t.asked = true → .shutdown ∈ t.queue ∨ .stopping ∈ t.trace) : Supervised t := by
  refine ⟨fun child code current hmem => ?_, fun alive hmem => ?_, hshutdown⟩
  · rw [htrace] at hmem
    rcases List.mem_append.mp hmem with hmem | hmem
    · exact h.acted child code current hmem
    · exact hacted child code current (List.mem_singleton.mp hmem).symm
  · rw [htrace] at hmem
    rcases List.mem_append.mp hmem with hmem | hmem
    · exact h.started alive hmem
    · exact hstarted alive (List.mem_singleton.mp hmem).symm

/-- The main thread moves on, without a look at the children or the queue. -/
theorem Inv.move {phase : Phase} (h : Inv s) (hspawned : phase ≠ .spawned)
    (hdraining : phase = .draining → s.Quiet)
    (hchecking : phase = .checking → s.completed = true ∨ (s.Quiet ∧ s.unread = 0)) :
    Inv { s with phase := phase } where
  supervised := h.supervised.congr rfl rfl id
  alone := h.alone
  waiters := h.waiters
  reported := h.reported
  single := h.single
  spawned hphase := absurd hphase hspawned
  draining := hdraining
  checking := hchecking

theorem alive_eq_nil (h : s.Quiet) : s.alive = [] := by
  rw [Supervisor.alive, List.filter_eq_nil_iff]
  intro i _
  rw [decide_eq_true_iff]
  exact h i

theorem exited_quiet (h : Inv s) (hexited : s.exited = true) : s.Quiet := by
  intro i hi
  have hlast := h.alone i hi
  have hget : s.children.getLast? = some none := by
    rw [List.getLast?_eq_getElem?, ← hi]
    congr 1
    omega
  rw [Supervisor.exited, hget] at hexited
  cases hexited

theorem unread_zero (h : s.unread = 0) : s.waiters = [] ∧ ∀ i code, .exited i code ∉ s.queue := by
  have hwaiters : s.waiters.length = 0 := by
    unfold Supervisor.unread at h
    omega
  have hqueue : s.queue.countP Message.isExit = 0 := by
    unfold Supervisor.unread at h
    omega
  refine ⟨List.eq_nil_of_length_eq_zero hwaiters, fun i code hmem => ?_⟩
  exact List.countP_eq_zero.mp hqueue _ hmem rfl

theorem inv_start (h : Inv s) (hquiet : s.Quiet) (hunread : s.unread = 0) : Inv s.start := by
  obtain ⟨hwaiters, hqueue⟩ := unread_zero hunread
  have hlen : s.start.children.length = s.children.length + 1 := List.length_append
  have hsupervised : Supervised s.start := by
    refine h.supervised.observe rfl nofun (fun alive halive => ?_) fun hasked => ?_
    · rw [← Obs.started.inj halive]
      exact alive_eq_nil hquiet
    · exact (h.supervised.shutdown hasked).imp id (List.mem_append_left _)
  refine ⟨hsupervised, ?_, ?_, ?_, h.single, fun _ => ⟨hunread, List.concat_ne_nil _ _⟩, nofun, nofun⟩
  · intro i hi
    rw [hlen]
    rcases Nat.lt_trichotomy i s.children.length with hlt | heq | hgt
    · have hget : s.start.children[i]? = s.children[i]? := List.getElem?_append_left hlt
      rw [hget] at hi
      exact absurd hi (hquiet i)
    · omega
    · rw [List.getElem?_eq_none (by rw [hlen]; omega)] at hi
      cases hi
  · intro i hi
    rw [show s.start.waiters = s.waiters from rfl, hwaiters] at hi
    exact absurd hi List.not_mem_nil
  · exact fun i code hmem => absurd hmem (hqueue i code)

/-- An event that is on the queue, at its head. -/
theorem Inv.pop {m : Message} {rest : List Message} (h : Inv s) (hqueue : s.queue = m :: rest)
    (hphase : s.phase = .waiting ∨ s.phase = .draining) (hm : m ≠ .shutdown) :
    Inv { s with queue := rest } := by
  have hunread : Supervisor.unread { s with queue := rest } ≤ s.unread := by
    show s.waiters.length + rest.countP Message.isExit ≤ s.unread
    rw [Supervisor.unread, hqueue, List.countP_cons]
    omega
  refine ⟨?_, h.alone, h.waiters, fun i code hmem => ?_, Nat.le_trans hunread h.single, fun hsame => ?_,
    h.draining, fun hsame => ?_⟩
  · refine h.supervised.congr rfl rfl fun hmem => ?_
    rw [hqueue] at hmem
    exact (List.mem_cons.mp hmem).resolve_left (Ne.symm hm)
  · refine h.reported i code ?_
    rw [hqueue]
    exact List.mem_cons_of_mem m hmem
  · rcases hphase with hphase | hphase <;> cases hphase.symm.trans hsame
  · rcases hphase with hphase | hphase <;> cases hphase.symm.trans hsame

/-- The exit on the queue is that of the child started last, and the only one. -/
theorem inv_act {child : Nat} {code : Int} {rest : List Message} (h : Inv s)
    (hqueue : s.queue = .exited child code :: rest) (hphase : s.phase = .waiting) :
    Inv (Supervisor.act child code { s with queue := rest }) := by
  obtain ⟨hlast, hexited⟩ := h.reported child code (by rw [hqueue]; exact List.mem_cons_self)
  have hpop := h.pop hqueue (Or.inl hphase) nofun
  have hquiet : s.Quiet := by
    intro i hi
    have hsame : i = child := by
      have hi := h.alone i hi
      omega
    rw [hsame, hexited] at hi
    cases hi
  have hunread : Supervisor.unread { s with queue := rest } = 0 := by
    have hsingle := h.single
    unfold Supervisor.unread at hsingle ⊢
    rw [hqueue, List.countP_cons_of_pos rfl] at hsingle
    show s.waiters.length + rest.countP Message.isExit = 0
    omega
  have htrace : ∀ (u : Supervisor),
      u.trace = s.trace ++ [Obs.acted child code s.current] → u.asked = s.asked → u.queue = rest →
      Supervised u := by
    intro u htrace hasked hrest
    refine hpop.supervised.observe htrace (fun child' code' current hacted => ?_) nofun fun hyes => ?_
    · obtain ⟨rfl, rfl, rfl⟩ := Obs.acted.inj hacted
      rw [Supervisor.current]
      omega
    · rw [hasked] at hyes
      rw [htrace, hrest]
      exact (hpop.supervised.shutdown hyes).imp id (List.mem_append_left _)
  unfold Supervisor.act
  dsimp only
  split
  · exact ⟨htrace _ rfl rfl rfl, hpop.alone, hpop.waiters, hpop.reported, hpop.single, nofun, nofun,
      fun _ => Or.inl rfl⟩
  · exact ⟨htrace _ rfl rfl rfl, hpop.alone, hpop.waiters, hpop.reported, hpop.single, nofun, nofun,
      fun _ => Or.inr ⟨hquiet, hunread⟩⟩

theorem inv_stopping {rest : List Message} (h : Inv s) (hqueue : s.queue = .shutdown :: rest) :
    Inv { s with queue := rest, phase := .finishing, trace := s.trace ++ [.stopping] } := by
  have hunread : s.waiters.length + rest.countP Message.isExit ≤ 1 := by
    have hsingle := h.single
    rw [Supervisor.unread, hqueue, List.countP_cons_of_neg (by decide)] at hsingle
    exact hsingle
  refine ⟨h.supervised.observe rfl nofun nofun fun _ => ?_, h.alone, h.waiters, fun i code hmem => ?_,
    hunread, nofun, nofun, nofun⟩
  · exact Or.inr (List.mem_append_right _ (List.mem_singleton_self _))
  · refine h.reported i code ?_
    rw [hqueue]
    exact List.mem_cons_of_mem _ hmem

theorem inv_complete (h : Inv s) : Inv s.complete where
  supervised := h.supervised.congr rfl rfl id
  alone := h.alone
  waiters := h.waiters
  reported := h.reported
  single := h.single
  spawned := nofun
  draining := nofun
  checking _ := Or.inl rfl

/-! ### One step -/

theorem inv_resume {after : After} (h : Inv s) (hexited : s.exited = true) :
    Inv (s.resume after) := by
  cases after with
  | drain => exact h.move nofun (fun _ => exited_quiet h hexited) nofun
  | complete => exact inv_complete h

/-- The waiter thread of the child that was just started. -/
theorem inv_watch (h : Inv s) (hphase : s.phase = .spawned) :
    Inv { s with waiters := s.waiters ++ [s.current], phase := .waiting } := by
  obtain ⟨hunread, hsome⟩ := h.spawned hphase
  obtain ⟨hwaiters, _⟩ := unread_zero hunread
  have hpos : 0 < s.children.length := List.length_pos_of_ne_nil hsome
  refine ⟨h.supervised.congr rfl rfl id, h.alone, fun i hi => ?_, h.reported, ?_, nofun, nofun, nofun⟩
  · rw [hwaiters] at hi
    rw [List.mem_singleton.mp hi, Supervisor.current]
    show s.children.length - 1 + 1 = s.children.length
    omega
  · show (s.waiters ++ [s.current]).length + s.queue.countP Message.isExit ≤ 1
    rw [Supervisor.unread] at hunread
    rw [List.length_append, List.length_singleton]
    omega

theorem inv_next (h : Inv s) (htimely : timely s .loop = true) (hnext : s.next = some t) : Inv t := by
  cases hphase : s.phase with
  | checking =>
    have hnext : (if s.more then s.start else { s with phase := .ended }) = t := by
      simpa [Supervisor.next, hphase] using hnext
    by_cases hmore : s.more = true
    · rw [if_pos hmore] at hnext
      have hopen : s.completed = false := by
        simp only [Supervisor.more, Bool.and_eq_true, Bool.not_eq_true'] at hmore
        exact hmore.2
      rcases h.checking hphase with hdone | ⟨hquiet, hunread⟩
      · rw [hopen] at hdone
        cases hdone
      · exact hnext ▸ inv_start h hquiet hunread
    · rw [if_neg hmore] at hnext
      exact hnext ▸ h.move nofun nofun nofun
  | spawned =>
    have hnext : { s with waiters := s.waiters ++ [s.current], phase := .waiting } = t := by
      simpa [Supervisor.next, hphase] using hnext
    exact hnext ▸ inv_watch h hphase
  | waiting =>
    cases hqueue : s.queue with
    | nil => simp [Supervisor.next, hphase, hqueue] at hnext
    | cons m rest =>
      have hnext : s.handle rest m = t := by simpa [Supervisor.next, hphase, hqueue] using hnext
      subst hnext
      cases m with
      | restart => exact (h.pop hqueue (Or.inl hphase) nofun).move nofun nofun nofun
      | shutdown => exact inv_stopping h hqueue
      | exited child code => exact inv_act h hqueue hphase
  | terminating after =>
    have hnext : s.exited = true ∧ s.resume after = t := by
      simpa [Supervisor.next, hphase] using hnext
    exact hnext.2 ▸ inv_resume h hnext.1
  | killing after =>
    have hnext : s.exited = true ∧ s.resume after = t := by
      simpa [Supervisor.next, hphase] using hnext
    exact hnext.2 ▸ inv_resume h hnext.1
  | draining =>
    cases hqueue : s.queue with
    | nil =>
      have hnext : { s with phase := .checking } = t := by
        simpa [Supervisor.next, hphase, hqueue] using hnext
      have htimely : s.current ∉ s.waiters := by simpa [timely, hphase, hqueue] using htimely
      have hwaiters : s.waiters = [] := by
        refine List.eq_nil_iff_forall_not_mem.mpr fun i hi => htimely ?_
        have hlast := h.waiters i hi
        have hsame : s.current = i := by
          rw [Supervisor.current]
          omega
        rw [hsame]
        exact hi
      have hunread : s.unread = 0 := by
        rw [Supervisor.unread, hwaiters, hqueue]
        rfl
      exact hnext ▸ h.move nofun nofun fun _ => Or.inr ⟨h.draining hphase, hunread⟩
    | cons m rest =>
      have hnext : { s with queue := rest } = t := by
        simpa [Supervisor.next, hphase, hqueue] using hnext
      have htimely : m ≠ .shutdown := by simpa [timely, hphase, hqueue] using htimely
      exact hnext ▸ h.pop hqueue (Or.inr hphase) htimely
  | finishing =>
    have hnext : s.exited = true ∧ s.complete = t := by
      simpa [Supervisor.next, hphase] using hnext
    exact hnext.2 ▸ inv_complete h
  | ended => simp [Supervisor.next, hphase] at hnext

/-- An event other than an exit is put on the queue. -/
theorem inv_put {m : Message} {asked : Bool} (h : Inv s) (hm : m.isExit = false)
    (hasked : asked = true → s.asked = true ∨ m = .shutdown) :
    Inv { s with asked := asked, queue := s.queue ++ [m] } := by
  have hunread : Supervisor.unread { s with asked := asked, queue := s.queue ++ [m] } = s.unread := by
    show s.waiters.length + (s.queue ++ [m]).countP Message.isExit = s.unread
    rw [List.countP_append, List.countP_singleton, hm]
    rfl
  refine ⟨⟨h.supervised.acted, h.supervised.started, fun hyes => ?_⟩, h.alone, h.waiters,
    fun i code hmem => ?_, hunread ▸ h.single, hunread ▸ h.spawned, h.draining, hunread ▸ h.checking⟩
  · rcases hasked hyes with hasked | rfl
    · exact (h.supervised.shutdown hasked).imp (List.mem_append_left _) id
    · exact Or.inl (List.mem_append_right _ (List.mem_singleton_self _))
  · rcases List.mem_append.mp hmem with hmem | hmem
    · exact h.reported i code hmem
    · rw [← List.mem_singleton.mp hmem] at hm
      cases hm

theorem inv_exits {child : Nat} {code : Int} (h : Inv s) (halive : s.children[child]? = some none) :
    Inv { s with children := s.children.set child (some code) } := by
  have hget : ∀ i : Nat, (s.children.set child (some code))[i]? = some none →
      s.children[i]? = some none := by
    intro i hi
    rw [List.getElem?_set] at hi
    split at hi
    · split at hi <;> cases hi
    · exact hi
  have hquiet : s.Quiet → Supervisor.Quiet { s with children := s.children.set child (some code) } :=
    fun hquiet i hi => hquiet i (hget i hi)
  refine ⟨h.supervised.congr rfl rfl id, fun i hi => ?_, fun i hi => ?_, fun i code' hmem => ?_,
    h.single, fun hphase => ?_, fun hphase => hquiet (h.draining hphase), fun hphase => ?_⟩
  · show i + 1 = (s.children.set child (some code)).length
    rw [List.length_set]
    exact h.alone i (hget i hi)
  · show i + 1 = (s.children.set child (some code)).length
    rw [List.length_set]
    exact h.waiters i hi
  · show i + 1 = (s.children.set child (some code)).length ∧
      (s.children.set child (some code))[i]? = some (some code')
    obtain ⟨hlast, hexited⟩ := h.reported i code' hmem
    have hother : child ≠ i := by
      intro hsame
      rw [hsame, hexited] at halive
      cases halive
    rw [List.length_set, List.getElem?_set_ne hother]
    exact ⟨hlast, hexited⟩
  · obtain ⟨hunread, hsome⟩ := h.spawned hphase
    refine ⟨hunread, fun hnone => hsome ?_⟩
    have hlen : (s.children.set child (some code)).length = 0 := congrArg List.length hnone
    rw [List.length_set] at hlen
    exact List.eq_nil_of_length_eq_zero hlen
  · exact (h.checking hphase).imp id fun hidle => ⟨hquiet hidle.1, hidle.2⟩

/-- The exit of a child moves from its waiter to the queue. -/
theorem inv_reports {child : Nat} {code : Int} (h : Inv s)
    (hexited : s.children[child]? = some (some code)) (hwaits : child ∈ s.waiters) :
    Inv { s with waiters := s.waiters.erase child, queue := s.queue ++ [.exited child code] } := by
  have hunread : Supervisor.unread
      { s with waiters := s.waiters.erase child, queue := s.queue ++ [.exited child code] } =
      s.unread := by
    show (s.waiters.erase child).length + (s.queue ++ [Message.exited child code]).countP Message.isExit =
      s.waiters.length + s.queue.countP Message.isExit
    have hpos : 0 < s.waiters.length := List.length_pos_of_mem hwaits
    rw [List.length_erase_of_mem hwaits, List.countP_append, List.countP_singleton,
      show (Message.exited child code).isExit = true from rfl, if_pos rfl]
    omega
  refine ⟨h.supervised.congr rfl rfl (List.mem_append_left _), h.alone,
    fun i hi => h.waiters i (List.mem_of_mem_erase hi), fun i code' hmem => ?_, hunread ▸ h.single,
    hunread ▸ h.spawned, h.draining, hunread ▸ h.checking⟩
  rcases List.mem_append.mp hmem with hmem | hmem
  · exact h.reported i code' hmem
  · cases List.mem_singleton.mp hmem
    exact ⟨h.waiters child hwaits, hexited⟩

theorem inv_step (a : Action) (h : Inv s) (htimely : timely s a = true) (hfire : fire s a = some t) :
    Inv t := by
  cases a with
  | loop => exact inv_next h htimely hfire
  | timeout =>
    cases hphase : s.phase with
    | terminating after =>
      have hfire : { s with phase := .killing after } = t := by simpa [fire, hphase] using hfire
      exact hfire ▸ h.move nofun nofun nofun
    | finishing =>
      have hfire : { s with phase := .terminating .complete } = t := by
        simpa [fire, hphase] using hfire
      exact hfire ▸ h.move nofun nofun nofun
    | _ => simp [fire, hphase] at hfire
  | spawnFails =>
    have hfire : (s.phase = .checking ∧ s.more = true) ∧ { s with phase := .ended } = t := by
      simpa [fire] using hfire
    exact hfire.2 ▸ h.move nofun nofun nofun
  | exits child code =>
    have hfire : s.children[child]? = some none ∧
        { s with children := s.children.set child (some code) } = t := by
      simpa [fire] using hfire
    exact hfire.2 ▸ inv_exits h hfire.1
  | reports child =>
    cases hchild : s.children[child]? with
    | none => simp [fire, hchild] at hfire
    | some exit =>
      cases exit with
      | none => simp [fire, hchild] at hfire
      | some code =>
        have hfire : child ∈ s.waiters ∧ { s with
            waiters := s.waiters.erase child
            queue := s.queue ++ [.exited child code] } = t := by
          simpa [fire, hchild] using hfire
        exact hfire.2 ▸ inv_reports h hchild hfire.1
  | restart =>
    have hfire : { s with queue := s.queue ++ [.restart] } = t := by simpa [fire] using hfire
    exact hfire ▸ inv_put h rfl Or.inl
  | shutdown =>
    have hfire : s.asked = false ∧ { s with asked := true, queue := s.queue ++ [.shutdown] } = t := by
      simpa [fire] using hfire
    exact hfire.2 ▸ inv_put h rfl fun _ => Or.inr rfl

end Steps

/-! ## Every run -/

/-- In every run whose drains are all timely, every state is supervised. -/
theorem supervised_of_timely (actions : List Action) (s : Supervisor)
    (h : follow fire timely actions .initial = some s) : Supervised s := by
  have hinv : Inv s := follow_invariant (fun _ a _ hallowed hfire hs => inv_step a hs hallowed hfire)
    h inv_initial
  exact hinv.supervised

/-- Any step may be taken at any time. -/
def anytime (_ : Supervisor) (_ : Action) : Bool := true

/-- The first child is terminated, and its exit is reported when the second one runs. -/
def lateReport : List Action :=
  [.loop, .loop, .restart, .loop, .exits 0 (-15), .loop, .loop, .loop, .loop, .reports 0, .loop, .loop]

/-- A shutdown arrives between a restart and the drain after it. -/
def drainedShutdown : List Action :=
  [.loop, .loop, .restart, .shutdown, .loop, .exits 0 (-15), .loop, .loop]

/-- A late report is taken for the exit of the second child, and a third one is started beside
it; and a drained shutdown is neither acted on nor left to be. -/
theorem supervision_lost :
    (∃ s, follow fire anytime lateReport .initial = some s ∧
      .acted 0 (-15) 1 ∈ s.trace ∧ .started [1] ∈ s.trace) ∧
    ∃ s, follow fire anytime drainedShutdown .initial = some s ∧
      s.asked = true ∧ .shutdown ∉ s.queue ∧ .stopping ∉ s.trace := by
  refine ⟨⟨_, rfl, ?_, ?_⟩, ⟨_, rfl, ?_, ?_, ?_⟩⟩ <;> decide

/-- A restart whose exit is reported before the drain ends, and a shutdown after it. -/
def restartThenShutdown : List Action :=
  [.loop, .loop, .restart, .loop, .exits 0 (-15), .loop, .reports 0, .loop, .loop, .loop, .loop,
    .shutdown, .loop, .exits 1 0, .loop, .loop]

theorem supervised_of_timely_restart :
    ∃ s, follow fire timely restartThenShutdown .initial = some s ∧ s.phase = .ended ∧ Supervised s :=
  ⟨_, rfl, rfl, supervised_of_timely restartThenShutdown _ rfl⟩

end Server
end Eds
