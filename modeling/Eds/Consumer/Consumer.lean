import Eds.Consumer.Bufferer

/-!
# The consumer

A started consumer is four parties around a bounded queue.  The server numbers the
messages it delivers to the subscription.  The fetch loop asks the subscription for
messages and puts what a fetch returned into the queue, one at a time, waiting while
the queue is full.  The drain task takes them out.  And `pause`, `unpause` and `stop`
are called by the control loop, by the disconnect callbacks and by the report of a
fatal error.

An `Act` is what one of them does between two points where it can be interrupted.
An act that is not enabled changes nothing.  Cancelling the fetch loop ends it at
the `await` it is in, the fetch or the put, and what it held is gone; unsubscribing
drops what was delivered and not fetched; a fetch that raises may take messages with
it; and a delivery needs a subscription.  Of several calls of `stop` only the first
goes on.
-/

namespace Eds
namespace Consumer

open Effects Effects.Prog Effects.Traced

variable {W M : Type}

/-- `rest` has been fetched and is not queued yet. -/
inductive FetchLoop (M : Type) where
  | off
  | fetching
  | putting (rest : List M)
  deriving DecidableEq

def FetchLoop.held : FetchLoop M → List M
  | off | fetching => []
  | putting rest => rest

/-- How far the call of `stop` that took effect has come: it has set `_stopping`, the
fetch loop is cancelled, the drain task is asked to end, everything is closed. -/
inductive Stopping where
  | no
  | entered (graceful : Bool)
  | quiesced (graceful : Bool)
  | awaiting
  | closed
  deriving DecidableEq

/-- `bound` when `_psub` is set, `inbox` what was delivered to the subscription and
not fetched, `next` the number of the next delivery. -/
structure ConsumerState (W M : Type) where
  drain : Bufferer W M
  loop : FetchLoop M
  bound : Bool
  subscribed : Bool
  inbox : List M
  next : Int
  stopping : Stopping

/-- A fetch returns or drops the first messages of the inbox, as many as it says.
`ask` is the sentinel or the cancel event, `join` the bounded wait for the drain
task, which is cancelled when the time is over. -/
inductive Act (M : Type) where
  | turn
  | timeout
  | deliver (m : M)
  | fetched (count : Nat)
  | fetchRaised (count : Nat)
  | put
  | pause
  | unpause
  | stop (graceful : Bool)
  | quiesce
  | ask
  | askTimeout
  | joined
  | joinTimeout

/-- A queue of no positive size is unbounded. -/
def hasRoom (maxsize : Int) (queue : List (Option M)) : Bool :=
  decide (maxsize ≤ 0) || decide ((queue.length : Int) < maxsize)

namespace ConsumerState

/-- `stop` cancels the fetch loop and unsubscribes. -/
def quiesce (c : ConsumerState W M) : ConsumerState W M :=
  match c.stopping with
  | .entered graceful =>
    { c with loop := .off, subscribed := false, inbox := [], stopping := .quiesced graceful }
  | _ => c

section Machine

variable [DecidableEq M] (cfg : Config) (env : Env W M) (seqOf : M → Int) (maxsize : Int)

def put (c : ConsumerState W M) : ConsumerState W M :=
  match c.loop with
  | .putting [] => { c with loop := .fetching }
  | .putting (m :: rest) =>
    if hasRoom maxsize c.drain.queue then
      { c with drain := c.drain.step cfg env (.put (some m)), loop := .putting rest }
    else c
  | _ => c

def ask (c : ConsumerState W M) : ConsumerState W M :=
  match c.stopping with
  | .quiesced graceful =>
    if c.drain.pc.running then
      if graceful then
        if hasRoom maxsize c.drain.queue then
          { c with drain := c.drain.step cfg env (.put none), stopping := .awaiting }
        else c
      else { c with drain := c.drain.step cfg env .setCancel, stopping := .awaiting }
    else { c with stopping := .awaiting }
  | _ => c

def step (c : ConsumerState W M) : Act M → ConsumerState W M
  | .turn => { c with drain := c.drain.step cfg env .turn }
  | .timeout => { c with drain := c.drain.step cfg env .timeout }
  | .deliver m =>
    if seqOf m = c.next then
      { c with inbox := if c.subscribed then c.inbox ++ [m] else c.inbox, next := c.next + 1 }
    else c
  | .fetched count =>
    if c.loop = .fetching then
      { c with loop := .putting (c.inbox.take count), inbox := c.inbox.drop count }
    else c
  | .fetchRaised count =>
    if c.loop = .fetching then { c with inbox := c.inbox.drop count } else c
  | .put => c.put cfg env maxsize
  | .pause => { c with loop := .off, bound := false, subscribed := false, inbox := [] }
  | .unpause =>
    if c.bound then c
    else { c with loop := .fetching, bound := true, subscribed := true, inbox := [] }
  | .stop graceful => if c.stopping = .no then { c with stopping := .entered graceful } else c
  | .quiesce => c.quiesce
  | .ask => c.ask cfg env maxsize
  | .askTimeout => if c.stopping = .quiesced true then { c with stopping := .awaiting } else c
  | .joined =>
    if c.stopping = .awaiting ∧ c.drain.pc.running = false then { c with stopping := .closed } else c
  | .joinTimeout =>
    if c.stopping = .awaiting then
      { c with drain := c.drain.step cfg env .kill, stopping := .closed }
    else c

def exec (c : ConsumerState W M) (acts : List (Act M)) : ConsumerState W M :=
  acts.foldl (step cfg env seqOf maxsize) c

end Machine

/-- `start` has returned: the loop has begun to fetch and nothing is queued.  The
server's last number is the processor's. -/
def started (sequence : Int) (w : W) : ConsumerState W M where
  drain := Bufferer.initial [] false sequence w
  loop := .fetching
  bound := true
  subscribed := true
  inbox := []
  next := sequence + 1
  stopping := .no

/-! ## What an act can do -/

section Steps

variable [DecidableEq M] (cfg : Config) (env : Env W M) (seqOf : M → Int) (maxsize : Int)

inductive Transition (c : ConsumerState W M) : Act M → ConsumerState W M → Prop where
  | disabled {a : Act M} : Transition c a c
  | turn : Transition c .turn { c with drain := c.drain.step cfg env .turn }
  | timeout : Transition c .timeout { c with drain := c.drain.step cfg env .timeout }
  | deliver {m : M} (h : seqOf m = c.next) :
      Transition c (.deliver m)
        { c with inbox := if c.subscribed then c.inbox ++ [m] else c.inbox, next := c.next + 1 }
  | fetched {count : Nat} (h : c.loop = .fetching) :
      Transition c (.fetched count)
        { c with loop := .putting (c.inbox.take count), inbox := c.inbox.drop count }
  | fetchRaised {count : Nat} (h : c.loop = .fetching) :
      Transition c (.fetchRaised count) { c with inbox := c.inbox.drop count }
  | fetchAgain (h : c.loop = .putting []) : Transition c .put { c with loop := .fetching }
  | put {m : M} {rest : List M} (h : c.loop = .putting (m :: rest)) :
      Transition c .put
        { c with drain := c.drain.step cfg env (.put (some m)), loop := .putting rest }
  | pause :
      Transition c .pause { c with loop := .off, bound := false, subscribed := false, inbox := [] }
  | unpause (h : c.bound = false) :
      Transition c .unpause
        { c with loop := .fetching, bound := true, subscribed := true, inbox := [] }
  | stop {graceful : Bool} (h : c.stopping = .no) :
      Transition c (.stop graceful) { c with stopping := .entered graceful }
  | quiesce {graceful : Bool} (h : c.stopping = .entered graceful) :
      Transition c .quiesce
        { c with loop := .off, subscribed := false, inbox := [], stopping := .quiesced graceful }
  | sentinel (h : c.stopping = .quiesced true) :
      Transition c .ask { c with drain := c.drain.step cfg env (.put none), stopping := .awaiting }
  | cancel (h : c.stopping = .quiesced false) :
      Transition c .ask { c with drain := c.drain.step cfg env .setCancel, stopping := .awaiting }
  | await {a : Act M} {graceful : Bool} (h : c.stopping = .quiesced graceful) :
      Transition c a { c with stopping := .awaiting }
  | close {a : Act M} (h : c.stopping = .awaiting) : Transition c a { c with stopping := .closed }
  | kill (h : c.stopping = .awaiting) :
      Transition c .joinTimeout
        { c with drain := c.drain.step cfg env .kill, stopping := .closed }

variable {cfg env seqOf maxsize} {c : ConsumerState W M}

theorem put_transition : Transition cfg env seqOf c .put (c.put cfg env maxsize) := by
  unfold put
  split
  · next hloop => exact .fetchAgain hloop
  · next m rest hloop =>
    split
    · exact .put hloop
    · exact .disabled
  · exact .disabled

theorem ask_transition : Transition cfg env seqOf c .ask (c.ask cfg env maxsize) := by
  unfold ask
  split
  · next graceful hstop =>
    split
    · cases graceful with
      | true =>
        rw [if_pos rfl]
        split
        · exact .sentinel hstop
        · exact .disabled
      | false => exact .cancel hstop
    · exact .await hstop
  · exact .disabled

theorem step_transition (a : Act M) :
    Transition cfg env seqOf c a (c.step cfg env seqOf maxsize a) := by
  cases a with
  | turn => exact .turn
  | timeout => exact .timeout
  | deliver m =>
    show Transition _ _ _ _ _ (if _ then _ else _)
    split
    · next h => exact .deliver h
    · exact .disabled
  | fetched count =>
    show Transition _ _ _ _ _ (if _ then _ else _)
    split
    · next h => exact .fetched h
    · exact .disabled
  | fetchRaised count =>
    show Transition _ _ _ _ _ (if _ then _ else _)
    split
    · next h => exact .fetchRaised h
    · exact .disabled
  | put => exact put_transition
  | pause => exact .pause
  | unpause =>
    show Transition _ _ _ _ _ (if _ then _ else _)
    split
    · exact .disabled
    · next h => exact .unpause (Bool.not_eq_true _ ▸ h)
  | stop graceful =>
    show Transition _ _ _ _ _ (if _ then _ else _)
    split
    · next h => exact .stop h
    · exact .disabled
  | quiesce =>
    show Transition _ _ _ _ _ c.quiesce
    unfold quiesce
    split
    · next h => exact .quiesce h
    · exact .disabled
  | ask => exact ask_transition
  | askTimeout =>
    show Transition _ _ _ _ _ (if _ then _ else _)
    split
    · next h => exact .await h
    · exact .disabled
  | joined =>
    show Transition _ _ _ _ _ (if _ then _ else _)
    split
    · next h => exact .close h.1
    · exact .disabled
  | joinTimeout =>
    show Transition _ _ _ _ _ (if _ then _ else _)
    split
    · next h => exact .kill h
    · exact .disabled

/-- The drain task of a consumer makes a run of its own. -/
theorem exec_drain (c : ConsumerState W M) (acts : List (Act M)) :
    ∃ moves, (c.exec cfg env seqOf maxsize acts).drain = c.drain.exec cfg env moves := by
  induction acts generalizing c with
  | nil => exact ⟨[], rfl⟩
  | cons a rest ih =>
    have hstep : ∃ moves, (c.step cfg env seqOf maxsize a).drain = c.drain.exec cfg env moves := by
      generalize hc' : c.step cfg env seqOf maxsize a = c'
      have h : Transition cfg env seqOf c a (c.step cfg env seqOf maxsize a) := step_transition a
      rw [hc'] at h
      cases h with
      | turn => exact ⟨[.turn], rfl⟩
      | timeout => exact ⟨[.timeout], rfl⟩
      | put h => exact ⟨[.put (some _)], rfl⟩
      | sentinel h => exact ⟨[.put none], rfl⟩
      | cancel h => exact ⟨[.setCancel], rfl⟩
      | kill h => exact ⟨[.kill], rfl⟩
      | _ => exact ⟨[], rfl⟩
    obtain ⟨first, hfirst⟩ := hstep
    obtain ⟨more, hmore⟩ := ih (c.step cfg env seqOf maxsize a)
    refine ⟨first ++ more, ?_⟩
    show (ConsumerState.exec cfg env seqOf maxsize (c.step cfg env seqOf maxsize a) rest).drain = _
    rw [hmore, hfirst]
    exact (List.foldl_append ..).symm

end Steps

end ConsumerState
end Consumer
end Eds
