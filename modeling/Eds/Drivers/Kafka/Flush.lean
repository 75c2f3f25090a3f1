import Eds.Effects.Traced
import Eds.Import.Recovery

/-!
# The flush of the Kafka driver

`flush` produces the whole batch and waits for the producer; while the leader is not available
it does so again, for ten seconds.  A callback of a message whose delivery failed adds to the
list of errors of its attempt, and the first of them is raised.

What the producer does is a program over a world `W` of which nothing is known.  Each of its
calls answers with the callbacks that ran during it, and each callback carries the ticket of
the `produce` that it belongs to: the attempt and the place of the message in the batch.

Two ways of a normal return leave messages without a callback, and the batch is cleared all
the same: the ten seconds are over, or `producer.flush(10)` gives up before all callbacks have
run.  `flush_published_or_expired` says what is known of a normal return.
-/

namespace Eds
namespace Drivers
namespace Kafka

open Effects Effects.Prog Effects.Traced

variable {W : Type}

/-! ## Exceptions -/

structure KafkaError where
  code : Int
  text : String
  deriving DecidableEq

/-- `base` is what is outside `Exception`. -/
inductive Failure where
  | kafka (err : KafkaError)
  | exception (msg : String)
  | base (msg : String)
  deriving DecidableEq

def Failure.isException : Failure → Bool
  | base _ => false
  | kafka _ | exception _ => true

def Failure.str : Failure → String
  | kafka err => err.text
  | exception msg | base msg => msg

/-- `KafkaError.LEADER_NOT_AVAILABLE` -/
def leaderNotAvailable : Int := 5

def isLeaderNotAvailable (e : Failure) : Bool :=
  match e with
  | .kafka err =>
    err.code = leaderNotAvailable ||
      Import.contains (Import.lower err.text) "leader not available".toList
  | .exception msg | .base msg => Import.contains (Import.lower msg) "leader not available".toList

/-! ## The balancer -/

def fnv32Offset : Nat := 0x811C9DC5

def fnv32Prime : Nat := 0x01000193

def fnv1a32 (data : List UInt8) : Nat :=
  data.foldl (fun h b => ((h ^^^ b.toNat) * fnv32Prime) % 2 ^ 32) fnv32Offset

def modulo (value : String) (num : Nat) : Nat := fnv1a32 value.toUTF8.toList % num

/-- `hash` is `eds_hash`, the hexadecimal digits of an xxHash. -/
def balance (hash : String → String) (partitionKeyHeader : Option String) (msgKey : String)
    (partitionCount : Nat) : Nat :=
  if partitionCount = 1 then 0 else modulo (hash (partitionKeyHeader.getD msgKey)) partitionCount

/-! ## The driver -/

structure Message where
  key : String
  value : String
  pkey : String
  deriving DecidableEq

structure TopicMetadata where
  error : Option KafkaError
  partitions : Nat

structure Ticket where
  attempt : Nat
  index : Nat
  deriving DecidableEq

/-- A call of `on_delivery`. -/
structure Delivery where
  ticket : Ticket
  err : Option KafkaError
  deriving DecidableEq

/-- The clock in nanoseconds; `listTopics` answers with the metadata of the driver's own topic. -/
structure Env (W : Type) where
  topic : String
  hash : String → String
  monotonic : W → Int × W
  listTopics : Prog Failure W (Option TopicMetadata)
  produce : Ticket → Message → Nat → Prog Failure W (List Delivery)
  flush : Prog Failure W (List Delivery)
  sleep : Prog Failure W Unit

/-- `attempt` numbers the attempts, which the source tells apart by their lists of errors. -/
structure Vars where
  pending : List Message
  partitionCount : Nat
  attempt : Nat

/-- `unavailable` is an attempt that is made again, `expired` the end of the ten seconds. -/
inductive Obs where
  | attempt (n : Nat)
  | produced (ticket : Ticket) (m : Message) (partition : Nat)
  | delivered (ticket : Ticket) (err : Option KafkaError)
  | unavailable (e : Failure)
  | expired
  deriving DecidableEq

abbrev State (W : Type) := Traced Vars W Obs

abbrev Proc (W α : Type) := Prog Failure (State W) α

def now (env : Env W) : Proc W Int := outside fun w => (.ok (env.monotonic w).1, (env.monotonic w).2)

def unresolved (topic : String) : Failure :=
  .exception s!"unable to resolve partition count for topic {topic}"

def resolvePartitionCount (env : Env W) : Proc W Nat := do
  let count ← read Vars.partitionCount
  if 0 < count then pure count
  else do
    let md ← outside env.listTopics
    match md with
    | none => raise (unresolved env.topic)
    | some topicMd => match topicMd.error with
      | some err => raise (.kafka err)
      | none =>
        if topicMd.partitions = 0 then raise (unresolved env.topic)
        else do
          assign fun v => { v with partitionCount := topicMd.partitions }
          pure topicMd.partitions

/-- A call of the producer, with the callbacks that run during it. -/
def serve (p : Prog Failure W (List Delivery)) : Proc W (List Delivery) := do
  let ds ← outside p
  each (fun d => note (.delivered d.ticket d.err)) ds
  pure ds

def produceEach (env : Env W) (n count : Nat) : Nat → List Message → Proc W (List Delivery)
  | _, [] => pure []
  | i, m :: rest => do
    let partition := balance env.hash (some m.pkey) m.key count
    note (.produced ⟨n, i⟩ m partition)
    let ds ← serve (env.produce ⟨n, i⟩ m partition)
    let more ← produceEach env n count (i + 1) rest
    pure (ds ++ more)

/-- The list `errors` of an attempt, after the callbacks `ds`. -/
def errorsOf (n : Nat) (ds : List Delivery) : List KafkaError :=
  (ds.filter fun d => d.ticket.attempt = n).filterMap Delivery.err

def produceAll (env : Env W) : Proc W Unit := do
  assign fun v => { v with attempt := v.attempt + 1 }
  let n ← read Vars.attempt
  note (.attempt n)
  let count ← resolvePartitionCount env
  let pending ← read Vars.pending
  let ds ← produceEach env n count 0 pending
  -- What `producer.flush(10)` returns, the number of messages left, is not looked at.
  let more ← serve env.flush
  match errorsOf n (ds ++ more) with
  | [] => pure ()
  | err :: _ => raise (.kafka err)

/-- One round of the loop; the result says whether there is to be another. -/
def round (env : Env W) : Proc W Bool :=
  handle (do produceAll env; pure false) fun e =>
    if e.isException then
      if isLeaderNotAvailable e then do
        note (.unavailable e)
        outside env.sleep
        pure true
      else raise (.exception s!"error publishing message. {e.str}")
    else raise e

def tenSeconds : Int := 10 * 10 ^ 9

/-- Each round takes one unit of the fuel, and `none` means that there was too little of it. -/
def rounds (env : Env W) (started : Int) : Nat → Proc W (Option Unit)
  | 0 => pure none
  | fuel + 1 => do
    let t ← now env
    if t - started < tenSeconds then do
      let again ← round env
      if again then rounds env started fuel else pure (some ())
    else do
      note .expired
      pure (some ())

def flush (env : Env W) (fuel : Nat) : Proc W (Option Unit) := do
  let pending ← read Vars.pending
  if pending = [] then pure (some ())
  else do
    let started ← now env
    let ended ← rounds env started fuel
    match ended with
    | none => pure none
    | some () => do
      assign fun v => { v with pending := [] }
      pure (some ())

/-! ## One attempt -/

/-- What an attempt adds to the trace. -/
def Obs.ofAttempt : Obs → Prop
  | .produced _ _ _ | .delivered _ _ => True
  | .attempt _ | .unavailable _ | .expired => False

/-- The messages `ms`, from place `i` on, were produced in attempt `n`, and `ds` holds the
callbacks that ran. -/
structure Attempted (n i : Nat) (ms : List Message) (ds : List Delivery) (seg : List Obs) : Prop where
  produced : ∀ j m, ms[j]? = some m → ∃ p, .produced ⟨n, i + j⟩ m p ∈ seg
  delivered : ∀ ticket err, .delivered ticket err ∈ seg → ⟨ticket, err⟩ ∈ ds
  within : ∀ o ∈ seg, o.ofAttempt

/-- A failure in the middle of an attempt. -/
structure Broke (s t : State W) : Prop where
  pending : t.vars.pending = s.vars.pending
  attempt : t.vars.attempt = s.vars.attempt
  adds : Adds Obs.ofAttempt s t

theorem Broke.trans {s t u : State W} (h : Broke s t) (h' : Broke t u) : Broke s u :=
  ⟨h'.pending.trans h.pending, h'.attempt.trans h.attempt, h.adds.trans h'.adds⟩

def Delivery.obs (d : Delivery) : Obs := .delivered d.ticket d.err

theorem delivered_mem {ds : List Delivery} {ticket : Ticket} {err : Option KafkaError}
    (h : .delivered ticket err ∈ ds.map Delivery.obs) : ⟨ticket, err⟩ ∈ ds := by
  obtain ⟨d, hd, heq⟩ := List.mem_map.mp h
  cases heq
  exact hd

theorem ofAttempt_obs (ds : List Delivery) : ∀ o ∈ ds.map Delivery.obs, o.ofAttempt := by
  intro o ho
  obtain ⟨d, _, rfl⟩ := List.mem_map.mp ho
  trivial

/-- A message, the callbacks that ran while it was produced, and what follows it. -/
theorem Attempted.cons {n i : Nat} {ms : List Message} {more : List Delivery} {seg : List Obs}
    (h : Attempted n (i + 1) ms more seg) (m : Message) (p : Nat) (ds : List Delivery) :
    Attempted n i (m :: ms) (ds ++ more)
      (.produced ⟨n, i⟩ m p :: (ds.map Delivery.obs ++ seg)) := by
  refine ⟨?_, ?_, ?_⟩
  · intro j x hx
    cases j with
    | zero =>
      cases hx
      exact ⟨_, List.mem_cons_self⟩
    | succ j =>
      obtain ⟨p', hp⟩ := h.produced j x hx
      refine ⟨p', List.mem_cons_of_mem _ (List.mem_append_right _ ?_)⟩
      rw [Nat.add_right_comm] at hp
      exact hp
  · intro ticket err hmem
    rcases List.mem_cons.mp hmem with heq | hmem
    · cases heq
    · rcases List.mem_append.mp hmem with hmem | hmem
      · exact List.mem_append_left _ (delivered_mem hmem)
      · exact List.mem_append_right _ (h.delivered ticket err hmem)
  · intro o ho
    rcases List.mem_cons.mp ho with rfl | ho
    · trivial
    · rcases List.mem_append.mp ho with ho | ho
      · exact ofAttempt_obs ds o ho
      · exact h.within o ho

section Attempt

variable {env : Env W} {s : State W}

theorem serve_spec {p : Prog Failure W (List Delivery)} :
    wp (serve p)
      (fun ds t => t.vars = s.vars ∧ t.trace = s.trace ++ ds.map Delivery.obs)
      (fun _ t => Broke s t) s := by
  rw [serve, wp_bind]
  refine wp_outside (fun ds w _ => ?_) (fun e w _ => ⟨rfl, rfl, Adds.nothing rfl⟩)
  rw [wp_bind, wp_each_note]
  exact ⟨rfl, rfl⟩

theorem produceEach_spec {n count i : Nat} {ms : List Message} :
    wp (produceEach env n count i ms)
      (fun ds t => t.vars = s.vars ∧ ∃ seg, t.trace = s.trace ++ seg ∧ Attempted n i ms ds seg)
      (fun _ t => Broke s t) s := by
  induction ms generalizing i s with
  | nil =>
    refine ⟨rfl, [], (List.append_nil _).symm, nofun, ?_, ?_⟩
    · exact fun _ _ h => absurd h List.not_mem_nil
    · exact fun _ h => absurd h List.not_mem_nil
  | cons m rest ih =>
    have hfirst : Broke s (s.push (.produced ⟨n, i⟩ m (balance env.hash (some m.pkey) m.key count))) :=
      ⟨rfl, rfl, Adds.one rfl trivial⟩
    rw [produceEach, wp_bind, wp_note, wp_bind]
    refine wp_mono serve_spec (fun ds t ht => ?_) (fun _ _ ht => hfirst.trans ht)
    have hserved : Broke s t := hfirst.trans ⟨by rw [ht.1], by rw [ht.1], _, ht.2, ofAttempt_obs ds⟩
    rw [wp_bind]
    refine wp_mono ih (fun more u hu => ?_) (fun _ _ hu => hserved.trans hu)
    obtain ⟨hvars, seg, htrace, hseg⟩ := hu
    refine ⟨hvars.trans ht.1, .produced ⟨n, i⟩ m (balance env.hash (some m.pkey) m.key count) ::
      (ds.map Delivery.obs ++ seg), ?_, hseg.cons m _ ds⟩
    rw [htrace, ht.2]
    simp

theorem resolvePartitionCount_spec :
    wp (resolvePartitionCount env)
      (fun _ t => t.vars.pending = s.vars.pending ∧ t.vars.attempt = s.vars.attempt ∧
        t.trace = s.trace)
      (fun _ t => Broke s t) s := by
  have hsame : ∀ w, Broke s (s.inWorld w) := fun w => ⟨rfl, rfl, Adds.nothing rfl⟩
  rw [resolvePartitionCount, wp_bind, wp_read]
  by_cases hcount : 0 < s.vars.partitionCount
  · rw [if_pos hcount]
    exact ⟨rfl, rfl, rfl⟩
  · rw [if_neg hcount, wp_bind]
    refine wp_outside (fun md w _ => ?_) (fun e w _ => hsame w)
    cases md with
    | none => exact hsame w
    | some topicMd =>
      obtain ⟨error, partitions⟩ := topicMd
      cases error with
      | some err => exact hsame w
      | none =>
        by_cases hzero : partitions = 0
        · simp only [if_pos hzero]
          exact hsame w
        · simp only [if_neg hzero]
          exact ⟨rfl, rfl, rfl⟩

/-- What follows the attempt `n` is part of it: the batch was produced, and no callback of it ran with
an error. -/
structure Published (pending : List Message) (n : Nat) (seg : List Obs) : Prop where
  within : ∀ o ∈ seg, o.ofAttempt
  produced : ∀ i m, pending[i]? = some m → ∃ p, .produced ⟨n, i⟩ m p ∈ seg
  accepted : ∀ i err, .delivered ⟨n, i⟩ (some err) ∉ seg

theorem errorsOf_nil {n i : Nat} {ds : List Delivery} {err : KafkaError} (h : errorsOf n ds = []) :
    ⟨⟨n, i⟩, some err⟩ ∉ ds := by
  intro hmem
  have herr : err ∈ errorsOf n ds :=
    List.mem_filterMap.mpr ⟨_, List.mem_filter.mpr ⟨hmem, decide_eq_true rfl⟩, rfl⟩
  rw [h] at herr
  cases herr

/-- The attempt after those of `s`, which broke off or came to its end. -/
structure Tried (P : Nat → List Obs → Prop) (s t : State W) : Prop where
  pending : t.vars.pending = s.vars.pending
  attempt : t.vars.attempt = s.vars.attempt + 1
  trace : ∃ seg, t.trace = s.trace ++ .attempt (s.vars.attempt + 1) :: seg ∧ P (s.vars.attempt + 1) seg

abbrev Partial (_ : Nat) (seg : List Obs) : Prop := ∀ o ∈ seg, o.ofAttempt

theorem Tried.broke {s t u : State W} (h : Tried Partial s t) (hu : Broke t u) : Tried Partial s u := by
  obtain ⟨seg, htrace, hwithin⟩ := h.trace
  obtain ⟨es, hes, hall⟩ := hu.adds
  refine ⟨hu.pending.trans h.pending, hu.attempt.trans h.attempt, seg ++ es, ?_, fun o ho => ?_⟩
  · rw [hes, htrace]
    simp
  · exact (List.mem_append.mp ho).elim (hwithin o) (hall o)

theorem produceAll_spec :
    wp (produceAll env) (fun _ t => Tried (Published s.vars.pending) s t)
      (fun _ t => Tried Partial s t) s := by
  rw [produceAll, wp_bind, wp_assign, wp_bind, wp_read, wp_bind, wp_note, wp_bind]
  have hstart : ∀ {t : State W}, t.vars.pending = s.vars.pending →
      t.vars.attempt = s.vars.attempt + 1 → t.trace = s.trace ++ [.attempt (s.vars.attempt + 1)] →
      Tried Partial s t := fun hpending hattempt htrace =>
    ⟨hpending, hattempt, [], htrace, fun _ ho => absurd ho List.not_mem_nil⟩
  refine wp_mono resolvePartitionCount_spec (fun count t ht => ?_) (fun _ u hu => ?_)
  swap
  · refine Tried.broke ?_ hu
    exact hstart rfl rfl rfl
  obtain ⟨hpending, hattempt, htrace⟩ := ht
  have hresolved : Tried Partial s t := hstart hpending hattempt htrace
  rw [wp_bind, wp_read, wp_bind]
  refine wp_mono produceEach_spec (fun ds u hu => ?_) (fun _ u hu => hresolved.broke hu)
  obtain ⟨hvars, seg, hseg, hattempted⟩ := hu
  have hproduced : Tried Partial s u :=
    hresolved.broke ⟨by rw [hvars], by rw [hvars], seg, hseg, hattempted.within⟩
  rw [wp_bind]
  refine wp_mono serve_spec (fun more v hv => ?_) (fun _ v hv => hproduced.broke hv)
  have hserved : Tried Partial s v :=
    hproduced.broke ⟨by rw [hv.1], by rw [hv.1], _, hv.2, ofAttempt_obs more⟩
  cases herrors : errorsOf (s.vars.attempt + 1) (ds ++ more) with
  | cons err rest =>
    simp only [setVars_vars, herrors]
    exact hserved
  | nil =>
    simp only [setVars_vars, herrors]
    refine ⟨hserved.pending, hserved.attempt, seg ++ more.map Delivery.obs, ?_, ?_, ?_, ?_⟩
    · rw [hv.2, hseg, htrace]
      simp
    · intro o ho
      exact (List.mem_append.mp ho).elim (hattempted.within o) (ofAttempt_obs more o)
    · intro i m hm
      obtain ⟨p, hp⟩ := hattempted.produced i m (by rw [hpending]; exact hm)
      rw [Nat.zero_add] at hp
      exact ⟨p, List.mem_append_left _ hp⟩
    · intro i err hmem
      refine errorsOf_nil (i := i) herrors (?_ : ⟨_, some err⟩ ∈ ds ++ more)
      rcases List.mem_append.mp hmem with hmem | hmem
      · exact List.mem_append_left _ (hattempted.delivered _ _ hmem)
      · exact List.mem_append_right _ (delivered_mem hmem)

end Attempt

/-! ## The loop -/

/-- So many attempts, each of which failed because the leader was not available, and was followed by
that before the next one. -/
inductive Refusals : Nat → List Obs → Prop where
  | none : Refusals 0 []
  | again {n : Nat} {t seg : List Obs} {e : Failure} (h : Refusals n t)
      (hseg : ∀ o ∈ seg, o.ofAttempt) (he : isLeaderNotAvailable e = true) :
      Refusals (n + 1) (t ++ .attempt (n + 1) :: seg ++ [.unavailable e])

/-- Refused attempts and a last one, which published the batch. -/
def EndsPublished (pending : List Message) (t : List Obs) : Prop :=
  ∃ n refused last, Refusals n refused ∧ t = refused ++ .attempt (n + 1) :: last ∧
    Published pending (n + 1) last

/-- Refused attempts, and the ten seconds are over. -/
def EndsExpired (t : List Obs) : Prop := ∃ n refused, Refusals n refused ∧ t = refused ++ [.expired]

section Loop

variable {env : Env W} {s : State W}

theorem round_spec (h : Refusals s.vars.attempt s.trace) :
    wp (round env)
      (fun again t => t.vars.pending = s.vars.pending ∧
        (again = true → Refusals t.vars.attempt t.trace) ∧
        (again = false → EndsPublished s.vars.pending t.trace))
      (fun _ t => t.vars.pending = s.vars.pending) s := by
  rw [round, wp_handle, wp_bind]
  refine wp_mono produceAll_spec (fun _ t ht => ?_) (fun e t ht => ?_)
  · obtain ⟨last, htrace, hpublished⟩ := ht.trace
    exact ⟨ht.pending, nofun, fun _ => ⟨_, _, last, h, htrace, hpublished⟩⟩
  · obtain ⟨seg, htrace, hseg⟩ := ht.trace
    by_cases he : e.isException = true
    · rw [if_pos he]
      by_cases hleader : isLeaderNotAvailable e = true
      · rw [if_pos hleader, wp_bind, wp_note, wp_bind]
        refine wp_outside (fun _ w _ => ⟨ht.pending, fun _ => ?_, nofun⟩) (fun _ w _ => ht.pending)
        rw [inWorld_trace, push_trace, htrace, inWorld_vars, push_vars, ht.attempt]
        exact h.again hseg hleader
      · rw [if_neg hleader]
        exact ht.pending
    · rw [if_neg he]
      exact ht.pending

theorem now_spec {Q : Int → State W → Prop} {X : Failure → State W → Prop}
    (h : ∀ t w, env.monotonic s.world = (t, w) → Q t (s.inWorld w)) : wp (now env) Q X s :=
  h _ _ rfl

theorem rounds_spec {pending : List Message} {started : Int} {fuel : Nat}
    (hpending : s.vars.pending = pending) (h : Refusals s.vars.attempt s.trace) :
    wp (rounds env started fuel)
      (fun ended t => t.vars.pending = pending ∧
        (ended = some () → EndsExpired t.trace ∨ EndsPublished pending t.trace))
      (fun _ t => t.vars.pending = pending) s := by
  induction fuel generalizing s with
  | zero => exact ⟨hpending, nofun⟩
  | succ fuel ih =>
    rw [rounds, wp_bind]
    refine now_spec fun t w _ => ?_
    by_cases htime : t - started < tenSeconds
    · rw [if_pos htime, wp_bind]
      refine wp_mono (round_spec (s := s.inWorld w) h) (fun again u hu => ?_)
        (fun _ u hu => hu.trans hpending)
      obtain ⟨hkept, hrefused, hpublished⟩ := hu
      cases again with
      | true =>
        rw [if_pos rfl]
        exact ih (hkept.trans hpending) (hrefused rfl)
      | false =>
        refine ⟨hkept.trans hpending, fun _ => Or.inr ?_⟩
        rw [← hpending]
        exact hpublished rfl
    · rw [if_neg htime, wp_bind, wp_note]
      exact ⟨hpending, fun _ => Or.inl ⟨_, _, h, rfl⟩⟩

theorem flush_spec {pending : List Message} {fuel : Nat} (hpending : s.vars.pending = pending)
    (h : Refusals s.vars.attempt s.trace) :
    wp (flush env fuel)
      (fun ended t => (ended = none → t.vars.pending = pending) ∧ (ended = some () →
        t.vars.pending = [] ∧ (pending = [] ∨ EndsExpired t.trace ∨ EndsPublished pending t.trace)))
      (fun _ t => t.vars.pending = pending) s := by
  rw [flush, wp_bind, wp_read]
  by_cases hnil : s.vars.pending = []
  · rw [if_pos hnil]
    exact ⟨nofun, fun _ => ⟨hnil, Or.inl (hpending ▸ hnil)⟩⟩
  · rw [if_neg hnil, wp_bind]
    refine now_spec fun t w _ => ?_
    rw [wp_bind]
    refine wp_post (rounds_spec hpending h) fun ended u hu => ?_
    cases ended with
    | none => exact ⟨fun _ => hu.1, nofun⟩
    | some _ => exact ⟨nofun, fun _ => ⟨rfl, Or.inr (hu.2 rfl)⟩⟩

end Loop

/-! ## The loop ends -/

def second : Int := 10 ^ 9

/-- The clock does not run backwards, and a sleep takes its second. -/
structure Punctual (env : Env W) (time : W → Int) : Prop where
  reads : ∀ w, (env.monotonic w).1 = time w
  monotonic : ∀ w, time w ≤ time (env.monotonic w).2
  listTopics : ∀ w, time w ≤ time (env.listTopics w).2
  produce : ∀ ticket m partition w, time w ≤ time (env.produce ticket m partition w).2
  flush : ∀ w, time w ≤ time (env.flush w).2
  sleep : ∀ w, (env.sleep w).1 = .ok () → time w + second ≤ time (env.sleep w).2

/-- Time has not gone back. -/
def Later (time : W → Int) (s t : State W) : Prop := time s.world ≤ time t.world

section Ends

variable {env : Env W} {time : W → Int}

theorem later_refl (s : State W) : Later time s s := Int.le_refl _

theorem later_trans {s t u : State W} (h : Later time s t) (h' : Later time t u) : Later time s u :=
  Int.le_trans h h'

theorem later_outside {α : Type} {p : Prog Failure W α} (h : ∀ w, time w ≤ time (p w).2) :
    Within (Later time) (outside p : Proc W α) := fun s => h s.world

theorem later_note (o : Obs) : Within (Later time) (note o : Proc W Unit) :=
  fun s => Int.le_refl (time s.world)

theorem later_serve {p : Prog Failure W (List Delivery)} (h : ∀ w, time w ≤ time (p w).2) :
    Within (Later time) (serve p) := by
  refine (later_outside h).bind (fun ds => ?_) later_trans
  exact (within_each (fun d => later_note _) later_refl later_trans ds).bind
    (fun _ => within_pure later_refl ds) later_trans

theorem later_produceEach (h : Punctual env time) (n count i : Nat) (ms : List Message) :
    Within (Later time) (produceEach env n count i ms) := by
  induction ms generalizing i with
  | nil => exact within_pure later_refl []
  | cons m rest ih =>
    refine (later_note _).bind (fun _ => ?_) later_trans
    refine (later_serve (h.produce _ _ _)).bind (fun ds => ?_) later_trans
    exact (ih (i + 1)).bind (fun more => within_pure later_refl _) later_trans

theorem later_resolve (h : Punctual env time) :
    Within (Later time) (resolvePartitionCount env) := by
  refine Within.bind (fun s => later_refl s) (fun count => ?_) later_trans
  split
  · exact within_pure later_refl count
  · refine (later_outside h.listTopics).bind (fun md => ?_) later_trans
    cases md with
    | none => exact within_raise later_refl _
    | some topicMd =>
      obtain ⟨error, partitions⟩ := topicMd
      cases error with
      | some err => exact within_raise later_refl _
      | none =>
        simp only
        split
        · exact within_raise later_refl _
        · exact Within.bind (fun s => later_refl s) (fun _ => within_pure later_refl _) later_trans

theorem later_produceAll (h : Punctual env time) : Within (Later time) (produceAll env) := by
  refine Within.bind (fun s => later_refl s) (fun _ => ?_) later_trans
  refine Within.bind (fun s => later_refl s) (fun n => ?_) later_trans
  refine (later_note _).bind (fun _ => ?_) later_trans
  refine (later_resolve h).bind (fun count => ?_) later_trans
  refine Within.bind (fun s => later_refl s) (fun pending => ?_) later_trans
  refine (later_produceEach h n count 0 pending).bind (fun ds => ?_) later_trans
  refine (later_serve h.flush).bind (fun more => ?_) later_trans
  split
  · exact within_pure later_refl ()
  · exact within_raise later_refl _

/-- A round after which there is another takes a second. -/
theorem round_takes (h : Punctual env time) (s : State W) :
    wp (round env) (fun again t => again = true → time s.world + second ≤ time t.world)
      (fun _ _ => True) s := by
  rw [round, wp_handle, wp_bind]
  refine wp_mono ((later_produceAll h).wp s) (fun _ t _ => nofun) (fun e t ht => ?_)
  split
  · split
    · rw [wp_bind, wp_note, wp_bind]
      refine wp_outside (fun _ w hp _ => ?_) (fun _ w _ => trivial)
      have hslept := h.sleep t.world (by rw [show env.sleep t.world = _ from hp])
      rw [show env.sleep t.world = _ from hp] at hslept
      have hlater : time s.world ≤ time t.world := ht
      show time s.world + second ≤ time w
      exact Int.le_trans (by omega) hslept
    · trivial
  · trivial

/-- As many rounds as there are seconds left, and one more to see that they are over. -/
theorem rounds_end (h : Punctual env time) {started : Int} {fuel : Nat} {s : State W}
    (hleft : started + tenSeconds ≤ time s.world + fuel * second) :
    wp (rounds env started (fuel + 1)) (fun ended _ => ended = some ()) (fun _ _ => True) s := by
  induction fuel generalizing s with
  | zero =>
    rw [rounds, wp_bind]
    refine now_spec fun t w hread => ?_
    have ht : t = time s.world := by rw [← h.reads s.world, hread]
    have hover : ¬ t - started < tenSeconds := by
      rw [ht]
      omega
    rw [if_neg hover, wp_bind, wp_note]
    exact rfl
  | succ fuel ih =>
    rw [rounds, wp_bind]
    refine now_spec fun t w hread => ?_
    split
    · rw [wp_bind]
      refine wp_mono (round_takes h _) (fun again u hu => ?_) (fun _ _ _ => trivial)
      cases again with
      | false => exact rfl
      | true =>
        rw [if_pos rfl]
        refine ih ?_
        have hslept : time w + second ≤ time u.world := hu rfl
        have hread' := h.monotonic s.world
        rw [hread] at hread'
        have hsum : ((fuel + 1 : Nat) : Int) * second = fuel * second + second := by
          rw [Int.natCast_add, Int.add_mul]
          simp
        have hread' : time s.world ≤ time w := hread'
        omega
    · rw [wp_bind, wp_note]
      exact rfl

theorem flush_ends (h : Punctual env time) {fuel : Nat} (hfuel : 11 ≤ fuel) (s : State W) :
    wp (flush env fuel) (fun ended _ => ended = some ()) (fun _ _ => True) s := by
  obtain ⟨more, rfl⟩ : ∃ more, fuel = more + 1 := ⟨fuel - 1, by omega⟩
  rw [flush, wp_bind, wp_read]
  split
  · exact rfl
  · rw [wp_bind]
    refine now_spec fun t w hread => ?_
    have ht : t = time s.world := by rw [← h.reads s.world, hread]
    have hread' := h.monotonic s.world
    rw [hread] at hread'
    have hread' : time s.world ≤ time w := hread'
    rw [wp_bind]
    refine wp_post (rounds_end h (s := s.inWorld w) ?_) fun ended u hu => ?_
    · show t + tenSeconds ≤ time w + more * second
      have hten : (10 : Int) * second ≤ more * second :=
        Int.mul_le_mul_of_nonneg_right (by omega) (by decide)
      have heq : tenSeconds = 10 * second := rfl
      omega
    · rw [hu]
      exact rfl

end Ends

/-- A driver that has `pending` to flush. -/
def State.new (pending : List Message) (partitionCount : Nat) (w : W) : State W :=
  ⟨⟨pending, partitionCount, 0⟩, w, []⟩

/-- A flush that raises keeps the batch.  One that returns clears it, and then nothing was
pending, or all its attempts failed because the leader was not available and the ten seconds were
over, or all but the last one did, and the last one produced every message and no callback of it
reported an error.  When the clock runs, it does one or the other. -/
theorem flush_published_or_expired (env : Env W) (pending : List Message) (partitionCount : Nat)
    (w : W) (fuel : Nat) :
    let r := (flush env fuel (State.new pending partitionCount w)).1
    let t := (flush env fuel (State.new pending partitionCount w)).2
    (∀ e, r = .error e → t.vars.pending = pending) ∧
    (r = .ok (some ()) → t.vars.pending = [] ∧
      (pending = [] ∨ EndsExpired t.trace ∨ EndsPublished pending t.trace)) ∧
    (∀ time, Punctual env time → 11 ≤ fuel → r ≠ .ok none) := by
  intro r t
  have hspec : wp (flush env fuel) _ _ (State.new pending partitionCount w) :=
    flush_spec rfl Refusals.none
  refine ⟨fun e he => wp_error hspec (Prod.ext he rfl), fun hr => ?_, fun time h hfuel hr => ?_⟩
  · exact (wp_ok hspec (Prod.ext hr rfl)).2 rfl
  · cases wp_ok (flush_ends h hfuel _) (Prod.ext hr rfl)

/-! ## Producers with and without a leader -/

/-- The producer has one partition and accepts everything; its callbacks wait for the flush. -/
def Env.accepting : Env (Int × List Ticket) where
  topic := "events"
  hash := id
  monotonic w := (w.1, w)
  listTopics := pure (some ⟨none, 1⟩)
  produce ticket _ _ := do
    update fun w => (w.1, w.2 ++ [ticket])
    pure []
  flush := do
    let tickets ← asks Prod.snd
    update fun w => (w.1, [])
    pure (tickets.map fun ticket => ⟨ticket, none⟩)
  sleep := update fun w => (w.1 + second, w.2)

/-- A leader is elected after a second. -/
def Env.electing : Env (Int × List Ticket) :=
  { Env.accepting with
    listTopics := do
      let time ← asks Prod.fst
      if time < second then
        raise (.kafka ⟨leaderNotAvailable, "Broker: Leader not available"⟩)
      else pure (some ⟨none, 1⟩) }

/-- No leader is elected: the request for the metadata takes its ten seconds and fails. -/
def Env.leaderless : Env (Int × List Ticket) :=
  { Env.accepting with
    listTopics := do
      update fun w => (w.1 + tenSeconds, w.2)
      raise (.kafka ⟨leaderNotAvailable, "Broker: Leader not available"⟩) }

theorem punctual_electing : Punctual Env.electing Prod.fst where
  reads _ := rfl
  monotonic _ := Int.le_refl _
  listTopics w := by
    have hsame : (Env.electing.listTopics w).2 = w := by
      show ((if w.1 < second then raise _ else pure _ : Prog Failure (Int × List Ticket) _) w).2 = w
      split <;> rfl
    rw [hsame]
  produce _ _ _ _ := Int.le_refl _
  flush _ := Int.le_refl _
  sleep _ _ := Int.le_refl _

def attemptOf : Obs → Option Nat
  | .attempt n => some n
  | _ => none

theorem attempts_of_partial {seg : List Obs} (h : ∀ o ∈ seg, o.ofAttempt) :
    seg.filterMap attemptOf = [] := by
  refine List.filterMap_eq_nil_iff.mpr fun o ho => ?_
  cases o with
  | attempt n => exact absurd (h _ ho) id
  | _ => rfl

/-- The refused attempts are numbered from one on. -/
theorem Refusals.attempts {n : Nat} {t : List Obs} (h : Refusals n t) :
    t.filterMap attemptOf = List.range' 1 n := by
  induction h with
  | none => rfl
  | again _ hseg _ ih =>
    rw [List.filterMap_append, List.filterMap_append, ih, List.filterMap_cons, List.range'_concat]
    simp [attemptOf, attempts_of_partial hseg, Nat.add_comm]

/-- Two messages, refused at first and then both delivered. -/
theorem flush_published_or_expired_electing :
    let pending : List Message := [⟨"k", "v", "p"⟩, ⟨"k'", "v'", "p'"⟩]
    let out := flush Env.electing 11 (State.new pending 0 (0, []))
    out.1 = .ok (some ()) ∧ out.1 ≠ .ok none ∧ out.2.vars.pending = [] ∧
      ∃ refused last, Refusals 1 refused ∧ out.2.trace = refused ++ .attempt 2 :: last ∧
        Published pending 2 last ∧ ∀ i < 2, .delivered ⟨2, i⟩ none ∈ last := by
  intro pending out
  have hout : out.1 = .ok (some ()) := rfl
  have hproduced : out.2.trace = [.attempt 1,
      .unavailable (.kafka ⟨leaderNotAvailable, "Broker: Leader not available"⟩), .attempt 2,
      .produced ⟨2, 0⟩ ⟨"k", "v", "p"⟩ 0, .produced ⟨2, 1⟩ ⟨"k'", "v'", "p'"⟩ 0,
      .delivered ⟨2, 0⟩ none, .delivered ⟨2, 1⟩ none] := rfl
  obtain ⟨_, hreturned, hends⟩ := flush_published_or_expired Env.electing pending 0 (0, []) 11
  obtain ⟨hcleared, hnil | ⟨n, refused, hrefused, htrace⟩ | ⟨n, refused, last, hrefused, htrace, hlast⟩⟩ :=
    hreturned hout
  · exact absurd hnil (List.cons_ne_nil _ _)
  · rw [hproduced] at htrace
    have hexpired := congrArg List.getLast? htrace
    simp at hexpired
  · rw [hproduced] at htrace
    obtain rfl : n = 1 := by
      have hattempts : [1, 2] = List.range' 1 n ++ [n + 1] := by
        have hmap := congrArg (List.filterMap attemptOf) htrace
        have hone : (Obs.attempt (n + 1) :: last).filterMap attemptOf = [n + 1] := by
          rw [List.filterMap_cons, attempts_of_partial hlast.within]
          rfl
        rw [List.filterMap_append, hrefused.attempts, hone] at hmap
        exact hmap
      simpa using (congrArg List.length hattempts).symm
    have hcut : [.attempt 1,
        .unavailable (.kafka ⟨leaderNotAvailable, "Broker: Leader not available"⟩)] ++ .attempt 2 ::
          [.produced ⟨2, 0⟩ ⟨"k", "v", "p"⟩ 0, .produced ⟨2, 1⟩ ⟨"k'", "v'", "p'"⟩ 0,
            .delivered ⟨2, 0⟩ none, .delivered ⟨2, 1⟩ none] = refused ++ .attempt 2 :: last := htrace
    obtain ⟨rfl, -, rfl⟩ := (List.append_cons_inj_of_notMem (by decide) (by decide)).mp hcut
    exact ⟨hout, hends Prod.fst punctual_electing (Nat.le_refl 11), hcleared, _, _, hrefused, hproduced,
      hlast, by decide⟩

/-- Without a leader the flush returns when the ten seconds are over, and the batch is gone with
no callback of it having run. -/
theorem leaderless_dropped :
    let out := flush Env.leaderless 11 (State.new [⟨"k", "v", "p"⟩] 0 (0, []))
    out.1 = .ok (some ()) ∧ out.2.vars.pending = [] ∧
      ∀ ticket err, .delivered ticket err ∉ out.2.trace := by
  intro out
  have htrace : out.2.trace = [.attempt 1,
      .unavailable (.kafka ⟨leaderNotAvailable, "Broker: Leader not available"⟩), .expired] := rfl
  exact ⟨rfl, rfl, fun ticket err => by simp [htrace]⟩

end Kafka
end Drivers
end Eds
