import Eds.Collections.Replayed
import Eds.Dbchange
import Eds.Drivers.Kafka.Flush

/-!
# The order of a topic

The driver keeps the messages of its events until it flushes them.  A flush produces all of them in
their order, and does so again from the first one when it breaks off, so that the topic is a
`Replay` of what was processed.  The partition of a message comes from the key of its object and
from the number of partitions, which is asked for once.
-/

namespace Eds
namespace Drivers
namespace Kafka

open Collections Effects Effects.Prog Effects.Traced

variable {W : Type}

/-! ## The driver -/

section

variable (py : Dbchange.Interpreter)

def strWithDef (val : Json) (default : String) : String :=
  match val with
  | .null => default
  | val => if val.eqStr "" then default else py.str val

def messageKey (table operation companyId locationId id : Json) : String :=
  ".".intercalate ["dbchange", py.str table, py.str operation, strWithDef py companyId "NONE",
    strWithDef py locationId "NONE", py.str id]

def partitionKey (table companyId locationId primaryKey : Json) : String :=
  ".".intercalate [py.str table, strWithDef py companyId "NONE", strWithDef py locationId "NONE",
    py.str primaryKey]

/-- An event, with the object that it was parsed to. -/
structure Item where
  event : Dbchange.DBChangeEvent
  object : Option (List (String × Json))

/-- `stringify(event)` -/
def eventText (event : Dbchange.DBChangeEvent) : String :=
  match event.toJson with
  | .ok text => text
  | .error _ => ""

def messageOf (item : Item) : Except Exn Message := do
  let pk ← Dbchange.getPrimaryKey item.event item.object
  pure
    { key := messageKey py item.event.table item.event.operation item.event.companyId
        item.event.locationId item.event.id
      value := eventText item.event
      pkey := partitionKey py item.event.table item.event.companyId item.event.locationId pk }

def maxImportBatchSize : Nat := 1000

def Failure.ofExn (e : Exn) : Failure := if e.isException then .exception e.str else .base e.str

/-- One more message, and a flush when there are enough of them. -/
def enqueue (env : Env W) (fuel : Nat) (m : Message) : Proc W (Option Unit) := do
  assign fun v => { v with pending := v.pending ++ [m] }
  let pending ← read Vars.pending
  if maxImportBatchSize ≤ pending.length then flush env fuel else pure (some ())

/-- `_process`, for the stream and for an import. -/
def process (env : Env W) (fuel : Nat) (dryRun : Bool) (item : Item) : Proc W (Option Unit) :=
  match messageOf py item with
  | .error e => raise (Failure.ofExn e)
  | .ok m => if dryRun then pure (some ()) else enqueue env fuel m

inductive Command where
  | process (dryRun : Bool) (item : Item)
  | flush

/-- A command that raises leaves its state to the next one. -/
def exec (env : Env W) (fuel : Nat) (s : State W) : Command → State W
  | .process dryRun item => (process py env fuel dryRun item s).2
  | .flush => (flush env fuel s).2

/-- The message that a command adds. -/
def Command.message : Command → Option Message
  | .process false item => (messageOf py item).toOption
  | _ => none

def processed (cmds : List Command) : List Message := cmds.filterMap (Command.message py)

end

/-! ## The topic -/

def sentOf : Obs → Option (Message × Nat)
  | .produced _ m partition => some (m, partition)
  | _ => none

/-- The messages of the topic in their order, with their partitions. -/
def sent (t : List Obs) : List (Message × Nat) := t.filterMap sentOf

def topic (t : List Obs) : List Message := (sent t).map Prod.fst

def partitionOf (env : Env W) (count : Nat) (pkey : String) : Nat :=
  if count = 1 then 0 else modulo (env.hash pkey) count

theorem balance_eq (env : Env W) (count : Nat) (m : Message) :
    balance env.hash (some m.pkey) m.key count = partitionOf env count m.pkey := rfl

def routed (env : Env W) (count : Nat) (m : Message) : Message × Nat := (m, partitionOf env count m.pkey)

theorem sent_append (t t' : List Obs) : sent (t ++ t') = sent t ++ sent t' := List.filterMap_append

/-! ## What a flush writes -/

/-- From `s` to `t` the messages `a` were written, and nothing else that matters happened.  The number
of partitions is known before the first of them. -/
structure Wrote (env : Env W) (a : List Message) (s t : State W) : Prop where
  pending : t.vars.pending = s.vars.pending
  sent : sent t.trace = sent s.trace ++ a.map (routed env t.vars.partitionCount)
  known : a ≠ [] → 0 < t.vars.partitionCount
  fixed : 0 < s.vars.partitionCount → t.vars.partitionCount = s.vars.partitionCount
  expired : .expired ∈ s.trace → .expired ∈ t.trace

section Writes

variable {env : Env W} {s t u : State W} {a b : List Message}

theorem Wrote.trans (h : Wrote env a s t) (h' : Wrote env b t u) : Wrote env (a ++ b) s u where
  pending := h'.pending.trans h.pending
  sent := by
    rw [h'.sent, h.sent, List.map_append, List.append_assoc]
    by_cases ha : a = []
    · rw [ha]
      rfl
    · rw [h'.fixed (h.known ha)]
  known hne := by
    by_cases ha : a = []
    · exact h'.known fun hb => hne (by rw [ha, hb]; rfl)
    · rw [h'.fixed (h.known ha)]
      exact h.known ha
  fixed hs := by
    have hsame := h.fixed hs
    rw [h'.fixed (hsame.symm ▸ hs), hsame]
  expired hs := h'.expired (h.expired hs)

/-- A step that shows neither in the topic nor in the variables. -/
theorem Wrote.none {o : List Obs} (hvars : t.vars = s.vars) (htrace : t.trace = s.trace ++ o)
    (ho : Kafka.sent o = []) : Wrote env [] s t where
  pending := by rw [hvars]
  sent := by rw [htrace, sent_append, ho]; rfl
  known h := absurd rfl h
  fixed _ := by rw [hvars]
  expired h := by
    rw [htrace]
    exact List.mem_append_left _ h

theorem Wrote.refl (s : State W) : Wrote env [] s s := .none rfl (List.append_nil _).symm rfl

theorem Wrote.inWorld (s : State W) (w : W) : Wrote env [] s (s.inWorld w) :=
  .none rfl (List.append_nil _).symm rfl

theorem Wrote.push {o : Obs} (ho : sentOf o = Option.none) (s : State W) : Wrote env [] s (s.push o) :=
  .none rfl rfl (by rw [Kafka.sent, List.filterMap_cons_none ho]; rfl)

end Writes

/-! ## What a run keeps -/

/-- Everything in the topic is in the partition of its object. -/
def Routed (env : Env W) (s : State W) : Prop :=
  ∀ x ∈ sent s.trace, x.2 = partitionOf env s.vars.partitionCount x.1.pkey ∧ 0 < s.vars.partitionCount

/-- Of the messages `all` those before the pending ones are in the topic for good, unless a flush ran
out of time. -/
structure Kept (env : Env W) (all : List Message) (s : State W) : Prop where
  routed : Routed env s
  replay : .expired ∈ s.trace ∨
    ∃ done, all = done ++ s.vars.pending ∧ Replay done s.vars.pending (topic s.trace)

/-- The batch may be cleared. -/
def Flushed (all : List Message) (s : State W) : Prop :=
  .expired ∈ s.trace ∨ Replay all [] (topic s.trace)

section Runs

variable {env : Env W} {s t : State W} {all a : List Message}

theorem Wrote.routed (h : Wrote env a s t) (hs : Routed env s) : Routed env t := by
  intro x hx
  rw [h.sent, List.mem_append, List.mem_map] at hx
  rcases hx with hx | ⟨m, hm, rfl⟩
  · obtain ⟨hpartition, hpos⟩ := hs x hx
    rw [h.fixed hpos]
    exact ⟨hpartition, hpos⟩
  · exact ⟨rfl, h.known (List.ne_nil_of_mem hm)⟩

theorem Wrote.topic (h : Wrote env a s t) : topic t.trace = topic s.trace ++ a := by
  rw [Kafka.topic, h.sent, List.map_append, List.map_map]
  exact congrArg (Kafka.topic s.trace ++ ·) (List.map_id a)

/-- An attempt that broke off. -/
theorem Kept.broken (h : Kept env all s) (ha : a <+: s.vars.pending) (hw : Wrote env a s t) :
    Kept env all t where
  routed := hw.routed h.routed
  replay := by
    refine h.replay.imp hw.expired fun ⟨done, hall, hreplay⟩ => ⟨done, ?_, ?_⟩
    · rw [hw.pending]
      exact hall
    · rw [hw.pending, hw.topic]
      exact hreplay.broken ha

/-- An attempt that succeeded. -/
theorem Kept.flushed (h : Kept env all s) (hw : Wrote env s.vars.pending s t) : Flushed all t := by
  refine h.replay.imp hw.expired fun ⟨done, hall, hreplay⟩ => ?_
  rw [hw.topic, hall]
  exact hreplay.whole

theorem Kept.cleared (h : Kept env all s) (hs : Flushed all s) :
    Kept env all (s.setVars fun v => { v with pending := [] }) where
  routed := h.routed
  replay := hs.imp id fun hreplay => ⟨all, (List.append_nil all).symm, hreplay⟩

theorem Kept.noted (h : Kept env all s) (o : Obs) (ho : sentOf o = none) : Kept env all (s.push o) :=
  h.broken List.nil_prefix (.push ho s)

theorem Kept.moved (h : Kept env all s) (w : W) : Kept env all (s.inWorld w) :=
  h.broken List.nil_prefix (.inWorld s w)

variable (py : Dbchange.Interpreter)

end Runs

end Kafka
end Drivers
end Eds
