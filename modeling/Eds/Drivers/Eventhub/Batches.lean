import Eds.Drivers.S3.Flush
import Mathlib.Data.List.Chain
import Mathlib.Data.List.ModifyLast

/-!
# The batches of the event hub driver

`process` buffers a record of each event, and a flush takes the buffer and plans one batch for
records that stand together and have one partition key.  A key that comes back after another one
starts a batch of its own, so that the batches in their order hold the records in theirs.

`Partitioned` says this of one plan, and `planned_once` of every sequence of calls: what was
processed is in the plans, each event once, or still in the buffer.
-/

namespace Eds
namespace Drivers
namespace Eventhub

/-! ## Records and their keys -/

structure Record where
  table : Json
  id : Json
  operation : Json
  diff : Json
  object : Option (List (String × Json))
  event : DBChangeEvent

/-- `Batcher.add`, up to the `append`. -/
def newRecord (event : DBChangeEvent) : Except Exn Record := do
  let id ← S3.getPrimaryKey event
  pure ⟨event.table, id, event.operation, event.diff, event.object, event⟩

def strWithDef (val : Option String) (default : String) : String :=
  match val with
  | none => default
  | some val => if val = "" then default else val

section Keys

variable (str : Json → String)

def newPartitionKey (table : Json) (companyId locationId : Option String) (id : Json) : String :=
  ".".intercalate [str table, strWithDef companyId "NONE", strWithDef locationId "NONE", str id]

/-- The key of the object and the partition key; `str` is the text that a format string makes of a
value. -/
def getKeys (table operation : Json) (companyId locationId : String) (id : Json) : String × String :=
  (".".intercalate ["dbchange", str table, str operation, strWithDef companyId "NONE",
      strWithDef locationId "NONE", str id],
    newPartitionKey str table companyId locationId id)

/-- The value, if it is a string. -/
def textOf (object : Option (List (String × Json))) (name : String) : String :=
  match (object.getD []).lookup name with
  | some (.str s) => s
  | _ => ""

def keysOf (record : Record) : String × String :=
  getKeys str record.table record.operation (textOf record.object "companyId")
    (textOf record.object "locationId") record.id

/-! ## Planning -/

structure EventBatchGroup where
  partitionKey : String
  events : List (Record × String)

def EventBatchGroup.add (event : Record × String) (group : EventBatchGroup) : EventBatchGroup :=
  { group with events := group.events ++ [event] }

def EventBatchGroup.records (group : EventBatchGroup) : List Record := group.events.map Prod.fst

/-- The variables of the loop. -/
structure Planning where
  groups : List EventBatchGroup
  pendingPartitionKey : Option String

def planRecord (p : Planning) (record : Record) : Planning :=
  let (key, pkey) := keysOf str record
  if p.pendingPartitionKey = some pkey ∧ p.groups ≠ [] then
    { p with groups := p.groups.modifyLast (EventBatchGroup.add (record, key)) }
  else ⟨p.groups ++ [⟨pkey, [(record, key)]⟩], some pkey⟩

def planBatches (records : List Record) : List EventBatchGroup :=
  (records.foldl (planRecord str) ⟨[], none⟩).groups

/-! ## What a plan is -/

/-- The groups are what stands together in the records and has one partition key. -/
structure Partitioned (records : List Record) (groups : List EventBatchGroup) : Prop where
  nonempty : ∀ group ∈ groups, group.events ≠ []
  concatenated : groups.flatMap EventBatchGroup.records = records
  keyed : ∀ group ∈ groups, ∀ event ∈ group.events, keysOf str event.1 = (event.2, group.partitionKey)
  adjacent : groups.IsChain fun group next => group.partitionKey ≠ next.partitionKey

/-- The pending key is the one of the last group. -/
structure Planned (records : List Record) (p : Planning) : Prop
    extends Partitioned str records p.groups where
  pending : p.pendingPartitionKey = p.groups.getLast?.map EventBatchGroup.partitionKey

theorem planned_nil : Planned str [] ⟨[], none⟩ where
  nonempty := nofun
  concatenated := rfl
  keyed := nofun
  adjacent := .nil
  pending := rfl

variable {str}

theorem records_add (record : Record) (key : String) (group : EventBatchGroup) :
    (group.add (record, key)).records = group.records ++ [record] := by
  rw [EventBatchGroup.records, EventBatchGroup.add, List.map_append]
  rfl

/-- The record joins the last group: its key is the pending one. -/
theorem Partitioned.extend {records : List Record} {groups : List EventBatchGroup}
    {last : EventBatchGroup} (h : Partitioned str records (groups ++ [last])) {record : Record}
    {key : String} (hkey : keysOf str record = (key, last.partitionKey)) :
    Partitioned str (records ++ [record]) (groups ++ [last.add (record, key)]) where
  nonempty group hgroup := by
    rcases List.mem_append.mp hgroup with hgroup | hgroup
    · exact h.nonempty group (List.mem_append_left _ hgroup)
    · rw [List.mem_singleton.mp hgroup]
      exact List.append_ne_nil_of_right_ne_nil _ (List.cons_ne_nil _ _)
  concatenated := by
    rw [← h.concatenated, List.flatMap_append, List.flatMap_append, List.flatMap_singleton,
      List.flatMap_singleton, records_add, List.append_assoc]
  keyed group hgroup event hevent := by
    rcases List.mem_append.mp hgroup with hgroup | hgroup
    · exact h.keyed group (List.mem_append_left _ hgroup) event hevent
    · rw [List.mem_singleton.mp hgroup] at hevent ⊢
      rcases List.mem_append.mp hevent with hevent | hevent
      · exact h.keyed last (List.mem_append_right _ List.mem_cons_self) event hevent
      · rw [List.mem_singleton.mp hevent]
        exact hkey
  adjacent := by
    obtain ⟨hgroups, -, hlast⟩ := List.isChain_append.mp h.adjacent
    refine List.isChain_append.mpr ⟨hgroups, .singleton _, fun group hgroup next hnext => ?_⟩
    rw [← Option.some.inj hnext]
    exact hlast group hgroup last rfl

/-- The record starts a group: its key is not the one of the last group. -/
theorem Partitioned.start {records : List Record} {groups : List EventBatchGroup}
    (h : Partitioned str records groups) {record : Record} {key pkey : String}
    (hkey : keysOf str record = (key, pkey))
    (hne : ∀ last ∈ groups.getLast?, last.partitionKey ≠ pkey) :
    Partitioned str (records ++ [record]) (groups ++ [⟨pkey, [(record, key)]⟩]) where
  nonempty group hgroup := by
    rcases List.mem_append.mp hgroup with hgroup | hgroup
    · exact h.nonempty group hgroup
    · rw [List.mem_singleton.mp hgroup]
      exact List.cons_ne_nil _ _
  concatenated := by
    rw [List.flatMap_append, h.concatenated, List.flatMap_singleton]
    rfl
  keyed group hgroup event hevent := by
    rcases List.mem_append.mp hgroup with hgroup | hgroup
    · exact h.keyed group hgroup event hevent
    · rw [List.mem_singleton.mp hgroup] at hevent ⊢
      rw [List.mem_singleton.mp hevent]
      exact hkey
  adjacent := by
    refine List.isChain_append.mpr ⟨h.adjacent, .singleton _, fun last hlast next hnext => ?_⟩
    rw [← Option.some.inj hnext]
    exact hne last hlast

theorem Planned.planRecord {records : List Record} {p : Planning} (h : Planned str records p)
    (record : Record) : Planned str (records ++ [record]) (planRecord str p record) := by
  obtain ⟨hgroups, hpending⟩ := h
  unfold Eventhub.planRecord
  generalize hkey : keysOf str record = keys
  obtain ⟨key, pkey⟩ := keys
  dsimp only
  split
  · next hlast =>
    obtain ⟨hsame, hne⟩ := hlast
    obtain ⟨groups, last, hsplit⟩ := (List.eq_nil_or_concat' p.groups).resolve_left hne
    rw [hsplit] at hgroups
    rw [hpending, hsplit, List.getLast?_concat, Option.map_some] at hsame
    have hpkey := Option.some.inj hsame
    rw [hsplit, List.modifyLast_concat]
    refine ⟨hgroups.extend (hpkey ▸ hkey), ?_⟩
    rw [hpending, hsplit, List.getLast?_concat, List.getLast?_concat]
    rfl
  · next hnew =>
    refine ⟨hgroups.start hkey fun last hlast heq => ?_, ?_⟩
    · -- the last group would have the pending key
      refine hnew ⟨?_, fun hnil => ?_⟩
      · rw [hpending, Option.mem_def.mp hlast, Option.map_some, heq]
      · rw [hnil] at hlast
        cases hlast
    · rw [List.getLast?_concat]
      rfl

theorem planned_foldl {records before : List Record} {p : Planning} (h : Planned str before p) :
    Planned str (before ++ records) (records.foldl (Eventhub.planRecord str) p) := by
  induction records generalizing before p with
  | nil =>
    rw [List.append_nil]
    exact h
  | cons record rest ih =>
    have hrest := ih (h.planRecord record)
    rw [List.append_assoc] at hrest
    exact hrest

theorem partitioned_planBatches (records : List Record) :
    Partitioned str records (planBatches str records) :=
  (planned_foldl (planned_nil str)).toPartitioned

/-- The groups of one key hold the records of that key in order. -/
theorem Partitioned.filter_key {records : List Record} {groups : List EventBatchGroup}
    (h : Partitioned str records groups) (pkey : String) :
    (groups.filter fun group => group.partitionKey = pkey).flatMap EventBatchGroup.records =
      records.filter fun record => (keysOf str record).2 = pkey := by
  have hkeyed := h.keyed
  rw [← h.concatenated]
  clear h
  induction groups with
  | nil => rfl
  | cons group rest ih =>
    obtain ⟨hgroup, hrest⟩ := List.forall_mem_cons.mp hkeyed
    have hrecords : ∀ record ∈ group.records, (keysOf str record).2 = group.partitionKey := by
      intro record hrecord
      obtain ⟨event, hevent, rfl⟩ := List.mem_map.mp hrecord
      rw [hgroup event hevent]
    rw [List.flatMap_cons, List.filter_append, ← ih hrest]
    by_cases hpkey : group.partitionKey = pkey
    · rw [List.filter_cons_of_pos (by simpa using hpkey), List.flatMap_cons,
        List.filter_eq_self.mpr fun record hrecord =>
          decide_eq_true ((hrecords record hrecord).trans hpkey)]
    · rw [List.filter_cons_of_neg (by simpa using hpkey),
        List.filter_eq_nil_iff.mpr fun record hrecord hsame =>
          hpkey ((hrecords record hrecord).symm.trans (of_decide_eq_true hsame)), List.nil_append]

variable (str)

/-! ## Sequences of calls -/

def process (batcher : List Record) (event : DBChangeEvent) : Except Exn (List Record) := do
  let record ← newRecord event
  pure (batcher ++ [record])

/-- The number of records with the groups, and the batcher behind it. -/
def snapshotAndPlan (batcher : List Record) : (Nat × List EventBatchGroup) × List Record :=
  if batcher.length = 0 then ((0, []), batcher)
  else ((batcher.length, planBatches str batcher), [])

inductive Call where
  | process (event : DBChangeEvent)
  | snapshotAndPlan

/-- The batcher, with the events whose `process` returned and the plans, in order. -/
structure Session where
  batcher : List Record
  processed : List DBChangeEvent
  plans : List (Nat × List EventBatchGroup)

def call (s : Session) : Call → Session
  | .process event =>
    match process s.batcher event with
    | .ok batcher => { s with batcher := batcher, processed := s.processed ++ [event] }
    | .error _ => s
  | .snapshotAndPlan =>
    let (plan, batcher) := snapshotAndPlan str s.batcher
    { s with batcher := batcher, plans := s.plans ++ [plan] }

def run (calls : List Call) : Session := calls.foldl (call str) ⟨[], [], []⟩

variable {str}

/-- The events of the planned groups, in the order of the plans. -/
def plannedEvents (plans : List (Nat × List EventBatchGroup)) : List DBChangeEvent :=
  plans.flatMap fun plan => plan.2.flatMap fun group => group.records.map Record.event

theorem process_spec {batcher batcher' : List Record} {event : DBChangeEvent}
    (h : process batcher event = .ok batcher') :
    ∃ record, batcher' = batcher ++ [record] ∧ record.event = event := by
  unfold process newRecord at h
  cases hid : S3.getPrimaryKey event with
  | error e =>
    rw [hid] at h
    cases h
  | ok id =>
    rw [hid] at h
    cases h
    exact ⟨_, rfl, rfl⟩

theorem snapshotAndPlan_spec (str : Json → String) (batcher : List Record) :
    (snapshotAndPlan str batcher).2 = [] ∧
      (snapshotAndPlan str batcher).1.1 = batcher.length ∧
      Partitioned str batcher (snapshotAndPlan str batcher).1.2 := by
  unfold snapshotAndPlan
  split
  · next hlength =>
    rw [List.length_eq_zero_iff.mp hlength]
    exact ⟨rfl, rfl, (planned_nil str).toPartitioned⟩
  · exact ⟨rfl, rfl, partitioned_planBatches batcher⟩

/-- What was processed is planned or in the batcher, and the plans are partitions. -/
structure Accounted (str : Json → String) (s : Session) : Prop where
  events : plannedEvents s.plans ++ s.batcher.map Record.event = s.processed
  plans : ∀ plan ∈ s.plans, ∃ records, plan.1 = records.length ∧ Partitioned str records plan.2

theorem Accounted.call {s : Session} (h : Accounted str s) (c : Call) :
    Accounted str (call str s c) := by
  cases c with
  | process event =>
    show Accounted str (match process s.batcher event with
      | .ok batcher => { s with batcher := batcher, processed := s.processed ++ [event] }
      | .error _ => s)
    split
    · next batcher hprocess =>
      obtain ⟨record, rfl, hevent⟩ := process_spec hprocess
      refine ⟨?_, h.plans⟩
      show plannedEvents s.plans ++ (s.batcher ++ [record]).map Record.event = s.processed ++ [event]
      rw [List.map_append, ← List.append_assoc, h.events, List.map_singleton, hevent]
    · exact h
  | snapshotAndPlan =>
    obtain ⟨hcleared, hcount, hpartitioned⟩ := snapshotAndPlan_spec str s.batcher
    unfold Eventhub.call
    generalize snapshotAndPlan str s.batcher = taken at hcleared hcount hpartitioned
    obtain ⟨plan, batcher⟩ := taken
    dsimp only at hcleared hcount hpartitioned ⊢
    rw [hcleared]
    refine ⟨?_, fun plan' hplan => ?_⟩
    · have hevents : (plan.2.flatMap fun group => group.records.map Record.event) =
          s.batcher.map Record.event := by
        rw [← List.map_flatMap, hpartitioned.concatenated]
      show plannedEvents (s.plans ++ [plan]) ++ [] = s.processed
      rw [List.append_nil, plannedEvents, List.flatMap_append, List.flatMap_singleton, hevents]
      exact h.events
    · rcases List.mem_append.mp hplan with hplan | hplan
      · exact h.plans plan' hplan
      · rw [List.mem_singleton.mp hplan]
        exact ⟨s.batcher, hcount, hpartitioned⟩

theorem accounted_run (calls : List Call) : Accounted str (run str calls) := by
  have hall : ∀ s, Accounted str s → Accounted str (calls.foldl (call str) s) := by
    induction calls with
    | nil => exact fun s hs => hs
    | cons c rest ih => exact fun s hs => ih (call str s c) (hs.call c)
  exact hall ⟨[], [], []⟩ ⟨rfl, nofun⟩

end Keys

/-- The plans of every sequence of calls. -/
theorem planned_once (str : Json → String) :
    (∀ records, Partitioned str records (planBatches str records) ∧ ∀ pkey,
      ((planBatches str records).filter fun group => group.partitionKey = pkey).flatMap
          EventBatchGroup.records =
        records.filter fun record => (keysOf str record).2 = pkey) ∧
      ∀ calls, Accounted str (run str calls) :=
  ⟨fun records => ⟨partitioned_planBatches records, (partitioned_planBatches records).filter_key⟩,
    accounted_run⟩

/-- What is processed last waits in the batcher. -/
theorem unplanned_last : (run S3.strOf [.process (S3.updateAt 1000)]).processed = [S3.updateAt 1000] ∧
    plannedEvents (run S3.strOf [.process (S3.updateAt 1000)]).plans = [] :=
  ⟨rfl, rfl⟩

end Eventhub
end Drivers
end Eds
