import Eds.Drivers.Snowflake.Flush
import Eds.Collections.Expiring
import Eds.Collections.Traverse

/-!
# The tracker after a flush

The tracker remembers which objects were inserted, so that a second insert is preceded
by a delete.  A flush marks the keys of its inserts and deletes and then drops those of
its deletes, whatever their order in the batch was.

A coalesced batch holds an insert or a delete unless a delete of its group comes after
it, and from this `Survives` the keys that are marked and dropped are read off the batch.
-/

namespace Eds
namespace Drivers
namespace Snowflake

open Util Collections

/-! ## The flush -/

abbrev Tracker := Expiring String String

/-- What a flush finds: the registry, the time of each lookup in the tracker, what the
server answers, and the value and deadline of the keys it marks. -/
structure FlushWorld where
  registry : SchemaRegistry
  clock : Nat → Int
  execMultiStatement : String → Nat → Except Exn Nat
  tag : String
  deadline : Int

section Flush

variable {K : Type} [LinearOrder K]

/-- By `float(event.mvcc_timestamp)`, which is `mvccKey`; the sort is stable. -/
def sortRecordsByMvccTimestamp (mvccKey : Record → K) (records : List Record) : List Record :=
  records.mergeSort fun a b => decide (mvccKey a ≤ mvccKey b)

/-- One record, with the lookup of an insert in the tracker. -/
def planTracked (w : FlushWorld) (st : FlushPlan × Tracker) (p : Record × Nat) :
    Except Exn (FlushPlan × Tracker) := do
  let plan ← planRecord w.registry (fun k => (st.2.find k (w.clock p.2)).isSome) st.1 p.1
  pure (plan, if p.1.operation = "INSERT" then st.2.evict (trackerKey p.1) (w.clock p.2) else st.2)

/-- The number of rows, which is only logged. -/
def execPlan (w : FlushWorld) (plan : FlushPlan) : Except Exn Nat :=
  if 0 < plan.statementCount then w.execMultiStatement plan.query plan.statementCount else .ok 0

/-- An upsert flush of the batch, up to its effect on the tracker. -/
def flush (mvccKey : Record → K) (w : FlushWorld) (batch : List Record) (tracker : Tracker) :
    Except Exn Tracker :=
  if batch.isEmpty then .ok tracker
  else do
    let records := combineRecordsWithSamePrimaryKey (sortRecordsByMvccTimestamp mvccKey batch)
    let st ← records.zipIdx.foldlM (planTracked w) (⟨[], [], []⟩, tracker)
    let _rows ← execPlan w st.1
    pure ((st.2.putAll st.1.cacheKeys ⟨w.tag, some w.deadline⟩).removeAll st.1.deleteKeys)

end Flush

/-! ## What is planned for the tracker -/

/-- An operation that the tracker follows. -/
def tracked (r : Record) : Bool := r.operation == "INSERT" || r.operation == "DELETE"

theorem tracked_iff {r : Record} : tracked r = true ↔ r.operation = "INSERT" ∨ r.operation = "DELETE" := by
  rw [tracked, Bool.or_eq_true, beq_iff_eq, beq_iff_eq]

theorem planRecord_keys {registry : SchemaRegistry} {trackerHasKey : String → Bool}
    {plan plan' : FlushPlan} {r : Record} (h : planRecord registry trackerHasKey plan r = .ok plan') :
    plan'.cacheKeys = plan.cacheKeys ++ ([r].filter tracked).map trackerKey ∧
      plan'.deleteKeys = plan.deleteKeys ++ ([r].filter isDelete).map trackerKey := by
  unfold planRecord at h
  split at h
  next hskipped =>
    have hupdate : r.operation = "UPDATE" := by
      rw [skipped, Bool.and_eq_true, beq_iff_eq] at hskipped
      exact hskipped.1
    cases h
    simp [tracked, isDelete, hupdate]
  next hplanned =>
    obtain ⟨schema, _, h⟩ := bind_eq_ok.mp h
    cases h
    by_cases hdelete : r.operation = "DELETE"
    · simp [tracked, isDelete, hdelete]
    · by_cases hinsert : r.operation = "INSERT"
      · simp [tracked, isDelete, hinsert]
      · simp [tracked, isDelete, hdelete, hinsert]

/-- Planning collects the keys, and touches only those of inserts. -/
theorem planTracked_keys {w : FlushWorld} {records : List Record} {start : Nat}
    {st st' : FlushPlan × Tracker} (h : (records.zipIdx start).foldlM (planTracked w) st = .ok st') :
    st'.1.cacheKeys = st.1.cacheKeys ++ (records.filter tracked).map trackerKey ∧
      st'.1.deleteKeys = st.1.deleteKeys ++ (records.filter isDelete).map trackerKey ∧
      ∀ k, k ∉ (records.filter tracked).map trackerKey → st'.2 k = st.2 k := by
  induction records generalizing start st with
  | nil =>
    cases h
    simp
  | cons r rest ih =>
    rw [List.zipIdx_cons, List.foldlM_cons] at h
    obtain ⟨next, hnext, h⟩ := bind_eq_ok.mp h
    obtain ⟨plan, hplan, hnext⟩ := bind_eq_ok.mp hnext
    cases hnext
    obtain ⟨hcache, hdelete⟩ := planRecord_keys hplan
    obtain ⟨ihcache, ihdelete, ihother⟩ := ih h
    have hsplit : ∀ p : Record → Bool, (r :: rest).filter p = [r].filter p ++ rest.filter p :=
      fun p => List.filter_append [r] rest
    refine ⟨?_, ?_, fun k hk => ?_⟩
    · rw [ihcache, hcache, hsplit, List.map_append, List.append_assoc]
    · rw [ihdelete, hdelete, hsplit, List.map_append, List.append_assoc]
    · rw [hsplit, List.map_append, List.mem_append, not_or] at hk
      rw [ihother k hk.2]
      show (if r.operation = "INSERT" then _ else st.2) k = st.2 k
      split
      next hinsert =>
        refine Expiring.evict_of_ne fun heq => hk.1 ?_
        have htracked : tracked r = true := tracked_iff.mpr (.inl hinsert)
        rw [heq, List.filter_cons_of_pos htracked]
        exact List.mem_cons_self
      · rfl

/-! ## What survives coalescing -/

/-- The record is followed by no delete of its group. -/
def Survives (records : List Record) (r : Record) : Prop :=
  ∃ before after, records = before ++ r :: after ∧
    ∀ d ∈ after, groupKey d = groupKey r → d.operation ≠ "DELETE"

theorem Survives.mem {records : List Record} {r : Record} (h : Survives records r) : r ∈ records := by
  obtain ⟨before, after, rfl, _⟩ := h
  exact List.mem_append_right _ List.mem_cons_self

theorem survives_filter_iff {records : List Record} {r : Record} :
    (∃ before after, (records.filter fun d => decide (groupKey d = groupKey r)) = before ++ r :: after ∧
      ∀ d ∈ after, isDelete d = false) ↔ Survives records r := by
  constructor
  · intro h
    obtain ⟨before, after, hsplit, hafter⟩ := h
    obtain ⟨front, back, rfl, _, hback⟩ := List.filter_eq_append_iff.mp hsplit
    obtain ⟨others, rest, rfl, _, _, hrest⟩ := List.filter_eq_cons_iff.mp hback
    refine ⟨front ++ others, rest, by rw [List.append_assoc], fun d hd hgroup hdelete => ?_⟩
    have hd' : d ∈ after := by
      rw [← hrest]
      exact List.mem_filter.mpr ⟨hd, decide_eq_true hgroup⟩
    have hnot := hafter d hd'
    rw [isDelete, beq_eq_false_iff_ne] at hnot
    exact hnot hdelete
  · intro h
    obtain ⟨before, after, rfl, hafter⟩ := h
    refine ⟨before.filter fun d => decide (groupKey d = groupKey r),
      after.filter fun d => decide (groupKey d = groupKey r), ?_, fun d hd => ?_⟩
    · rw [List.filter_append, List.filter_cons, if_pos (decide_eq_true rfl)]
    · obtain ⟨hd, hgroup⟩ := List.mem_filter.mp hd
      rw [isDelete, beq_eq_false_iff_ne]
      exact hafter d hd (of_decide_eq_true hgroup)

theorem mem_combineRecords_iff {records : List Record} {r : Record} (hr : tracked r = true) :
    r ∈ combineRecordsWithSamePrimaryKey records ↔ Survives records r := by
  have hgroup : r ∈ combineRecordsWithSamePrimaryKey records ↔
      r ∈ (combineRecordsWithSamePrimaryKey records).filter
        fun d => decide (groupKey d = groupKey r) := by
    rw [List.mem_filter, decide_eq_true_iff]
    exact (and_iff_left rfl).symm
  have hupdate : ∀ a, isUpdate a = true → tracked a = false := by
    intro a ha
    rw [isUpdate, beq_iff_eq] at ha
    rw [tracked, ha]
    decide
  rw [hgroup, combineRecords_filter_groupKey, combine, batchType_kinds.mem_collapse hupdate hr]
  exact survives_filter_iff

def pairKey (p : String × String) : String := "snowflake:" ++ p.1 ++ ":" ++ p.2

theorem trackerKey_eq (r : Record) : trackerKey r = pairKey r.pair := rfl

def Marks (records : List Record) (key : String) : Prop :=
  ∃ r, Survives records r ∧ tracked r = true ∧ trackerKey r = key

def Drops (records : List Record) (key : String) : Prop :=
  ∃ r, Survives records r ∧ r.operation = "DELETE" ∧ trackerKey r = key

theorem mem_cacheKeys_iff {records : List Record} {key : String} :
    key ∈ ((combineRecordsWithSamePrimaryKey records).filter tracked).map trackerKey ↔
      Marks records key := by
  constructor
  · intro h
    obtain ⟨r, hr, rfl⟩ := List.mem_map.mp h
    obtain ⟨hr, htracked⟩ := List.mem_filter.mp hr
    exact ⟨r, (mem_combineRecords_iff htracked).mp hr, htracked, rfl⟩
  · intro h
    obtain ⟨r, hr, htracked, rfl⟩ := h
    exact List.mem_map_of_mem (List.mem_filter.mpr ⟨(mem_combineRecords_iff htracked).mpr hr, htracked⟩)

theorem mem_deleteKeys_iff {records : List Record} {key : String} :
    key ∈ ((combineRecordsWithSamePrimaryKey records).filter isDelete).map trackerKey ↔
      Drops records key := by
  have hdelete : ∀ r, isDelete r = true ↔ r.operation = "DELETE" := fun r => by
    rw [isDelete, beq_iff_eq]
  constructor
  · intro h
    obtain ⟨r, hr, rfl⟩ := List.mem_map.mp h
    obtain ⟨hr, hop⟩ := List.mem_filter.mp hr
    rw [hdelete] at hop
    exact ⟨r, (mem_combineRecords_iff (tracked_iff.mpr (.inr hop))).mp hr, hop, rfl⟩
  · intro h
    obtain ⟨r, hr, hop, rfl⟩ := h
    exact List.mem_map_of_mem (List.mem_filter.mpr
      ⟨(mem_combineRecords_iff (tracked_iff.mpr (.inr hop))).mpr hr, (hdelete r).mpr hop⟩)

theorem Drops.marks {records : List Record} {key : String} (h : Drops records key) :
    Marks records key := by
  obtain ⟨r, hr, hop, hkey⟩ := h
  exact ⟨r, hr, tracked_iff.mpr (.inr hop), hkey⟩

section Effect

variable {K : Type} [LinearOrder K] {mvccKey : Record → K} {w : FlushWorld} {batch : List Record}
  {tracker tracker' : Tracker} {key : String}

theorem sortRecords_nil : sortRecordsByMvccTimestamp mvccKey [] = [] := List.mergeSort_nil

/-- The keys that are dropped are gone, the others that are marked are there, and the rest
are left alone. -/
theorem flush_tracker (h : flush mvccKey w batch tracker = .ok tracker') :
    (Drops (sortRecordsByMvccTimestamp mvccKey batch) key → tracker' key = none) ∧
    (¬ Drops (sortRecordsByMvccTimestamp mvccKey batch) key →
      Marks (sortRecordsByMvccTimestamp mvccKey batch) key →
        tracker' key = some ⟨w.tag, some w.deadline⟩) ∧
    (¬ Marks (sortRecordsByMvccTimestamp mvccKey batch) key → tracker' key = tracker key) := by
  unfold flush at h
  split at h
  next hempty =>
    cases h
    have hnil : ∀ r, ¬ Survives (sortRecordsByMvccTimestamp mvccKey batch) r := fun r hr => by
      have hmem := hr.mem
      rw [List.isEmpty_iff.mp hempty, sortRecords_nil] at hmem
      cases hmem
    have hmarks : ¬ Marks (sortRecordsByMvccTimestamp mvccKey batch) key := fun hmarks =>
      hnil _ hmarks.choose_spec.1
    exact ⟨fun hdrops => absurd hdrops.marks hmarks, fun _ h => absurd h hmarks, fun _ => rfl⟩
  · obtain ⟨st, hst, h⟩ := bind_eq_ok.mp h
    obtain ⟨_, _, h⟩ := bind_eq_ok.mp h
    cases h
    obtain ⟨hcache, hdelete, hother⟩ := planTracked_keys hst
    rw [List.nil_append] at hcache hdelete
    have hafter : ((st.2.putAll st.1.cacheKeys ⟨w.tag, some w.deadline⟩).removeAll
        st.1.deleteKeys) key =
        if key ∈ st.1.deleteKeys then none
        else if key ∈ st.1.cacheKeys then some ⟨w.tag, some w.deadline⟩ else st.2 key := by
      rw [Expiring.removeAll_apply, Expiring.putAll_apply]
    rw [hafter, hdelete, hcache]
    refine ⟨fun hdrops => if_pos (mem_deleteKeys_iff.mpr hdrops), fun hdrops hmarks => ?_,
      fun hmarks => ?_⟩
    · rw [if_neg fun hmem => hdrops (mem_deleteKeys_iff.mp hmem),
        if_pos (mem_cacheKeys_iff.mpr hmarks)]
    · rw [if_neg fun hmem => hmarks (mem_deleteKeys_iff.mp hmem).marks,
        if_neg fun hmem => hmarks (mem_cacheKeys_iff.mp hmem)]
      exact hother key fun hmem => hmarks (mem_cacheKeys_iff.mp hmem)

end Effect

/-! ## When the keys follow the operations -/

/-- The last insert or delete of an object. -/
def lastOperation (records : List Record) (p : String × String) : Option String :=
  ((records.filter fun r => tracked r && decide (r.pair = p)).getLast?).map Record.operation

/-- The keys of the objects after a flush of the records, which are sorted. -/
structure Follows (objects : Set (String × String)) (records : List Record)
    (tracker tracker' : Tracker) : Prop where
  inserted : ∀ p ∈ objects, lastOperation records p = some "INSERT" → tracker' (pairKey p) ≠ none
  deleted : ∀ p ∈ objects, lastOperation records p = some "DELETE" → tracker' (pairKey p) = none
  others : ∀ p ∈ objects, lastOperation records p = none → tracker' (pairKey p) = tracker (pairKey p)

/-- Every flush of the batch that returns leaves the keys as they should be. -/
def TrackerFollows {K : Type} [LinearOrder K] (mvccKey : Record → K)
    (objects : Set (String × String)) (batch : List Record) : Prop :=
  ∀ w tracker tracker', flush mvccKey w batch tracker = .ok tracker' →
    Follows objects (sortRecordsByMvccTimestamp mvccKey batch) tracker tracker'

/-- What survives has the keys that it should have. -/
structure Sound (objects : Set (String × String)) (records : List Record) : Prop where
  inserted : ∀ p ∈ objects, lastOperation records p = some "INSERT" →
    ¬ Drops records (pairKey p) ∧ Marks records (pairKey p)
  deleted : ∀ p ∈ objects, lastOperation records p = some "DELETE" → Drops records (pairKey p)
  others : ∀ p ∈ objects, lastOperation records p = none → ¬ Marks records (pairKey p)

/-- No object that was last inserted has a delete in the batch. -/
def NoneReinserted (records : List Record) : Prop :=
  ∀ p, lastOperation records p = some "INSERT" → ∀ r ∈ records, r.pair = p → r.operation ≠ "DELETE"

/-- No two of the objects have one key, or one group. -/
structure Apart (objects : Set (String × String)) : Prop where
  key : Set.InjOn pairKey objects
  group : Set.InjOn concat objects

section Iff

variable {K : Type} [LinearOrder K] {mvccKey : Record → K} {objects : Set (String × String)}
  {batch records : List Record}

theorem follows_of_sound (h : Sound objects (sortRecordsByMvccTimestamp mvccKey batch)) :
    TrackerFollows mvccKey objects batch := by
  intro w tracker tracker' hrun
  refine ⟨fun p hp hlast => ?_, fun p hp hlast => ?_, fun p hp hlast => ?_⟩
  · obtain ⟨hdrops, hmarks⟩ := h.inserted p hp hlast
    rw [(flush_tracker hrun).2.1 hdrops hmarks]
    exact Option.some_ne_none _
  · exact (flush_tracker hrun).1 (h.deleted p hp hlast)
  · exact (flush_tracker hrun).2.2 (h.others p hp hlast)

/-- A registry with a schema for every table, and a server that runs everything. -/
def easyWorld : FlushWorld where
  registry := ⟨fun _ => .ok (true, ""), fun _ _ => .ok ⟨Dict.empty, [], "", ""⟩⟩
  clock := fun _ => 0
  execMultiStatement := fun _ n => .ok n
  tag := "now"
  deadline := 0

theorem exists_flush (mvccKey : Record → K) (batch : List Record) (tracker : Tracker) :
    ∃ tracker', flush mvccKey easyWorld batch tracker = .ok tracker' := by
  have hplan : ∀ (records : List Record) (start : Nat) (st : FlushPlan × Tracker),
      ∃ st', (records.zipIdx start).foldlM (planTracked easyWorld) st = .ok st' := by
    intro records
    induction records with
    | nil => intro start st; exact ⟨st, rfl⟩
    | cons r rest ih =>
      intro start st
      have hnext : ∃ next, planTracked easyWorld st (r, start) = .ok next := by
        unfold planTracked planRecord
        split <;> exact ⟨_, rfl⟩
      obtain ⟨next, hnext⟩ := hnext
      obtain ⟨st', hst'⟩ := ih (start + 1) next
      refine ⟨st', ?_⟩
      rw [List.zipIdx_cons, List.foldlM_cons, hnext]
      exact hst'
  unfold flush
  split
  · exact ⟨tracker, rfl⟩
  · obtain ⟨st, hst⟩ := hplan (combineRecordsWithSamePrimaryKey
      (sortRecordsByMvccTimestamp mvccKey batch)) 0 (⟨[], [], []⟩, tracker)
    have hexec : execPlan easyWorld st.1 = .ok st.1.statementCount := by
      unfold execPlan
      split
      · rfl
      next hnone => rw [Nat.eq_zero_of_not_pos hnone]
    exact ⟨_, bind_eq_ok.mpr ⟨st, hst, bind_eq_ok.mpr ⟨_, hexec, rfl⟩⟩⟩

/-- The tracker that knows no key, and the one that knows all of them. -/
theorem sound_of_follows (h : TrackerFollows mvccKey objects batch) :
    Sound objects (sortRecordsByMvccTimestamp mvccKey batch) := by
  obtain ⟨fresh, hfresh⟩ := exists_flush mvccKey batch fun _ => none
  obtain ⟨full, hfull⟩ := exists_flush mvccKey batch fun _ => some ⟨"before", none⟩
  have hfollows := h _ _ _ hfresh
  have hfollows' := h _ _ _ hfull
  refine ⟨fun p hp hlast => ⟨fun hdrops => ?_, ?_⟩, fun p hp hlast => ?_, fun p hp hlast hmarks => ?_⟩
  · exact hfollows.inserted p hp hlast ((flush_tracker hfresh).1 hdrops)
  · by_contra hmarks
    exact hfollows.inserted p hp hlast ((flush_tracker hfresh).2.2 hmarks)
  · by_contra hdrops
    have hgone := hfollows'.deleted p hp hlast
    by_cases hmarks : Marks (sortRecordsByMvccTimestamp mvccKey batch) (pairKey p)
    · rw [(flush_tracker hfull).2.1 hdrops hmarks] at hgone
      cases hgone
    · rw [(flush_tracker hfull).2.2 hmarks] at hgone
      cases hgone
  · have hkept := hfollows'.others p hp hlast
    by_cases hdrops : Drops (sortRecordsByMvccTimestamp mvccKey batch) (pairKey p)
    · rw [(flush_tracker hfull).1 hdrops] at hkept
      cases hkept
    · rw [(flush_tracker hfull).2.1 hdrops hmarks] at hkept
      have hdeadline := congrArg Timed.deadline (Option.some.inj hkept)
      cases hdeadline

theorem trackerFollows_iff_sound :
    TrackerFollows mvccKey objects batch ↔
      Sound objects (sortRecordsByMvccTimestamp mvccKey batch) :=
  ⟨sound_of_follows, follows_of_sound⟩

/-! ### Objects that are written apart -/

/-- The last of the entries with a property. -/
theorem exists_last {α : Type} {P : α → Prop} {l : List α} (h : ∃ a ∈ l, P a) :
    ∃ before a after, l = before ++ a :: after ∧ P a ∧ ∀ b ∈ after, ¬ P b := by
  induction l with
  | nil =>
    obtain ⟨a, ha, _⟩ := h
    cases ha
  | cons c rest ih =>
    by_cases hrest : ∃ a ∈ rest, P a
    · obtain ⟨before, a, after, rfl, ha, hafter⟩ := ih hrest
      exact ⟨c :: before, a, after, rfl, ha, hafter⟩
    · obtain ⟨a, ha, hP⟩ := h
      rcases List.mem_cons.mp ha with rfl | ha
      · exact ⟨[], a, rest, rfl, hP, fun b hb hPb => hrest ⟨b, hb, hPb⟩⟩
      · exact absurd ⟨a, ha, hP⟩ hrest

theorem lastOperation_eq_some {p : String × String} {op : String}
    (h : lastOperation records p = some op) :
    ∃ r ∈ records, tracked r = true ∧ r.pair = p ∧ r.operation = op := by
  obtain ⟨r, hr, hop⟩ := Option.map_eq_some_iff.mp h
  obtain ⟨hr, htracked⟩ := List.mem_filter.mp (List.mem_of_getLast? hr)
  rw [Bool.and_eq_true, decide_eq_true_iff] at htracked
  exact ⟨r, hr, htracked.1, htracked.2, hop⟩

theorem lastOperation_eq_none {p : String × String} (h : lastOperation records p = none) :
    ∀ r ∈ records, tracked r = true → r.pair ≠ p := by
  intro r hr htracked hpair
  rw [lastOperation, Option.map_eq_none_iff, List.getLast?_eq_none_iff, List.filter_eq_nil_iff] at h
  refine h r hr ?_
  rw [htracked, decide_eq_true hpair]
  rfl

variable (hapart : Apart objects) (hrecords : ∀ r ∈ records, r.pair ∈ objects)

include hapart hrecords

theorem drops_iff {p : String × String} (hp : p ∈ objects) :
    Drops records (pairKey p) ↔ ∃ r ∈ records, r.pair = p ∧ r.operation = "DELETE" := by
  constructor
  · intro h
    obtain ⟨r, hr, hop, hkey⟩ := h
    exact ⟨r, hr.mem, hapart.key (hrecords r hr.mem) hp hkey, hop⟩
  · intro h
    obtain ⟨before, r, after, rfl, ⟨hpair, hop⟩, hafter⟩ := exists_last h
    refine ⟨r, ⟨before, after, rfl, fun d hd hgroup hdelete => ?_⟩, hop, by rw [← hpair, trackerKey_eq]⟩
    have hd' := hrecords d (List.mem_append_right _ (List.mem_cons_of_mem r hd))
    have hr' := hrecords r (List.mem_append_right _ List.mem_cons_self)
    exact hafter d hd ⟨(hapart.group hd' hr' hgroup).trans hpair, hdelete⟩

theorem marks_iff {p : String × String} (hp : p ∈ objects) :
    Marks records (pairKey p) ↔ ∃ r ∈ records, r.pair = p ∧ tracked r = true := by
  constructor
  · intro h
    obtain ⟨r, hr, htracked, hkey⟩ := h
    exact ⟨r, hr.mem, hapart.key (hrecords r hr.mem) hp hkey, htracked⟩
  · intro h
    obtain ⟨before, r, after, rfl, ⟨hpair, htracked⟩, hafter⟩ := exists_last h
    refine ⟨r, ⟨before, after, rfl, fun d hd hgroup hdelete => ?_⟩, htracked,
      by rw [← hpair, trackerKey_eq]⟩
    have hd' := hrecords d (List.mem_append_right _ (List.mem_cons_of_mem r hd))
    have hr' := hrecords r (List.mem_append_right _ List.mem_cons_self)
    exact hafter d hd ⟨(hapart.group hd' hr' hgroup).trans hpair, tracked_iff.mpr (.inr hdelete)⟩

theorem sound_iff_noneReinserted : Sound objects records ↔ NoneReinserted records := by
  constructor
  · intro h p hlast r hr hpair hdelete
    have hp : p ∈ objects := hpair ▸ hrecords r hr
    exact (h.inserted p hp hlast).1 ((drops_iff hapart hrecords hp).mpr ⟨r, hr, hpair, hdelete⟩)
  · intro h
    refine ⟨fun p hp hlast => ?_, fun p hp hlast => ?_, fun p hp hlast hmarks => ?_⟩
    · obtain ⟨r, hr, htracked, hpair, _⟩ := lastOperation_eq_some hlast
      refine ⟨fun hdrops => ?_, (marks_iff hapart hrecords hp).mpr ⟨r, hr, hpair, htracked⟩⟩
      obtain ⟨d, hd, hd', hdelete⟩ := (drops_iff hapart hrecords hp).mp hdrops
      exact h p hlast d hd hd' hdelete
    · obtain ⟨r, hr, _, hpair, hop⟩ := lastOperation_eq_some hlast
      exact (drops_iff hapart hrecords hp).mpr ⟨r, hr, hpair, hop⟩
    · obtain ⟨r, hr, hpair, htracked⟩ := (marks_iff hapart hrecords hp).mp hmarks
      exact lastOperation_eq_none hlast r hr htracked hpair

end Iff

/-- The keys follow the operations in every flush of a batch exactly if what survives
coalescing has the right keys.  Where no two objects are written alike, this is so
exactly if no object that was last inserted has a delete in the batch. -/
theorem trackerFollows_iff {K : Type} [LinearOrder K] {mvccKey : Record → K}
    {objects : Set (String × String)} {batch : List Record}
    (hbatch : ∀ r ∈ batch, r.pair ∈ objects) :
    (TrackerFollows mvccKey objects batch ↔
      Sound objects (sortRecordsByMvccTimestamp mvccKey batch)) ∧
    (Apart objects → (TrackerFollows mvccKey objects batch ↔
      NoneReinserted (sortRecordsByMvccTimestamp mvccKey batch))) := by
  refine ⟨trackerFollows_iff_sound, fun hapart => ?_⟩
  rw [trackerFollows_iff_sound]
  refine sound_iff_noneReinserted hapart fun r hr => hbatch r ?_
  exact (List.mergeSort_perm batch _).mem_iff.mp hr

/-! ### A deleted object that comes back -/

/-- A change of the row `1`, at a whole number of nanoseconds. -/
def userChange (operation : String) (mvcc : Nat) : Record where
  table := "user"
  id := "1"
  operation := operation
  diff := none
  object := some [("id", .str "1")]
  event := some
    { operation := .str operation
      table := .str "user"
      modelVersion := .str "1"
      object := some [("id", .str "1")]
      diff := .null
      timestamp := 0
      schemaValidatedPath := none
      mvccTimestamp := .str (toString mvcc) }

/-- `float` of a whole number. -/
def wholeMvcc (r : Record) : Nat :=
  match r.event.map DBChangeEvent.mvccTimestamp with
  | some (.str s) => readNat s.toList
  | _ => 0

def userOne : Set (String × String) := {("user", "1")}

theorem apart_userOne : Apart userOne := ⟨Set.injOn_singleton _ _, Set.injOn_singleton _ _⟩

/-- The row is there and the tracker does not know it. -/
theorem reinserted_forgotten :
    (∃ tracker', flush wholeMvcc easyWorld [userChange "DELETE" 1, userChange "INSERT" 2]
        (fun _ => none) = .ok tracker' ∧ tracker' "snowflake:user:1" = none) ∧
    ¬ TrackerFollows wholeMvcc userOne [userChange "DELETE" 1, userChange "INSERT" 2] := by
  have hsorted : sortRecordsByMvccTimestamp wholeMvcc
      [userChange "DELETE" 1, userChange "INSERT" 2] =
      [userChange "DELETE" 1, userChange "INSERT" 2] := by
    refine List.mergeSort_of_pairwise ?_
    decide
  have hdrops : Drops [userChange "DELETE" 1, userChange "INSERT" 2] "snowflake:user:1" := by
    refine ⟨userChange "DELETE" 1, ⟨[], [userChange "INSERT" 2], rfl, ?_⟩, rfl, rfl⟩
    intro d hd _
    rw [List.mem_singleton.mp hd]
    decide
  constructor
  · obtain ⟨tracker', hrun⟩ := exists_flush wholeMvcc
      [userChange "DELETE" 1, userChange "INSERT" 2] fun _ => none
    refine ⟨tracker', hrun, (flush_tracker hrun).1 ?_⟩
    rw [hsorted]
    exact hdrops
  · intro h
    have hsound := trackerFollows_iff_sound.mp h
    rw [hsorted] at hsound
    exact (hsound.inserted ("user", "1") rfl (by decide)).1 hdrops

theorem trackerFollows_iff_userOne : TrackerFollows wholeMvcc userOne [userChange "INSERT" 1] := by
  have hsorted : sortRecordsByMvccTimestamp wholeMvcc [userChange "INSERT" 1] =
      [userChange "INSERT" 1] := List.mergeSort_singleton _
  have hbatch : ∀ r ∈ [userChange "INSERT" 1], r.pair ∈ userOne := fun r hr => by
    rw [List.mem_singleton.mp hr]
    rfl
  refine ((trackerFollows_iff hbatch).2 apart_userOne).mpr ?_
  rw [hsorted]
  intro p _ r hr _
  rw [List.mem_singleton.mp hr]
  decide

end Snowflake
end Drivers
end Eds
