import Eds.Util.Optimize
import Mathlib.Data.List.TakeWhile

/-!
# Where a coalesced record comes from

The same coalescing over records that carry the positions they come from.
`combineSourced_record` says that the positions change nothing, and
`exists_combineSourced_iff` which coalesced record an update ends up in: the merge
of the run of updates around it, unless a delete of its group comes later.
-/

namespace Eds
namespace Util

open Collections

structure Sourced where
  record : Record
  sources : List Nat

namespace Sourced

def batchType (a previous : Sourced) : Action := Util.batchType a.record previous.record

def mergeUpdate (previous a : Sourced) : Sourced :=
  ⟨Util.mergeUpdate previous.record a.record, previous.sources ++ a.sources⟩

def groupKey (a : Sourced) : String := Util.groupKey a.record

def isDelete (a : Sourced) : Bool := Util.isDelete a.record

def isUpdate (a : Sourced) : Bool := Util.isUpdate a.record

def combine (l : List Sourced) : List Sourced := collapse batchType mergeUpdate l

theorem kinds : Kinds batchType mergeUpdate isDelete isUpdate := by
  have h := batchType_kinds
  refine ⟨fun a b => h.reset _ _, fun a b => h.joined _ _, fun a b => h.keep _ _, fun a => h.apart _,
    fun a b => h.joins_join _ _⟩

end Sourced

/-- Each record with its position. -/
def sourced (records : List Record) (start : Nat) : List Sourced :=
  (records.zipIdx start).map fun p => ⟨p.1, [p.2]⟩

def combineSourced (records : List Record) : List Sourced :=
  (groupBy Sourced.groupKey (sourced records 0)).flatMap fun group => Sourced.combine group.2

theorem record_sourced (records : List Record) (start : Nat) :
    (sourced records start).map Sourced.record = records := by
  rw [sourced, List.map_map]
  exact List.zipIdx_map_fst start records

/-- Coalescing does not look at the positions. -/
theorem combineSourced_record (records : List Record) :
    (combineSourced records).map Sourced.record = combineRecordsWithSamePrimaryKey records := by
  have hcombine : ∀ l, (Sourced.combine l).map Sourced.record = combine (l.map Sourced.record) :=
    map_collapse Sourced.record (fun _ _ => rfl) fun _ _ => rfl
  rw [combineSourced, List.map_flatMap, combineRecordsWithSamePrimaryKey]
  conv_rhs => rw [← record_sourced records 0, groupBy_map, List.flatMap_map]
  exact congrArg (fun f => List.flatMap f _) (funext fun g => hcombine g.2)

theorem mem_sourced {records : List Record} {start : Nat} {a : Sourced}
    (ha : a ∈ sourced records start) :
    ∃ i, a.sources = [start + i] ∧ records[i]? = some a.record := by
  obtain ⟨⟨r, j⟩, hmem, rfl⟩ := List.mem_map.mp ha
  obtain ⟨i, hi, hr⟩ : ∃ i, j = start + i ∧ records[i]? = some r := by
    obtain ⟨hle, hget⟩ := List.mk_mem_zipIdx_iff_le_and_getElem?_sub.mp hmem
    exact ⟨j - start, by omega, hget⟩
  exact ⟨i, by rw [hi], hr⟩

/-- The updates of the group around the record at `i`. -/
def updateRun (records : List Record) (i : Nat) (u : Record) : List Record :=
  let own := fun r => decide (groupKey r = groupKey u)
  ((((records.take i).filter own).reverse.takeWhile isUpdate).reverse) ++
    u :: ((records.drop (i + 1)).filter own).takeWhile isUpdate

theorem mem_updateRun_self (records : List Record) (i : Nat) (u : Record) :
    u ∈ updateRun records i u := by
  simp [updateRun]

/-- A delete of the group comes after the record at `i`. -/
def DeletedLater (records : List Record) (i : Nat) (u : Record) : Prop :=
  ∃ r ∈ records.drop (i + 1), groupKey r = groupKey u ∧ r.operation = "DELETE"

section Host

variable {l : List Sourced} {x : Sourced} {i : Nat}

/-- The positions of a merge are those of its parts. -/
theorem sources_foldl (rest : List Sourced) (a : Sourced) :
    (rest.foldl Sourced.mergeUpdate a).sources = a.sources ++ rest.flatMap Sourced.sources := by
  induction rest generalizing a with
  | nil => simp
  | cons b rest ih => rw [List.foldl_cons, ih, List.flatMap_cons, ← List.append_assoc]; rfl

theorem record_foldl (rest : List Sourced) (a : Sourced) :
    (rest.foldl Sourced.mergeUpdate a).record =
      (rest.map Sourced.record).foldl mergeUpdate a.record := by
  induction rest generalizing a with
  | nil => rfl
  | cons b rest ih => rw [List.foldl_cons, ih]; rfl

theorem combine_sources {i : Nat} {l : List Sourced} (hl : ∀ a ∈ l, i ∉ a.sources) :
    ∀ a ∈ Sourced.combine l, i ∉ a.sources := by
  refine collapse_forall (P := fun a : Sourced => i ∉ a.sources) (fun a b _ ha hb => ?_) hl
  simp [Sourced.mergeUpdate, ha, hb]

/-- The run of updates that holds `x`, and what is in front of it. -/
theorem exists_run (before : List Sourced) (hx : x.isUpdate = true) :
    ∃ front first more, before = front ++ (before.reverse.takeWhile Sourced.isUpdate).reverse ∧
      (before.reverse.takeWhile Sourced.isUpdate).reverse ++ [x] = first :: more ∧
      (∀ y ∈ front.getLast?, y.isUpdate = false) ∧ ∀ y ∈ first :: more, y.isUpdate = true := by
  obtain ⟨first, more, hrun⟩ : ∃ first more,
      (before.reverse.takeWhile Sourced.isUpdate).reverse ++ [x] = first :: more :=
    List.exists_cons_of_ne_nil (by simp)
  refine ⟨(before.reverse.dropWhile Sourced.isUpdate).reverse, first, more, ?_, hrun, ?_, ?_⟩
  · rw [← List.reverse_append, List.takeWhile_append_dropWhile, List.reverse_reverse]
  · intro y hy
    rw [List.getLast?_reverse] at hy
    have hnot := List.head?_dropWhile_not Sourced.isUpdate before.reverse
    rw [Option.mem_def.mp hy] at hnot
    simpa using hnot
  · rw [← hrun]
    intro y hy
    rcases List.mem_append.mp hy with hy | hy
    · exact List.mem_takeWhile_imp (List.mem_reverse.mp hy)
    · rw [List.mem_singleton.mp hy]
      exact hx

/-- The merge of a run. -/
def mergeRun : List Record → Option Record
  | [] => none
  | first :: rest => some (rest.foldl mergeUpdate first)

/-- A delete behind `x` leaves nothing of what came before it. -/
theorem notMem_sources_of_deleted {before after : List Sourced} (hafter : ∀ a ∈ after, i ∉ a.sources)
    (hdelete : ∃ a ∈ after, a.isDelete = true) :
    ∀ out ∈ Sourced.combine (before ++ x :: after), i ∉ out.sources := by
  have hcombine : ∃ st, Sourced.combine (before ++ x :: after) =
      collapseFrom Sourced.batchType Sourced.mergeUpdate st after := by
    cases before with
    | nil => exact ⟨_, rfl⟩
    | cons b rest =>
      refine ⟨(rest ++ [x]).foldl (collapseStep Sourced.batchType Sourced.mergeUpdate) ([], b), ?_⟩
      rw [List.cons_append, List.append_cons]
      exact collapse_append b (rest ++ [x]) after
  obtain ⟨st, hst⟩ := hcombine
  rw [hst]
  refine Sourced.kinds.collapseFrom_reset (P := fun a => i ∉ a.sources) (fun a b _ ha hb => ?_) hafter
    hdelete st
  simp [Sourced.mergeUpdate, ha, hb]

/-- Without one, the run around `x` becomes one record, between what comes of the rest. -/
theorem combine_around (before : List Sourced) {after : List Sourced} (hx : x.isUpdate = true)
    (hdelete : ∀ a ∈ after, a.isDelete = false) :
    ∃ front first more, before = front ++ (before.reverse.takeWhile Sourced.isUpdate).reverse ∧
      (before.reverse.takeWhile Sourced.isUpdate).reverse ++ x :: after.takeWhile Sourced.isUpdate =
        first :: more ∧
      Sourced.combine (before ++ x :: after) = Sourced.combine front ++
        more.foldl Sourced.mergeUpdate first ::
          Sourced.combine (after.dropWhile Sourced.isUpdate) := by
  obtain ⟨front, first, more, hsplit, hrun, hfront, hupdates⟩ := exists_run before hx
  refine ⟨front, first, more ++ after.takeWhile Sourced.isUpdate, hsplit, ?_, ?_⟩
  · rw [List.append_cons, hrun, List.cons_append]
  have hall : before ++ x :: after = front ++ first :: (more ++ after) := by
    calc before ++ x :: after
        = front ++ ((before.reverse.takeWhile Sourced.isUpdate).reverse ++ [x]) ++ after := by
          rw [← List.append_assoc, ← hsplit, List.append_assoc]
          rfl
      _ = front ++ first :: (more ++ after) := by
          rw [hrun, List.append_assoc, List.cons_append]
  have hmore : ∀ a ∈ more, a.isUpdate = true := fun a ha => hupdates a (List.mem_cons_of_mem _ ha)
  have hrest : ∀ a ∈ more ++ after, a.isDelete = false := by
    intro a ha
    rcases List.mem_append.mp ha with ha | ha
    · exact Sourced.kinds.apart a (hmore a ha)
    · exact hdelete a ha
  have hcombine := Sourced.kinds.collapse_append_run hfront (hupdates first List.mem_cons_self) hrest
  rw [List.takeWhile_append_of_pos hmore, List.dropWhile_append_of_pos hmore] at hcombine
  rw [hall, Sourced.combine, hcombine]
  rfl

theorem exists_combine_iff {before after : List Sourced} {Q : Record → Prop}
    (hx : x.isUpdate = true) (hi : i ∈ x.sources) (hbefore : ∀ a ∈ before, i ∉ a.sources)
    (hafter : ∀ a ∈ after, i ∉ a.sources) :
    (∃ out ∈ Sourced.combine (before ++ x :: after), i ∈ out.sources ∧ Q out.record) ↔
      (∀ a ∈ after, a.isDelete = false) ∧
        ∀ m ∈ mergeRun (((before.reverse.takeWhile Sourced.isUpdate).reverse ++
          x :: after.takeWhile Sourced.isUpdate).map Sourced.record), Q m := by
  by_cases hdelete : ∀ a ∈ after, a.isDelete = false
  · obtain ⟨front, first, more, hsplit, hrun, hcombine⟩ := combine_around before hx hdelete
    have hrecord := record_foldl more first
    -- The merge of the run carries the position, and nothing else does.
    have hhost : i ∈ (more.foldl Sourced.mergeUpdate first).sources := by
      have hmem : x ∈ first :: more := hrun ▸ by simp
      rw [sources_foldl, ← List.flatMap_cons]
      exact List.mem_flatMap.mpr ⟨x, hmem, hi⟩
    have hnear : ∀ a ∈ Sourced.combine front, i ∉ a.sources :=
      combine_sources fun a ha => hbefore a (hsplit ▸ List.mem_append_left _ ha)
    have hfar : ∀ a ∈ Sourced.combine (after.dropWhile Sourced.isUpdate), i ∉ a.sources :=
      combine_sources fun a ha => hafter a ((List.dropWhile_sublist _).subset ha)
    rw [hrun, hcombine, List.map_cons, mergeRun]
    simp only [Option.mem_some_iff, forall_eq']
    constructor
    · intro hgiven
      obtain ⟨out, hout, hsource, hQ⟩ := hgiven
      refine ⟨hdelete, ?_⟩
      rcases List.mem_append.mp hout with hout | hout
      · exact absurd hsource (hnear out hout)
      · rcases List.mem_cons.mp hout with rfl | hout
        · exact hrecord ▸ hQ
        · exact absurd hsource (hfar out hout)
    · intro hgiven
      exact ⟨_, List.mem_append_right _ List.mem_cons_self, hhost, hrecord ▸ hgiven.2⟩
  · refine iff_of_false ?_ fun h => hdelete h.1
    intro hgiven
    obtain ⟨out, hout, hsource, _⟩ := hgiven
    obtain ⟨a, ha, hda⟩ := not_forall₂.mp hdelete
    exact notMem_sources_of_deleted hafter ⟨a, ha, by simpa using hda⟩ out hout hsource

end Host

section Batch

variable {records : List Record} {i : Nat} {u : Record}

theorem sourced_split (hu : records[i]? = some u) (start : Nat) :
    sourced records start = sourced (records.take i) start ++
      ⟨u, [start + i]⟩ :: sourced (records.drop (i + 1)) (start + i + 1) := by
  induction records generalizing i start with
  | nil => cases hu
  | cons r rest ih =>
    cases i with
    | zero =>
      rw [List.getElem?_cons_zero, Option.some_inj] at hu
      subst hu
      rfl
    | succ i =>
      rw [List.getElem?_cons_succ] at hu
      have hrest := ih hu (start + 1)
      rw [show start + 1 + i = start + (i + 1) by omega] at hrest
      exact congrArg (List.cons ⟨r, [start]⟩) hrest

theorem source_lt {a : Sourced} (ha : a ∈ sourced (records.take i) 0) : i ∉ a.sources := by
  obtain ⟨j, hj, hr⟩ := mem_sourced ha
  have hlt : j < (records.take i).length := (List.getElem?_eq_some_iff.mp hr).1
  rw [List.length_take] at hlt
  rw [hj, List.mem_singleton]
  omega

theorem source_gt {a : Sourced} (ha : a ∈ sourced (records.drop (i + 1)) (i + 1)) :
    i ∉ a.sources := by
  obtain ⟨j, hj, _⟩ := mem_sourced ha
  rw [hj, List.mem_singleton]
  omega

/-- A position is found in the group of its record only. -/
theorem groupKey_of_source (hu : records[i]? = some u) {out : Sourced}
    (hout : out ∈ combineSourced records) (hi : i ∈ out.sources) :
    out.groupKey = groupKey u := by
  obtain ⟨⟨k, group⟩, hgroup, hout⟩ := List.mem_flatMap.mp hout
  have hmem := groupOf_eq_of_mem (keys_groupBy_nodup Sourced.groupKey (sourced records 0)) hgroup
  rw [groupOf_groupBy] at hmem
  have hall : ∀ a ∈ Sourced.combine group, a.groupKey = k ∧ (i ∈ a.sources → k = groupKey u) := by
    refine collapse_forall (P := fun a : Sourced => a.groupKey = k ∧ (i ∈ a.sources → k = groupKey u))
      (fun a b _ ha hb => ?_) fun a ha => ?_
    · exact ⟨ha.1, fun hab => (List.mem_append.mp hab).elim ha.2 hb.2⟩
    · rw [← hmem] at ha
      have hkey : a.groupKey = k := of_decide_eq_true (List.mem_filter.mp ha).2
      refine ⟨hkey, fun hia => ?_⟩
      obtain ⟨j, hj, hr⟩ := mem_sourced (List.mem_of_mem_filter ha)
      rw [hj, Nat.zero_add, List.mem_singleton] at hia
      rw [← hia, hu, Option.some_inj] at hr
      rw [← hkey, hr]
      rfl
  exact (hall out hout).1.trans ((hall out hout).2 hi)

theorem map_record_filter (l : List Record) (start : Nat) (k : String) :
    ((sourced l start).filter fun a => decide (a.groupKey = k)).map Sourced.record =
      l.filter fun r => decide (groupKey r = k) := by
  conv_rhs => rw [← record_sourced l start, List.filter_map]
  rfl

/-- The groups do not see each other. -/
theorem combineSourced_filter (records : List Record) (k : String) :
    (combineSourced records).filter (fun a => decide (a.groupKey = k)) =
      Sourced.combine ((sourced records 0).filter fun a => decide (a.groupKey = k)) := by
  refine filter_flatMap_groupBy Sourced.groupKey rfl (fun k as has => ?_) _ _
  refine collapse_forall (P := fun a : Sourced => a.groupKey = k) (fun _ _ _ ha _ => ?_) has
  exact ha

/-- The run around the update, without its positions. -/
theorem record_updateRun (records : List Record) (i : Nat) (u : Record) :
    (((((sourced (records.take i) 0).filter
      fun a => decide (a.groupKey = groupKey u)).reverse.takeWhile Sourced.isUpdate).reverse ++
      ⟨u, [i]⟩ :: ((sourced (records.drop (i + 1)) (i + 1)).filter
        fun a => decide (a.groupKey = groupKey u)).takeWhile Sourced.isUpdate).map Sourced.record) =
      updateRun records i u := by
  have hisUpdate : Sourced.isUpdate = isUpdate ∘ Sourced.record := rfl
  rw [List.map_append, List.map_cons, List.map_reverse, hisUpdate, ← List.takeWhile_map,
    ← List.takeWhile_map, List.map_reverse, map_record_filter, map_record_filter]
  rfl

theorem not_deletedLater_iff :
    (∀ a ∈ (sourced (records.drop (i + 1)) (i + 1)).filter
      (fun a => decide (a.groupKey = groupKey u)), a.isDelete = false) ↔
      ¬ DeletedLater records i u := by
  have hmap := map_record_filter (records.drop (i + 1)) (i + 1) (groupKey u)
  constructor
  · intro hnone h
    obtain ⟨r, hr, hkey, hdelete⟩ := h
    have hmem : r ∈ (records.drop (i + 1)).filter fun r => decide (groupKey r = groupKey u) :=
      List.mem_filter.mpr ⟨hr, decide_eq_true hkey⟩
    rw [← hmap] at hmem
    obtain ⟨a, ha, rfl⟩ := List.mem_map.mp hmem
    have := hnone a ha
    simp [Sourced.isDelete, isDelete, hdelete] at this
  · intro hnone a ha
    have hmem := List.mem_map_of_mem (f := Sourced.record) ha
    rw [hmap, List.mem_filter] at hmem
    by_contra hdelete
    exact hnone ⟨a.record, hmem.1, of_decide_eq_true hmem.2,
      by simpa [Sourced.isDelete, isDelete] using hdelete⟩

/-- The coalesced record that the update at `i` is part of: none if a delete of its
group comes later, else the merge of the run around it. -/
theorem exists_combineSourced_iff (hu : records[i]? = some u) (hop : u.operation = "UPDATE")
    {Q : Record → Prop} :
    (∃ out ∈ combineSourced records, i ∈ out.sources ∧ Q out.record) ↔
      ¬ DeletedLater records i u ∧ ∀ m ∈ mergeRun (updateRun records i u), Q m := by
  have hgroup := combineSourced_filter records (groupKey u)
  have hsplit := sourced_split hu 0
  rw [Nat.zero_add] at hsplit
  rw [hsplit, List.filter_append, List.filter_cons_of_pos (by simp [Sourced.groupKey])] at hgroup
  have hx : (⟨u, [i]⟩ : Sourced).isUpdate = true := by simp [Sourced.isUpdate, isUpdate, hop]
  have hlt : ∀ a ∈ (sourced (records.take i) 0).filter fun a => decide (a.groupKey = groupKey u),
      i ∉ a.sources := fun a ha => source_lt (List.mem_of_mem_filter ha)
  have hgt : ∀ a ∈ (sourced (records.drop (i + 1)) (i + 1)).filter
      fun a => decide (a.groupKey = groupKey u), i ∉ a.sources :=
    fun a ha => source_gt (List.mem_of_mem_filter ha)
  have hiff := exists_combine_iff (Q := Q) hx (List.mem_singleton_self i) hlt hgt
  rw [record_updateRun, not_deletedLater_iff, ← hgroup] at hiff
  refine Iff.trans ?_ hiff
  constructor
  · intro h
    obtain ⟨out, hout, hi, hQ⟩ := h
    exact ⟨out, List.mem_filter.mpr ⟨hout, decide_eq_true (groupKey_of_source hu hout hi)⟩, hi, hQ⟩
  · intro h
    obtain ⟨out, hout, hi, hQ⟩ := h
    exact ⟨out, List.mem_of_mem_filter hout, hi, hQ⟩

end Batch

end Util
end Eds
