import Eds.Event
import Eds.Collections.Collapse
import Mathlib.Data.Set.Function

/-!
# Coalescing a batch

A batch is grouped by table and id, and each group is collapsed: consecutive updates
become one record, and a delete drops what came before it.  The code edits the
records in place.  Each record belongs to one event and the one kept is the one that
is edited, so that the result is the same list with values for records.

The key of a group is the table's name followed by the id, with nothing between them.
-/

namespace Eds
namespace Util

open Collections

structure Record where
  table : String
  id : String
  operation : String
  diff : Option (List String)
  object : Option (List (String × Json))
  event : Option DBChangeEvent

/-- `o.update(o')` -/
def updateObject (o o' : List (String × Json)) : List (String × Json) :=
  o.map (fun f => (f.1, (o'.lookup f.1).getD f.2)) ++
    o'.filter fun f => !(o.map Prod.fst).contains f.1

/-- The names of `diff` that are new, behind those of `pdiff`. -/
def unionDiff (pdiff diff : List String) : List String :=
  diff.foldl (fun acc d => if d ∈ acc then acc else acc ++ [d]) pdiff

/-- `delete_with_batch`, `update_with_batch` and `without_batch`. -/
def batchType (record previous : Record) : Action :=
  if record.operation = "DELETE" then .reset
  else if record.operation = "UPDATE" then
    if previous.operation = "UPDATE" then .join else .keep
  else .keep

def mergeUpdate (previous record : Record) : Record :=
  { previous with
    diff := some (unionDiff (previous.diff.getD []) (record.diff.getD []))
    event := record.event
    object := some (updateObject (previous.object.getD []) (record.object.getD [])) }

def combine (records : List Record) : List Record := collapse batchType mergeUpdate records

def groupKey (r : Record) : String := r.table ++ r.id

def combineRecordsWithSamePrimaryKey (records : List Record) : List Record :=
  (groupBy groupKey records).flatMap fun group => combine group.2

def isDelete (r : Record) : Bool := r.operation == "DELETE"

def isUpdate (r : Record) : Bool := r.operation == "UPDATE"

theorem batchType_kinds : Kinds batchType mergeUpdate isDelete isUpdate := by
  refine ⟨fun a b ha => ?_, fun a b ha hb => ?_, fun a b ha hab => ?_, fun a ha => ?_, fun _ _ => rfl⟩
  · rw [batchType, if_pos (by simpa [isDelete] using ha)]
  · have hupdate : a.operation = "UPDATE" := by simpa [isUpdate] using ha
    rw [batchType, if_neg (by rw [hupdate]; decide), if_pos hupdate,
      if_pos (by simpa [isUpdate] using hb)]
  · have hdelete : ¬ a.operation = "DELETE" := by simpa [isDelete] using ha
    rw [batchType, if_neg hdelete]
    by_cases hupdate : a.operation = "UPDATE"
    · have hprevious := hab (by simpa [isUpdate] using hupdate)
      rw [if_pos hupdate, if_neg (by simpa [isUpdate] using hprevious)]
    · rw [if_neg hupdate]
  · have hupdate : a.operation = "UPDATE" := by simpa [isUpdate] using ha
    simp [isDelete, hupdate]

/-! ## Looking up in a merged object -/

theorem lookup_map_update (o o' : List (String × Json)) (name : String) :
    (o.map fun f => (f.1, (o'.lookup f.1).getD f.2)).lookup name =
      (o.lookup name).map fun v => (o'.lookup name).getD v := by
  induction o with
  | nil => rfl
  | cons f rest ih =>
    obtain ⟨key, v⟩ := f
    rw [List.map_cons, List.lookup_cons, List.lookup_cons]
    by_cases hkey : name = key
    · subst hkey
      simp
    · rw [beq_false_of_ne hkey]
      exact ih

theorem lookup_filter_new (o o' : List (String × Json)) {name : String}
    (hname : o.lookup name = none) :
    (o'.filter fun f => !(o.map Prod.fst).contains f.1).lookup name = o'.lookup name := by
  have hnew : (o.map Prod.fst).contains name = false := by
    rw [List.lookup_eq_none_iff] at hname
    rw [List.contains_eq_mem, decide_eq_false_iff_not, List.mem_map]
    intro h
    obtain ⟨f, hf, rfl⟩ := h
    simpa using hname f hf
  induction o' with
  | nil => rfl
  | cons f rest ih =>
    obtain ⟨key, v⟩ := f
    by_cases hkey : name = key
    · subst hkey
      rw [List.filter_cons_of_pos (by simpa using hnew)]
      simp
    · rw [List.lookup_cons, beq_false_of_ne hkey, List.filter_cons]
      split
      · rw [List.lookup_cons, beq_false_of_ne hkey]
        exact ih
      · exact ih

/-- The later object wins. -/
theorem lookup_updateObject (o o' : List (String × Json)) (name : String) :
    (updateObject o o').lookup name = (o'.lookup name).or (o.lookup name) := by
  rw [updateObject, List.lookup_append, lookup_map_update]
  cases ho : o.lookup name with
  | none =>
    rw [Option.map_none, Option.none_or, lookup_filter_new o o' ho, Option.or_none]
  | some v => cases o'.lookup name <;> rfl

theorem mem_unionDiff {pdiff diff : List String} {d : String} :
    d ∈ unionDiff pdiff diff ↔ d ∈ pdiff ∨ d ∈ diff := by
  induction diff generalizing pdiff with
  | nil => simp [unionDiff]
  | cons e rest ih =>
    rw [unionDiff, List.foldl_cons]
    refine ih.trans ?_
    by_cases he : e ∈ pdiff
    · rw [if_pos he, List.mem_cons]
      constructor
      · intro hgiven
        rcases hgiven with h | h
        · exact Or.inl h
        · exact Or.inr (Or.inr h)
      · intro hgiven
        rcases hgiven with h | rfl | h
        · exact Or.inl h
        · exact Or.inl he
        · exact Or.inr h
    · rw [if_neg he, List.mem_append, List.mem_singleton, List.mem_cons, or_assoc]

/-- Only the first list can hold a name twice. -/
theorem nodup_unionDiff {pdiff diff : List String} :
    (unionDiff pdiff diff).Nodup ↔ pdiff.Nodup := by
  induction diff generalizing pdiff with
  | nil => exact Iff.rfl
  | cons e rest ih =>
    rw [unionDiff, List.foldl_cons]
    refine ih.trans ?_
    by_cases he : e ∈ pdiff
    · rw [if_pos he]
    · have hfresh : pdiff.Disjoint [e] := List.disjoint_singleton.mpr he
      rw [if_neg he, List.nodup_append']
      exact ⟨fun h => h.1, fun h => ⟨h, List.nodup_singleton e, hfresh⟩⟩

/-! ## Groups and objects -/

/-- The table and the id a record is about. -/
def Record.pair (r : Record) : String × String := (r.table, r.id)

def concat (p : String × String) : String := p.1 ++ p.2

/-- Merging keeps the table and the id, so a property of them survives. -/
theorem combine_forall_pair {P : String × String → Prop} {records : List Record}
    (hrecords : ∀ r ∈ records, P r.pair) : ∀ r ∈ combine records, P r.pair := by
  refine collapse_forall (P := fun r : Record => P r.pair) (fun _ _ _ hprevious _ => ?_) hrecords
  exact hprevious

theorem combine_groupKey (k : String) (records : List Record)
    (hrecords : ∀ r ∈ records, groupKey r = k) : ∀ r ∈ combine records, groupKey r = k :=
  combine_forall_pair (P := fun p => concat p = k) hrecords

theorem combine_pair {p : String × String} {records : List Record}
    (hrecords : ∀ r ∈ records, r.pair = p) : ∀ r ∈ combine records, r.pair = p :=
  combine_forall_pair (P := fun q => q = p) hrecords

/-- At one key the batch is coalesced like the group of that key. -/
theorem combineRecords_filter_groupKey (records : List Record) (k : String) :
    (combineRecordsWithSamePrimaryKey records).filter (fun r => decide (groupKey r = k)) =
      combine (records.filter fun r => decide (groupKey r = k)) :=
  filter_flatMap_groupBy groupKey rfl combine_groupKey records k

/-- Records of one key form one group. -/
theorem combineRecords_of_groupKey {records : List Record} {k : String}
    (hrecords : ∀ r ∈ records, groupKey r = k) :
    combineRecordsWithSamePrimaryKey records = combine records := by
  have hout : ∀ r ∈ combineRecordsWithSamePrimaryKey records, groupKey r = k := by
    intro r hr
    obtain ⟨⟨k', group⟩, hgroup, hr⟩ := List.mem_flatMap.mp hr
    refine combine_groupKey k group (fun r hr => hrecords r ?_) r hr
    rw [← groupOf_eq_of_mem (keys_groupBy_nodup groupKey records) hgroup, groupOf_groupBy] at hr
    exact List.mem_of_mem_filter hr
  have hall := combineRecords_filter_groupKey records k
  rw [List.filter_eq_self.mpr fun r hr => decide_eq_true (hout r hr),
    List.filter_eq_self.mpr fun r hr => decide_eq_true (hrecords r hr)] at hall
  exact hall

/-- What the records of a pair become depends on the records of that pair only. -/
def Local (records : List Record) : Prop :=
  ∀ p, (combineRecordsWithSamePrimaryKey records).filter (fun r => decide (r.pair = p)) =
    combineRecordsWithSamePrimaryKey (records.filter fun r => decide (r.pair = p))

theorem filter_pair_of_groupKey (l : List Record) (p : String × String) :
    (l.filter fun r => decide (groupKey r = concat p)).filter (fun r => decide (r.pair = p)) =
      l.filter fun r => decide (r.pair = p) := by
  rw [List.filter_filter]
  refine List.filter_congr fun r _ => ?_
  by_cases hr : r.pair = p
  · have hkey : groupKey r = concat p := congrArg concat hr
    simp [hr, hkey]
  · simp [hr]

theorem local_of_injOn {records : List Record}
    (hinj : Set.InjOn concat {p | ∃ r ∈ records, r.pair = p}) : Local records := by
  intro p
  rw [← filter_pair_of_groupKey, combineRecords_filter_groupKey]
  by_cases hp : ∃ r ∈ records, r.pair = p
  · have hgroup : (records.filter fun r => decide (groupKey r = concat p)) =
        records.filter fun r => decide (r.pair = p) := by
      refine List.filter_congr fun r hr => ?_
      have hiff : groupKey r = concat p ↔ r.pair = p :=
        ⟨fun hkey => hinj ⟨r, hr, rfl⟩ hp hkey, fun hpair => congrArg concat hpair⟩
      simp only [hiff]
    have hpairs : ∀ r ∈ records.filter (fun r => decide (r.pair = p)), r.pair = p :=
      fun r hr => of_decide_eq_true (List.mem_filter.mp hr).2
    rw [hgroup, List.filter_eq_self.mpr fun r hr => decide_eq_true (combine_pair hpairs r hr)]
    exact (combineRecords_of_groupKey fun r hr => congrArg concat (hpairs r hr)).symm
  · -- Nothing is about `p`, and nothing that is coalesced becomes so.
    have hnone : records.filter (fun r => decide (r.pair = p)) = [] :=
      List.filter_eq_nil_iff.mpr fun r hr hpair => hp ⟨r, hr, of_decide_eq_true hpair⟩
    have hother : ∀ r ∈ records.filter (fun r => decide (groupKey r = concat p)), r.pair ≠ p :=
      fun r hr hpair => hp ⟨r, List.mem_of_mem_filter hr, hpair⟩
    have hout := combine_forall_pair (P := fun q => q ≠ p) hother
    rw [hnone, List.filter_eq_nil_iff.mpr fun r hr => by simpa using hout r hr]
    rfl

/-- A record with an object of one field, for the examples below. -/
def Record.sample (table id operation : String) (diff : List String) : Record where
  table := table
  id := id
  operation := operation
  diff := some diff
  object := some [("id", .str id)]
  event := none

theorem not_local_of_collision {p q : String × String} (hpq : p ≠ q) (hconcat : concat p = concat q) :
    ¬ Local [Record.sample p.1 p.2 "INSERT" [], Record.sample q.1 q.2 "DELETE" []] := by
  intro hlocal
  have hkey : groupKey (Record.sample q.1 q.2 "DELETE" []) = concat p := hconcat.symm
  have hat := hlocal p
  have hleft : combineRecordsWithSamePrimaryKey
      [Record.sample p.1 p.2 "INSERT" [], Record.sample q.1 q.2 "DELETE" []] =
      [Record.sample q.1 q.2 "DELETE" []] :=
    combineRecords_of_groupKey (k := concat p) (by simpa using ⟨rfl, hkey⟩)
  have hp : (Record.sample p.1 p.2 "INSERT" []).pair = p := rfl
  have hq : (Record.sample q.1 q.2 "DELETE" []).pair = q := rfl
  rw [hleft, List.filter_cons_of_neg (by simpa [hq] using hpq.symm),
    List.filter_cons_of_pos (by simp [hp]),
    List.filter_cons_of_neg (by simpa [hq] using hpq.symm)] at hat
  cases hat

/-- Coalescing is local for every batch over a set of tables and ids exactly when no
two of them are written alike. -/
theorem combineRecords_local_iff (pairs : Set (String × String)) :
    (∀ records : List Record, (∀ r ∈ records, r.pair ∈ pairs) → Local records) ↔
      Set.InjOn concat pairs := by
  constructor
  · intro hlocal p hp q hq hconcat
    by_contra hpq
    refine not_local_of_collision hpq hconcat (hlocal _ ?_)
    intro r hr
    rcases List.mem_cons.mp hr with rfl | hr
    · exact hp
    · rw [List.mem_singleton.mp hr]
      exact hq
  · intro hinj records hrecords
    refine local_of_injOn (hinj.mono ?_)
    intro p h
    obtain ⟨r, hr, rfl⟩ := h
    exact hrecords r hr

/-- A delete of row `c` of table `ab` drops the insert of row `bc` of table `a`. -/
theorem combineRecords_not_local :
    ¬ Local [Record.sample "a" "bc" "INSERT" [], Record.sample "ab" "c" "DELETE" []] :=
  not_local_of_collision (p := ("a", "bc")) (q := ("ab", "c")) (by decide) (by decide)

end Util
end Eds
