import Eds.Drivers.Views

/-!
# The open row of a timeline

A row of the timeline is open if its `valid_to` is `NULL`.  The last row of an object
is open, and so is every row that is followed by one without an `mvcc`.
-/

namespace Eds
namespace Drivers

open Collections

variable {V M : Type} [LinearOrder M]

section Rows

variable {d : Dialect} {rows : List (HistoryRow V M)}

/-- Where `NULL` is low, the last row of the timeline is the first of the current order. -/
theorem last_timeline_low (hd : d.nullsHigh = false) (hseq : (rows.map HistoryRow.seq).Nodup)
    {r : HistoryRow V M} (h : (ranked d.nullsHigh d.timelineOrder rows).getLast? = some r) :
    (ranked d.nullsHigh d.currentOrder rows).head? = some r := by
  obtain ⟨hr, hmax⟩ := getLast_mergeSort (timeline_le_low hd) h
  exact head_current_eq hseq hr hmax

/-- Where `NULL` is high this needs every `mvcc`, or a single row. -/
theorem last_timeline_high (hd : d.nullsHigh = true) (hseq : (rows.map HistoryRow.seq).Nodup)
    (hrows : (∀ r ∈ rows, r.mvcc.isSome = true) ∨ rows.length = 1) {r : HistoryRow V M}
    (h : (ranked d.nullsHigh d.timelineOrder rows).getLast? = some r) :
    (ranked d.nullsHigh d.currentOrder rows).head? = some r := by
  obtain ⟨hr, hmax⟩ := getLast_mergeSort (timeline_le_high hd) h
  refine head_current_eq hseq hr fun r' hr' => ?_
  rcases hrows with hall | hone
  · exact lowKey_le_of_highKey_le (hall r' hr') (hall r hr) (hmax r' hr')
  · obtain ⟨x, rfl⟩ := List.length_eq_one_iff.mp hone
    rw [List.mem_singleton.mp hr, List.mem_singleton.mp hr']

/-- With `NULL` first, one missing `mvcc` may stand at the front. -/
theorem tail_low_iff (hd : d.nullsHigh = false) :
    (∀ r ∈ (ranked d.nullsHigh d.timelineOrder rows).tail, r.mvcc.isSome = true) ↔
      (rows.filter fun r => r.mvcc.isNone).length ≤ 1 := by
  have hperm := (ranked_perm d.nullsHigh d.timelineOrder rows).filter fun r => r.mvcc.isNone
  have hsorted := pairwise_mergeSort_key (timeline_le_low hd) rows
  rw [← hperm.length_eq]
  change (ranked d.nullsHigh d.timelineOrder rows).Pairwise _ at hsorted
  cases hranked : ranked d.nullsHigh d.timelineOrder rows with
  | nil => simp
  | cons first rest =>
    rw [hranked, List.pairwise_cons] at hsorted
    rw [List.tail_cons, List.filter_cons]
    constructor
    · intro hsome
      have hrest : rest.filter (fun r => r.mvcc.isNone) = [] := by
        refine List.filter_eq_nil_iff.mpr fun r hr => ?_
        rw [Option.isNone_eq_false_iff.mpr (hsome r hr)]
        exact Bool.false_ne_true
      rw [hrest]
      split <;> simp
    · intro hlength r hr
      by_contra hnone
      have hr_none : r.mvcc = none := by simpa using hnone
      have hfirst : first.mvcc = none := by
        have hle := mvcc_le_of_lowKey_le (hsorted.1 r hr)
        rw [hr_none] at hle
        cases hm : first.mvcc with
        | none => rfl
        | some m =>
          rw [hm] at hle
          exact absurd hle (not_le_of_gt (WithBot.bot_lt_coe m))
      have hmem : r ∈ rest.filter fun r => r.mvcc.isNone :=
        List.mem_filter.mpr ⟨hr, by rw [hr_none]; rfl⟩
      rw [if_pos (by rw [hfirst]; rfl), List.length_cons] at hlength
      have hpos := List.length_pos_of_mem hmem
      omega

/-- With `NULL` last, a missing `mvcc` must be alone. -/
theorem tail_high_iff (hd : d.nullsHigh = true) :
    (∀ r ∈ (ranked d.nullsHigh d.timelineOrder rows).tail, r.mvcc.isSome = true) ↔
      (∀ r ∈ rows, r.mvcc.isSome = true) ∨ rows.length ≤ 1 := by
  have hperm := ranked_perm d.nullsHigh d.timelineOrder rows
  have hsorted := pairwise_mergeSort_key (timeline_le_high hd) rows
  change (ranked d.nullsHigh d.timelineOrder rows).Pairwise _ at hsorted
  rw [← hperm.length_eq]
  have hmem : ∀ r, r ∈ rows ↔ r ∈ ranked d.nullsHigh d.timelineOrder rows :=
    fun r => hperm.mem_iff.symm
  simp only [hmem]
  cases hranked : ranked d.nullsHigh d.timelineOrder rows with
  | nil => simp
  | cons first rest =>
    rw [hranked, List.pairwise_cons] at hsorted
    rw [List.tail_cons, List.forall_mem_cons]
    constructor
    · intro hsome
      cases hm : first.mvcc with
      | some m => exact .inl ⟨rfl, hsome⟩
      | none =>
        right
        cases rest with
        | nil => exact le_rfl
        | cons second rest =>
          have hle := mvcc_le_of_highKey_le (hsorted.1 second List.mem_cons_self)
          obtain ⟨m, hsecond⟩ := Option.isSome_iff_exists.mp (hsome second List.mem_cons_self)
          rw [hm, hsecond] at hle
          exact absurd hle (not_le_of_gt (WithTop.coe_lt_top m))
    · intro h r hr
      rcases h with h | hone
      · exact h.2 r hr
      · rw [List.length_cons] at hone
        have hrest := List.length_pos_of_mem hr
        omega

end Rows

/-! ## Agreement -/

section Agreement

variable [DecidableEq V] (d : Dialect) (model : Schema) (history : List (HistoryRow V M))

/-- The object has one open row, the one that the current view ranks first. -/
def OneOpenRow (k : List (Option V)) : Prop :=
  ∃ r, (d.latest model history).filter (fun r => decide (r.toChange.object model = k)) = [r] ∧
    ((d.timeline model history).filter
      (fun p => decide (p.1.toChange.object model = k) && p.2.isNone)).map Prod.fst = [r]

/-- Every object of the history has. -/
def ViewsAgree : Prop := ∀ k, rowsOf model history k ≠ [] → OneOpenRow d model history k

/-- How many rows of an object may be without an `mvcc`. -/
def MvccKnown (d : Dialect) (rows : List (HistoryRow V M)) : Prop :=
  if d.nullsHigh then (∀ r ∈ rows, r.mvcc.isSome = true) ∨ rows.length = 1
  else (rows.filter fun r => r.mvcc.isNone).length ≤ 1

variable {d model history}

theorem oneOpenRow_ranked (k : List (Option V)) :
    OneOpenRow d model history k ↔ ∃ r,
      (ranked d.nullsHigh d.currentOrder (rowsOf model history k)).head? = some r ∧
      (ranked d.nullsHigh d.timelineOrder (rowsOf model history k)).getLast? = some r ∧
      ∀ r ∈ (ranked d.nullsHigh d.timelineOrder (rowsOf model history k)).tail,
        r.mvcc.isSome = true := by
  have hopen : ((d.timeline model history).filter
      (fun p => decide (p.1.toChange.object model = k) && p.2.isNone)).map Prod.fst =
      openRows (fun r => r.mvcc) (ranked d.nullsHigh d.timelineOrder (rowsOf model history k)) := by
    rw [openRows, ← timeline_filter, List.filter_filter]
    simp only [Bool.and_comm]
  refine exists_congr fun r => ?_
  rw [latest_filter, hopen, openRows_eq_singleton_iff]
  refine and_congr_left' ?_
  cases (ranked d.nullsHigh d.currentOrder (rowsOf model history k)).head? with
  | none => simp
  | some x => simp

theorem oneOpenRow_iff (hseq : (history.map HistoryRow.seq).Nodup) {k : List (Option V)}
    (hk : rowsOf model history k ≠ []) :
    OneOpenRow d model history k ↔ MvccKnown d (rowsOf model history k) := by
  have hrows : ((rowsOf model history k).map HistoryRow.seq).Nodup :=
    hseq.sublist (List.filter_sublist.map _)
  have hlast : ∃ r, (ranked d.nullsHigh d.timelineOrder (rowsOf model history k)).getLast? = some r := by
    refine Option.ne_none_iff_exists'.mp fun hnone => hk ?_
    rw [List.getLast?_eq_none_iff] at hnone
    exact ((ranked_perm d.nullsHigh d.timelineOrder _).symm.trans (by rw [hnone])).eq_nil
  obtain ⟨last, hlast⟩ := hlast
  rw [oneOpenRow_ranked, MvccKnown]
  by_cases hd : d.nullsHigh = true
  · have hlength : (rowsOf model history k).length = 1 ↔ (rowsOf model history k).length ≤ 1 := by
      have hpos := List.length_pos_iff.mpr hk
      omega
    rw [if_pos hd, hlength, ← tail_high_iff hd]
    constructor
    · intro h
      exact h.choose_spec.2.2
    · intro h
      have hknown := (tail_high_iff hd).mp h
      rw [← hlength] at hknown
      exact ⟨last, last_timeline_high hd hrows hknown hlast, hlast, h⟩
  · have hlow : d.nullsHigh = false := Bool.eq_false_iff.mpr hd
    rw [if_neg hd, ← tail_low_iff hlow]
    constructor
    · intro h
      exact h.choose_spec.2.2
    · intro h
      exact ⟨last, last_timeline_low hlow hrows hlast, hlast, h⟩

/-- The timeline has one open row for each object, and the current view ranks it first, if
the history is not missing too many `mvcc` values. -/
theorem timeline_agrees_iff (d : Dialect) (model : Schema) (history : List (HistoryRow V M))
    (hseq : (history.map HistoryRow.seq).Nodup) :
    ViewsAgree d model history ↔
      ∀ k, rowsOf model history k ≠ [] → MvccKnown d (rowsOf model history k) :=
  forall₂_congr fun _ hk => oneOpenRow_iff hseq hk

end Agreement

/-! ## Two changes without an mvcc -/

def nullHistory : List (HistoryRow String Int) :=
  [userRow "'ada'" none 0, userRow "'eve'" none 1]

/-- Both rows are open, on every engine. -/
theorem timeline_two_open :
    (nullHistory.map HistoryRow.seq).Nodup ∧
      ¬ViewsAgree .postgresql users nullHistory ∧ ¬ViewsAgree .mysql users nullHistory ∧
      ¬ViewsAgree .sqlserver users nullHistory ∧ ¬ViewsAgree .snowflake users nullHistory := by
  have hseq : (nullHistory.map HistoryRow.seq).Nodup := by decide
  have hrows : rowsOf users nullHistory [some "'u1'"] = nullHistory :=
    List.filter_eq_self.mpr (by decide)
  have hdisagree : ∀ d : Dialect, ¬ViewsAgree d users nullHistory := by
    intro d hall
    have hk : rowsOf users nullHistory [some "'u1'"] ≠ [] := by
      rw [hrows]
      exact List.cons_ne_nil _ _
    have hknown := (oneOpenRow_iff hseq hk).mp (hall _ hk)
    rw [hrows] at hknown
    revert hknown
    cases d <;> simp [MvccKnown, Dialect.nullsHigh, nullHistory, userRow, userChange]
  exact ⟨hseq, hdisagree _, hdisagree _, hdisagree _, hdisagree _⟩

def knownHistory : List (HistoryRow String Int) :=
  [userRow "'ada'" (some 2) 0, userRow "'eve'" (some 1) 1]

theorem timeline_agrees_iff_known :
    (knownHistory.map HistoryRow.seq).Nodup ∧ ViewsAgree .postgresql users knownHistory := by
  have hseq : (knownHistory.map HistoryRow.seq).Nodup := by decide
  refine ⟨hseq, (timeline_agrees_iff .postgresql users knownHistory hseq).mpr fun k hk => .inl ?_⟩
  intro r hr
  have hr : r ∈ knownHistory := (List.mem_filter.mp hr).1
  simp only [knownHistory, List.mem_cons, List.not_mem_nil, or_false] at hr
  rcases hr with rfl | rfl <;> rfl

end Drivers
end Eds
