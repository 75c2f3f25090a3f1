import Eds.Drivers.Views

/-!
# The current state of a history

The rows of a history may come in any order and more than once.  If the rows of one
object with the same `mvcc` are copies of one change, what the current view selects
depends on the changes alone.
-/

namespace Eds
namespace Drivers

open Collections

variable {V M : Type}

/-- A history in which an `mvcc` tells the changes of an object apart.  Copies of a change
differ in their number only. -/
structure Distinguished (model : Schema) (history : List (HistoryRow V M)) : Prop where
  mvcc : ∀ c ∈ history.map HistoryRow.toChange, c.mvcc.isSome = true
  copies : ∀ c ∈ history.map HistoryRow.toChange, ∀ c' ∈ history.map HistoryRow.toChange,
    c.object model = c'.object model → c.mvcc = c'.mvcc → c = c'

section Changes

variable {model : Schema} {history history' : List (HistoryRow V M)}

theorem Distinguished.of_changes (h : Distinguished model history)
    (hsame : ∀ c, c ∈ history'.map HistoryRow.toChange ↔ c ∈ history.map HistoryRow.toChange) :
    Distinguished model history' := by
  constructor
  · intro c hc
    exact h.mvcc c ((hsame c).mp hc)
  · intro c hc c' hc'
    exact h.copies c ((hsame c).mp hc) c' ((hsame c').mp hc')

/-- The change has the greatest `mvcc` of its object. -/
def Newest [LinearOrder M] (model : Schema) (history : List (HistoryRow V M)) (c : Change V M) : Prop :=
  c ∈ history.map HistoryRow.toChange ∧ ∀ c' ∈ history.map HistoryRow.toChange,
    c'.object model = c.object model → nullsLow c'.mvcc ≤ nullsLow c.mvcc

variable [LinearOrder M]

theorem newest_congr
    (hsame : ∀ c, c ∈ history'.map HistoryRow.toChange ↔ c ∈ history.map HistoryRow.toChange)
    (c : Change V M) : Newest model history' c ↔ Newest model history c := by
  simp only [Newest, hsame]

/-- The newest change of an object is one. -/
theorem Newest.eq (h : Distinguished model history) {c c' : Change V M} (hc : Newest model history c)
    (hc' : Newest model history c') (hobject : c.object model = c'.object model) : c = c' := by
  have hle := hc'.2 c hc.1 hobject
  have hge := hc.2 c' hc'.1 hobject.symm
  obtain ⟨m, hm⟩ := Option.isSome_iff_exists.mp (h.mvcc c hc.1)
  obtain ⟨m', hm'⟩ := Option.isSome_iff_exists.mp (h.mvcc c' hc'.1)
  rw [hm, hm'] at hle hge
  have hmvcc : m = m' := le_antisymm (WithBot.coe_le_coe.mp hle) (WithBot.coe_le_coe.mp hge)
  exact h.copies c hc.1 c' hc'.1 hobject (by rw [hm, hm', hmvcc])

variable [DecidableEq V] {d : Dialect}

theorem mem_latest_change (h : Distinguished model history)
    (hseq : (history.map HistoryRow.seq).Nodup) (c : Change V M) :
    c ∈ (d.latest model history).map HistoryRow.toChange ↔ Newest model history c := by
  have hnewest : ∀ r ∈ d.latest model history, Newest model history r.toChange := by
    intro r hr
    obtain ⟨hmem, hmax⟩ := (mem_latest_iff hseq).mp hr
    refine ⟨List.mem_map_of_mem hmem, fun c' hc' hobject => ?_⟩
    obtain ⟨r', hr', hchange⟩ := List.mem_map.mp hc'
    rw [← hchange] at hobject ⊢
    exact mvcc_le_of_lowKey_le (hmax r' hr' hobject)
  constructor
  · intro hc
    obtain ⟨r, hr, hchange⟩ := List.mem_map.mp hc
    rw [← hchange]
    exact hnewest r hr
  · intro hc
    obtain ⟨r, hr, hchange⟩ := List.mem_map.mp hc.1
    obtain ⟨first, hfirst, hobject⟩ : ∃ r' ∈ d.latest model history,
      r'.toChange.object model = r.toChange.object model := exists_latest hr
    rw [hchange] at hobject
    exact List.mem_map.mpr ⟨first, hfirst, Newest.eq h (hnewest first hfirst) hc hobject⟩

theorem mem_selected_change (h : Distinguished model history)
    (hseq : (history.map HistoryRow.seq).Nodup) (c : Change V M) :
    c ∈ (d.selected model history).map HistoryRow.toChange ↔
      Newest model history c ∧ c.operation ≠ "DELETE" := by
  rw [← mem_latest_change h hseq (d := d)]
  constructor
  · intro hc
    obtain ⟨r, hr, hchange⟩ := List.mem_map.mp hc
    obtain ⟨hlatest, hop⟩ := List.mem_filter.mp hr
    rw [← hchange]
    exact ⟨List.mem_map_of_mem hlatest, bne_iff_ne.mp hop⟩
  · intro hc
    obtain ⟨r, hr, hchange⟩ := List.mem_map.mp hc.1
    rw [← hchange] at hc ⊢
    exact List.mem_map_of_mem (List.mem_filter.mpr ⟨hr, bne_iff_ne.mpr hc.2⟩)

theorem current_eq_map :
    d.current model history =
      ((d.selected model history).map HistoryRow.toChange).map fun c => model.columns.map c.cells := by
  rw [List.map_map]
  rfl

theorem selected_changes_nodup :
    (((d.selected model history).map HistoryRow.toChange).map fun c => c.object model).Nodup := by
  rw [List.map_map]
  exact latest_objects_nodup.sublist (List.filter_sublist.map _)

/-- The current view shows the newest change of each object that is not a delete, in
whatever order and however often the changes were appended. -/
theorem current_order_free (d : Dialect) (model : Schema) (history history' : List (HistoryRow V M))
    (hseq : (history.map HistoryRow.seq).Nodup) (hseq' : (history'.map HistoryRow.seq).Nodup)
    (h : Distinguished model history)
    (hsame : ∀ c, c ∈ history'.map HistoryRow.toChange ↔ c ∈ history.map HistoryRow.toChange) :
    (d.current model history').Perm (d.current model history) ∧
    ∃ changes : List (Change V M),
      d.current model history = changes.map (fun c => model.columns.map c.cells) ∧
      (changes.map fun c => c.object model).Nodup ∧
      ∀ c, c ∈ changes ↔ Newest model history c ∧ c.operation ≠ "DELETE" := by
  refine ⟨?_, _, current_eq_map, selected_changes_nodup, mem_selected_change h hseq⟩
  rw [current_eq_map, current_eq_map]
  refine List.Perm.map _ ((List.perm_ext_iff_of_nodup selected_changes_nodup.of_map
    selected_changes_nodup.of_map).mpr fun c => ?_)
  rw [mem_selected_change h hseq, mem_selected_change (h.of_changes hsame) hseq',
    newest_congr hsame]

end Changes

/-- A user inserted and renamed; the rename comes first the second time, and the insert
twice. -/
theorem current_order_free_users :
    let history := [userRow "'ada'" (some 1) 0, userRow "'eve'" (some 2) 1]
    let history' := [userRow "'eve'" (some 2) 0, userRow "'ada'" (some 1) 1, userRow "'ada'" (some 1) 2]
    (history.map HistoryRow.seq).Nodup ∧ (history'.map HistoryRow.seq).Nodup ∧
    Distinguished users history ∧
    (∀ c, c ∈ history'.map HistoryRow.toChange ↔ c ∈ history.map HistoryRow.toChange) ∧
    (Dialect.current .postgresql users history').Perm (Dialect.current .postgresql users history) := by
  intro history history'
  have hseq : (history.map HistoryRow.seq).Nodup := by decide
  have hseq' : (history'.map HistoryRow.seq).Nodup := by decide
  have hchanges : ∀ c, c ∈ history.map HistoryRow.toChange ↔
      c = userChange "'ada'" (some 1) ∨ c = userChange "'eve'" (some 2) := by
    simp [history, userRow]
  have hsame : ∀ c, c ∈ history'.map HistoryRow.toChange ↔ c ∈ history.map HistoryRow.toChange := by
    intro c
    rw [hchanges, or_comm]
    simp [history', userRow]
  have hdistinguished : Distinguished users history := by
    constructor
    · intro c hc
      rcases (hchanges c).mp hc with heq | heq <;> rw [heq] <;> rfl
    · intro c hc c' hc' _ hmvcc
      rcases (hchanges c).mp hc with heq | heq <;> rcases (hchanges c').mp hc' with heq' | heq'
      · rw [heq, heq']
      · rw [heq, heq'] at hmvcc
        cases hmvcc
      · rw [heq, heq'] at hmvcc
        cases hmvcc
      · rw [heq, heq']
  exact ⟨hseq, hseq', hdistinguished, hsame,
    (current_order_free .postgresql users history history' hseq hseq' hdistinguished hsame).1⟩

end Drivers
end Eds
