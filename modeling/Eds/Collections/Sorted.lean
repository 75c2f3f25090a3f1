import Eds.Collections.Ranked

/-!
# Sorting by a coarser key

A stable sort by a key leaves the rows with one key in the order in which they came.  Where the
key follows a finer value, only the rows whose values share a key can be left out of the order of
their values: those that came the other way round.
-/

namespace Eds
namespace Collections

variable {α κ V : Type} [LinearOrder κ] [LinearOrder V]

/-- The rows of `l` by their values, and the rows with one value as they came. -/
structure Ordered (value : α → V) (l sorted : List α) : Prop where
  perm : sorted.Perm l
  ascending : sorted.Pairwise fun a b => value a ≤ value b
  stable : ∀ x, (sorted.filter fun a => value a = x) = l.filter fun a => value a = x

section Key

variable {key : α → κ} {le : α → α → Bool} (hle : ∀ a b, le a b = true ↔ key a ≤ key b)

include hle

theorem sublist_mergeSort_key {l rows : List α} (hrows : rows.Pairwise fun a b => key a ≤ key b)
    (h : rows.Sublist l) : rows.Sublist (l.mergeSort le) := by
  have htrans : ∀ a b c, le a b = true → le b c = true → le a c = true := by
    intro a b c hab hbc
    exact (hle a c).mpr (((hle a b).mp hab).trans ((hle b c).mp hbc))
  have htotal : ∀ a b, (le a b || le b a) = true := by
    intro a b
    rcases le_total (key a) (key b) with h | h
    · rw [(hle a b).mpr h, Bool.true_or]
    · rw [(hle b a).mpr h, Bool.or_true]
  exact List.sublist_mergeSort htrans htotal (hrows.imp fun h => (hle _ _).mpr h) h

theorem filter_mergeSort_key (l : List α) (x : κ) :
    ((l.mergeSort le).filter fun a => key a = x) = l.filter fun a => key a = x := by
  have hrows : (l.filter fun a => key a = x).Pairwise fun a b => key a ≤ key b :=
    List.pairwise_of_forall_mem_list fun a ha b hb => by
      rw [of_decide_eq_true (List.mem_filter.mp ha).2, of_decide_eq_true (List.mem_filter.mp hb).2]
  have hsub := (sublist_mergeSort_key hle hrows List.filter_sublist).filter fun a => key a = x
  rw [List.filter_filter] at hsub
  have hlength := ((List.mergeSort_perm l le).filter fun a => key a = x).length_eq
  refine (hsub.eq_of_length ?_).symm.trans ?_
  · simp only [Bool.and_self, hlength]
  · simp only [Bool.and_self]

theorem ordered_mergeSort (l : List α) : Ordered key l (l.mergeSort le) :=
  ⟨List.mergeSort_perm l le, pairwise_mergeSort_key hle l, filter_mergeSort_key hle l⟩

end Key

section Coarse

variable {key key' : α → κ} {value : α → V} {l sorted : List α}

theorem Ordered.congr (h : Ordered key l sorted) (hkey : ∀ a ∈ l, key a = key' a) :
    Ordered key' l sorted := by
  have hsorted : ∀ a ∈ sorted, key a = key' a := fun a ha => hkey a (h.perm.subset ha)
  refine ⟨h.perm, h.ascending.imp_of_mem fun ha hb hle => ?_, fun x => ?_⟩
  · rw [← hsorted _ ha, ← hsorted _ hb]
    exact hle
  · calc (sorted.filter fun a => key' a = x) = sorted.filter fun a => key a = x :=
          List.filter_congr fun a ha => by rw [hsorted a ha]
      _ = l.filter fun a => key a = x := h.stable x
      _ = l.filter fun a => key' a = x := List.filter_congr fun a ha => by rw [hkey a ha]

/-- Two rows with one key stand as they came. -/
theorem Ordered.pair_iff (h : Ordered key l sorted) {a b : α} (hkey : key a = key b) :
    [a, b].Sublist sorted ↔ [a, b].Sublist l := by
  have hpair : ([a, b].filter fun c => key c = key a) = [a, b] := by
    refine List.filter_eq_self.mpr fun c hc => decide_eq_true ?_
    rcases List.mem_pair.mp hc with rfl | rfl
    · rfl
    · exact hkey.symm
  have hclass : ∀ rows : List α, [a, b].Sublist rows ↔
      [a, b].Sublist (rows.filter fun c => key c = key a) := fun rows => by
    refine ⟨fun hsub => ?_, fun hsub => hsub.trans List.filter_sublist⟩
    have hfilter := hsub.filter fun c => key c = key a
    rwa [hpair] at hfilter
  rw [hclass sorted, h.stable, ← hclass l]

/-- What is in order by the key is in order by a value that the key follows, except for the rows
with one key that came in the other order. -/
theorem Ordered.value_iff (h : Ordered key l sorted)
    (hmono : ∀ a ∈ l, ∀ b ∈ l, value a ≤ value b → key a ≤ key b) :
    Ordered value l sorted ↔ l.Pairwise fun a b => value b < value a → key b < key a := by
  constructor
  · intro hvalue
    rw [List.pairwise_iff_forall_sublist]
    intro a b hsub hlt
    have ha : a ∈ l := hsub.subset List.mem_cons_self
    have hb : b ∈ l := hsub.subset (List.mem_cons_of_mem _ List.mem_cons_self)
    refine lt_of_le_of_ne (hmono b hb a ha hlt.le) fun hkey => ?_
    have hsorted := (h.pair_iff hkey.symm).mpr hsub
    exact absurd (List.pairwise_iff_forall_sublist.mp hvalue.ascending hsorted) (not_le_of_gt hlt)
  · intro hpairs
    have hmem : ∀ a, a ∈ sorted ↔ a ∈ l := fun a => h.perm.mem_iff
    refine ⟨h.perm, ?_, fun x => ?_⟩
    · rw [List.pairwise_iff_forall_sublist]
      intro a b hsub
      by_contra hlt
      have ha : a ∈ l := (hmem a).mp (hsub.subset List.mem_cons_self)
      have hb : b ∈ l := (hmem b).mp (hsub.subset (List.mem_cons_of_mem _ List.mem_cons_self))
      have hkey : key a = key b :=
        le_antisymm (List.pairwise_iff_forall_sublist.mp h.ascending hsub)
          (hmono b hb a ha (le_of_not_ge hlt))
      have hcame := (h.pair_iff hkey).mp hsub
      have hless := List.pairwise_iff_forall_sublist.mp hpairs hcame (lt_of_not_ge hlt)
      exact absurd hkey hless.ne'
    · -- rows with one value have one key
      rcases hempty : l.filter fun a => value a = x with _ | ⟨c, rest⟩
      · rw [List.filter_eq_nil_iff] at hempty ⊢
        exact fun a ha => hempty a ((hmem a).mp ha)
      · have hc : c ∈ l.filter fun a => value a = x := by
          rw [hempty]
          exact List.mem_cons_self
        obtain ⟨hcl, hcx⟩ := List.mem_filter.mp hc
        have hrefine : ∀ rows : List α, (∀ a ∈ rows, a ∈ l) →
            (rows.filter fun a => value a = x) =
              (rows.filter fun a => key a = key c).filter fun a => value a = x := fun rows hrows => by
          rw [List.filter_filter]
          refine List.filter_congr fun a ha => ?_
          rw [← Bool.decide_and]
          refine decide_eq_decide.mpr ⟨fun hax => ⟨hax, ?_⟩, And.left⟩
          have hsame : value a = value c := hax.trans (of_decide_eq_true hcx).symm
          exact le_antisymm (hmono a (hrows a ha) c hcl hsame.le) (hmono c hcl a (hrows a ha) hsame.ge)
        rw [← hempty, hrefine sorted fun a => (hmem a).mp, h.stable, ← hrefine l fun _ ha => ha]

end Coarse

end Collections
end Eds
