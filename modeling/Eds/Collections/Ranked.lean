import Mathlib.Order.WithBot
import Mathlib.Data.Prod.Lex
import Mathlib.Data.List.Induction
import Mathlib.Data.List.Sort

/-!
# Ranking rows

Rows are compared term by term, and a term says where a missing value goes.  A
comparison that is that of keys in a linear order puts a row with the least key first
and one with the greatest last.

`withLead` gives each row the value of the next one, and a row is open if it has none.
-/

namespace Eds
namespace Collections

variable {α β κ M : Type}

/-! ## Comparing -/

/-- The terms in turn, until one tells the rows apart. -/
def compareBy (terms : List (α → α → Ordering)) (a b : α) : Ordering :=
  terms.foldr (fun term o => (term a b).then o) .eq

def directed (desc : Bool) (o : Ordering) : Ordering := if desc then o.swap else o

/-- Values in the given direction, the missing ones before or after all others. -/
def compareNulls [LinearOrder M] (nullsFirst desc : Bool) : Option M → Option M → Ordering
  | none, none => .eq
  | none, some _ => if nullsFirst then .lt else .gt
  | some _, none => if nullsFirst then .gt else .lt
  | some x, some y => directed desc (compare x y)

/-- A missing value below all others. -/
def nullsLow : Option M → WithBot M
  | none => ⊥
  | some x => x

/-- A missing value above all others. -/
def nullsHigh : Option M → WithTop M
  | none => ⊤
  | some x => x

section Compare

variable [LinearOrder M] (a b : Option M)

theorem compareNulls_asc_first : compareNulls true false a b = compare (nullsLow a) (nullsLow b) := by
  cases a with
  | none =>
    cases b with
    | none => exact (compare_eq_iff_eq.mpr rfl).symm
    | some y => exact (compare_lt_iff_lt.mpr (WithBot.bot_lt_coe y)).symm
  | some x =>
    cases b with
    | none => exact (compare_gt_iff_gt.mpr (WithBot.bot_lt_coe x)).symm
    | some y =>
      rcases lt_trichotomy x y with h | h | h
      · exact (compare_lt_iff_lt.mpr h).trans (compare_lt_iff_lt.mpr (WithBot.coe_lt_coe.mpr h)).symm
      · exact (compare_eq_iff_eq.mpr h).trans (compare_eq_iff_eq.mpr (congrArg _ h)).symm
      · exact (compare_gt_iff_gt.mpr h).trans (compare_gt_iff_gt.mpr (WithBot.coe_lt_coe.mpr h)).symm

theorem compareNulls_asc_last : compareNulls false false a b = compare (nullsHigh a) (nullsHigh b) := by
  cases a with
  | none =>
    cases b with
    | none => exact (compare_eq_iff_eq.mpr rfl).symm
    | some y => exact (compare_gt_iff_gt.mpr (WithTop.coe_lt_top y)).symm
  | some x =>
    cases b with
    | none => exact (compare_lt_iff_lt.mpr (WithTop.coe_lt_top x)).symm
    | some y =>
      rcases lt_trichotomy x y with h | h | h
      · exact (compare_lt_iff_lt.mpr h).trans (compare_lt_iff_lt.mpr (WithTop.coe_lt_coe.mpr h)).symm
      · exact (compare_eq_iff_eq.mpr h).trans (compare_eq_iff_eq.mpr (congrArg _ h)).symm
      · exact (compare_gt_iff_gt.mpr h).trans (compare_gt_iff_gt.mpr (WithTop.coe_lt_coe.mpr h)).symm

/-- The other direction, with the missing values at the other end. -/
theorem compareNulls_swap (nullsFirst desc : Bool) :
    compareNulls (!nullsFirst) (!desc) a b = compareNulls nullsFirst desc b a := by
  cases a with
  | none =>
    cases b with
    | none => rfl
    | some y => cases nullsFirst <;> rfl
  | some x =>
    cases b with
    | none => cases nullsFirst <;> rfl
    | some y =>
      cases desc with
      | true =>
        show compare x y = (compare y x).swap
        exact Std.OrientedOrd.eq_swap
      | false =>
        show (compare x y).swap = compare y x
        exact Std.OrientedOrd.eq_swap.symm

theorem directed_desc (x y : M) : directed true (compare x y) = compare y x :=
  Std.OrientedOrd.eq_swap.symm

/-- Three terms in turn compare as the triple of their keys. -/
theorem isLE_compare_then {K : Type} [LinearOrder K] {x y : K} {i j : Int} {m n : Nat} :
    ((compare x y).then ((compare i j).then ((compare m n).then .eq))).isLE = true ↔
      toLex (x, toLex (i, m)) ≤ toLex (y, toLex (j, n)) := by
  rw [Prod.Lex.toLex_le_toLex, Prod.Lex.toLex_le_toLex, le_iff_lt_or_eq]
  simp only [Ordering.isLE_then_iff_or, compare_lt_iff_lt, compare_eq_iff_eq, Ordering.isLE_eq,
    and_true]

end Compare

/-! ## First and last -/

section Ranked

variable [LinearOrder κ] {key : α → κ} {le : α → α → Bool}
  (hle : ∀ a b, le a b = true ↔ key a ≤ key b)

include hle

theorem pairwise_mergeSort_key (l : List α) :
    (l.mergeSort le).Pairwise fun a b => key a ≤ key b := by
  have htrans : ∀ a b c, le a b = true → le b c = true → le a c = true := by
    intro a b c hab hbc
    exact (hle a c).mpr (((hle a b).mp hab).trans ((hle b c).mp hbc))
  have htotal : ∀ a b, (le a b || le b a) = true := by
    intro a b
    rcases le_total (key a) (key b) with h | h
    · rw [(hle a b).mpr h, Bool.true_or]
    · rw [(hle b a).mpr h, Bool.or_true]
  exact (List.pairwise_mergeSort htrans htotal l).imp fun h => (hle _ _).mp h

variable (key) in
/-- The first row has the least key. -/
theorem head_mergeSort {l : List α} {x : α} (h : (l.mergeSort le).head? = some x) :
    x ∈ l ∧ ∀ y ∈ l, key x ≤ key y := by
  obtain ⟨rest, hl⟩ := List.head?_eq_some_iff.mp h
  have hsorted := pairwise_mergeSort_key hle l
  have hmem : ∀ y, y ∈ l ↔ y ∈ x :: rest := fun y => hl ▸ List.mem_mergeSort.symm
  rw [hl, List.pairwise_cons] at hsorted
  refine ⟨(hmem x).mpr List.mem_cons_self, fun y hy => ?_⟩
  rcases List.mem_cons.mp ((hmem y).mp hy) with heq | hy
  · rw [heq]
  · exact hsorted.1 y hy

/-- The last row has the greatest key. -/
theorem getLast_mergeSort {l : List α} {x : α} (h : (l.mergeSort le).getLast? = some x) :
    x ∈ l ∧ ∀ y ∈ l, key y ≤ key x := by
  obtain ⟨front, hl⟩ := List.getLast?_eq_some_iff.mp h
  have hsorted := pairwise_mergeSort_key hle l
  have hmem : ∀ y, y ∈ l ↔ y ∈ front ++ [x] := fun y => hl ▸ List.mem_mergeSort.symm
  rw [hl, List.pairwise_append] at hsorted
  refine ⟨(hmem x).mpr (by simp), fun y hy => ?_⟩
  rcases List.mem_append.mp ((hmem y).mp hy) with hy | hy
  · exact hsorted.2.2 y hy x List.mem_cons_self
  · rw [List.mem_singleton.mp hy]

omit hle in
/-- The order of a list does not matter to what it is sorted into. -/
theorem mergeSort_eq_of_perm {le : κ → κ → Bool} (hle : ∀ a b, le a b = true ↔ a ≤ b)
    {l l' : List κ} (h : l.Perm l') : l.mergeSort le = l'.mergeSort le := by
  have hperm := (List.mergeSort_perm l le).trans (h.trans (List.mergeSort_perm l' le).symm)
  exact hperm.eq_of_pairwise (fun _ _ _ _ => le_antisymm) (pairwise_mergeSort_key hle l)
    (pairwise_mergeSort_key hle l')

omit hle in
/-- In a list that ascends, the last row is the one with the greatest key. -/
theorem getLast_ascending_iff {l : List α} (h : l.Pairwise fun a b => key a < key b) (x : α) :
    l.getLast? = some x ↔ x ∈ l ∧ ∀ y ∈ l, key y ≤ key x := by
  induction l using List.reverseRecOn with
  | nil => simp
  | append_singleton front last _ =>
    have hlt : ∀ y ∈ front, key y < key last := fun y hy =>
      (List.pairwise_append.mp h).2.2 y hy last List.mem_cons_self
    rw [List.getLast?_concat]
    constructor
    · intro heq
      obtain rfl := Option.some.inj heq
      refine ⟨by simp, fun y hy => ?_⟩
      rcases List.mem_append.mp hy with hy | hy
      · exact (hlt y hy).le
      · rw [List.mem_singleton.mp hy]
    · intro hx
      rcases List.mem_append.mp hx.1 with hfront | hlast
      · exact absurd (hx.2 last (by simp)) (not_le_of_gt (hlt x hfront))
      · rw [List.mem_singleton.mp hlast]

end Ranked

/-! ## The value of the next row -/

section Lead

variable (f : α → Option β)

/-- `LEAD(f)`: each row with the value of the row after it. -/
def withLead : List α → List (α × Option β)
  | [] => []
  | [a] => [(a, none)]
  | a :: b :: rest => (a, f b) :: withLead (b :: rest)

/-- The rows without a value after them. -/
def openRows (l : List α) : List α :=
  ((withLead f l).filter fun p => p.2.isNone).map Prod.fst

theorem withLead_fst (l : List α) : (withLead f l).map Prod.fst = l := by
  induction l with
  | nil => rfl
  | cons a rest ih =>
    cases rest with
    | nil => rfl
    | cons b rest => rw [withLead, List.map_cons, ih]

theorem openRows_cons_cons (a b : α) (rest : List α) :
    openRows f (a :: b :: rest) =
      if (f b).isNone then a :: openRows f (b :: rest) else openRows f (b :: rest) := by
  rw [openRows, withLead, List.filter_cons]
  split <;> rfl

/-- The last row is open. -/
theorem openRows_ne_nil (a : α) (rest : List α) : openRows f (a :: rest) ≠ [] := by
  induction rest generalizing a with
  | nil => exact List.cons_ne_nil _ _
  | cons b rest ih =>
    rw [openRows_cons_cons]
    split
    · exact List.cons_ne_nil _ _
    · exact ih b

/-- One row is open if no value is missing after the first row. -/
theorem openRows_eq_singleton_iff (l : List α) (r : α) :
    openRows f l = [r] ↔ l.getLast? = some r ∧ ∀ x ∈ l.tail, (f x).isSome = true := by
  induction l with
  | nil => simp [openRows, withLead]
  | cons a rest ih =>
    cases rest with
    | nil => simp [openRows, withLead]
    | cons b rest =>
      rw [openRows_cons_cons, List.getLast?_cons_cons, List.tail_cons, List.forall_mem_cons]
      cases hb : f b with
      | none =>
        -- The first row is open beside the last one.
        rw [if_pos Option.isNone_none]
        constructor
        · intro h
          exact absurd (List.cons.inj h).2 (openRows_ne_nil f b rest)
        · intro h
          cases h.2.1
      | some v =>
        rw [if_neg (by simp), ih]
        simp

end Lead

end Collections
end Eds
