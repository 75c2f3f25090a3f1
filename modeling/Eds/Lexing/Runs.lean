import Mathlib.Data.List.DropRight

/-!
# Runs of a separator

`squeeze` leaves one separator of each run, and `trim` removes those at the two ends.  The two
commute, so that what is squeezed differs inside only (`squeeze_trim`).
-/

namespace Eds
namespace Lexing

variable {α : Type} [DecidableEq α] {sep : α}

def squeeze (sep : α) : List α → List α
  | [] => []
  | c :: rest =>
    if c = sep ∧ rest.head? = some sep then squeeze sep rest else c :: squeeze sep rest

def trim (sep : α) (s : List α) : List α := (s.rdropWhile (· = sep)).dropWhile (· = sep)

/-! ## Squeezed texts -/

theorem squeeze_cons (c : α) (s : List α) :
    squeeze sep (c :: s) =
      if c = sep ∧ s.head? = some sep then squeeze sep s else c :: squeeze sep s := rfl

theorem squeeze_append_of_notMem {a : List α} (h : sep ∉ a) (s : List α) :
    squeeze sep (a ++ s) = a ++ squeeze sep s := by
  induction a with
  | nil => rfl
  | cons c a ih =>
    simp only [List.mem_cons, not_or] at h
    rw [List.cons_append, squeeze, if_neg fun hc => h.1 hc.1.symm, ih h.2, List.cons_append]

theorem squeeze_dropWhile (s : List α) :
    squeeze sep (s.dropWhile (· = sep)) = (squeeze sep s).dropWhile (· = sep) := by
  induction s with
  | nil => rfl
  | cons c s ih =>
    by_cases hc : c = sep
    · rw [List.dropWhile_cons_of_pos (by simpa using hc), ih, squeeze]
      split
      · rfl
      · rw [List.dropWhile_cons_of_pos (by simpa using hc)]
    · rw [List.dropWhile_cons_of_neg (by simpa using hc), squeeze, if_neg fun h => hc h.1,
        List.dropWhile_cons_of_neg (by simpa using hc)]

/-- Behind a separator, what follows is squeezed without the separators in front of it. -/
theorem squeeze_cons_self (s : List α) :
    squeeze sep (sep :: s) = sep :: squeeze sep (s.dropWhile (· = sep)) := by
  induction s with
  | nil => simp [squeeze]
  | cons c s ih =>
    by_cases hc : c = sep
    · rw [hc, List.dropWhile_cons_of_pos (by simp), ← ih, squeeze, if_pos ⟨rfl, rfl⟩]
    · have hhead : ¬ (sep = sep ∧ (c :: s).head? = some sep) := by simpa using hc
      rw [List.dropWhile_cons_of_neg (by simpa using hc), squeeze, if_neg hhead]

theorem squeeze_concat (s : List α) (c : α) :
    squeeze sep (s ++ [c]) =
      if c = sep ∧ s.getLast? = some sep then squeeze sep s else squeeze sep s ++ [c] := by
  induction s with
  | nil => simp [squeeze]
  | cons d s ih =>
    cases s with
    | nil =>
      simp only [List.cons_append, List.nil_append, squeeze, List.head?_cons, List.head?_nil,
        Option.some.injEq, List.getLast?_singleton]
      by_cases hd : d = sep
      · by_cases hc : c = sep
        · simp [hc, hd]
        · simp [hc, hd]
      · simp [hd]
    | cons e s =>
      have hhead : (e :: s ++ [c]).head? = (e :: s).head? := rfl
      rw [List.cons_append, squeeze_cons d (e :: s ++ [c]), hhead, ih, List.getLast?_cons_cons,
        squeeze_cons d (e :: s)]
      by_cases hd : d = sep ∧ (e :: s).head? = some sep
      · rw [if_pos hd, if_pos hd]
      · rw [if_neg hd, if_neg hd]
        split
        · rfl
        · rfl

theorem squeeze_reverse (s : List α) : squeeze sep s.reverse = (squeeze sep s).reverse := by
  induction s with
  | nil => rfl
  | cons c s ih =>
    rw [List.reverse_cons, squeeze_concat, ih, List.getLast?_reverse, squeeze]
    split
    · rfl
    · rw [List.reverse_cons]

theorem squeeze_trim (s : List α) : squeeze sep (trim sep s) = trim sep (squeeze sep s) := by
  rw [trim, squeeze_dropWhile, trim, List.rdropWhile, List.rdropWhile, squeeze_reverse,
    squeeze_dropWhile, squeeze_reverse]

theorem length_squeeze_le (s : List α) : (squeeze sep s).length ≤ s.length := by
  induction s with
  | nil => exact Nat.le_refl 0
  | cons c s ih =>
    rw [squeeze]
    split
    · exact Nat.le_succ_of_le ih
    · exact Nat.succ_le_succ ih

theorem squeeze_eq_self_iff {s : List α} : squeeze sep s = s ↔ ¬ [sep, sep] <:+: s := by
  induction s with
  | nil => simp [squeeze]
  | cons c s ih =>
    have hhead : [sep, sep] <+: c :: s ↔ c = sep ∧ s.head? = some sep := by
      cases s with
      | nil => simp
      | cons d s => simp [List.cons_prefix_cons, eq_comm]
    rw [List.infix_cons_iff, hhead, squeeze, not_or]
    by_cases hc : c = sep ∧ s.head? = some sep
    · rw [if_pos hc]
      refine iff_of_false (fun h => ?_) fun h => h.1 hc
      have hle := @length_squeeze_le α _ sep s
      rw [h, List.length_cons] at hle
      omega
    · rw [if_neg hc, List.cons_inj_right]
      exact ih.trans ⟨fun h => ⟨hc, h⟩, fun h => h.2⟩

/-! ## Trimmed texts -/

theorem trim_concat (s : List α) : trim sep (s ++ [sep]) = trim sep s := by
  have hdrop : (s ++ [sep]).rdropWhile (· = sep) = s.rdropWhile (· = sep) :=
    List.rdropWhile_concat_pos _ _ _ (by simp)
  rw [trim, hdrop]
  rfl

theorem trim_cons (s : List α) : trim sep (sep :: s) = trim sep s := by
  have hdrop : (sep :: s).rdropWhile (· = sep) = s.rdropWhile (· = sep) ∨
      (sep :: s).rdropWhile (· = sep) = sep :: s.rdropWhile (· = sep) := by
    rw [List.rdropWhile, List.reverse_cons, List.dropWhile_append]
    split
    · next hnil =>
      rw [List.isEmpty_iff] at hnil
      refine Or.inl ?_
      rw [List.rdropWhile, hnil]
      simp
    · exact Or.inr (by simp [List.rdropWhile])
  rcases hdrop with hdrop | hdrop
  · rw [trim, hdrop]
    rfl
  · rw [trim, hdrop, List.dropWhile_cons_of_pos (by simp)]
    rfl

theorem trim_dropWhile (s : List α) : trim sep (s.dropWhile (· = sep)) = trim sep s := by
  induction s with
  | nil => rfl
  | cons c s ih =>
    by_cases hc : c = sep
    · rw [List.dropWhile_cons_of_pos (by simpa using hc), ih, hc, trim_cons]
    · rw [List.dropWhile_cons_of_neg (by simpa using hc)]

/-- Trimming removes separators only. -/
theorem filter_trim (s : List α) :
    (trim sep s).filter (· ≠ sep) = s.filter (· ≠ sep) := by
  have hdrop : ∀ s : List α, (s.dropWhile (· = sep)).filter (· ≠ sep) = s.filter (· ≠ sep) := by
    intro s
    induction s with
    | nil => rfl
    | cons c s ih =>
      by_cases hc : c = sep
      · rw [List.dropWhile_cons_of_pos (by simpa using hc), ih,
          List.filter_cons_of_neg (by simpa using hc)]
      · rw [List.dropWhile_cons_of_neg (by simpa using hc)]
  rw [trim, hdrop, List.rdropWhile, List.filter_reverse, hdrop, List.filter_reverse,
    List.reverse_reverse]

end Lexing
end Eds
