import Mathlib.Data.List.Basic
import Mathlib.Algebra.GroupWithZero.Nat

/-!
# Cutting texts at separators

`partition` cuts at the first separator and `rpartition` at the last one; both say whether
there was one.  The lemmas name the separator that a text is cut at.
-/

namespace Eds
namespace Lexing

/-- A blank, a tab or an end of line. -/
def isSpace (c : Char) : Bool := c == ' ' || c == '\t' || c == '\n' || c == '\r'

variable {α : Type}

/-! ## The text in front of a stop -/

theorem takeWhile_append_stop {p : α → Bool} {c : α} (hc : p c = false) (a rest : List α) :
    (a ++ c :: rest).takeWhile p = a.takeWhile p := by
  induction a with
  | nil => rw [List.nil_append, List.takeWhile_cons, hc]; rfl
  | cons x a ih =>
    rw [List.cons_append, List.takeWhile_cons, List.takeWhile_cons, ih]

theorem dropWhile_append_stop {p : α → Bool} {c : α} (hc : p c = false) (a rest : List α) :
    (a ++ c :: rest).dropWhile p = a.dropWhile p ++ c :: rest := by
  induction a with
  | nil => rw [List.nil_append, List.dropWhile_cons, hc]; rfl
  | cons x a ih =>
    rw [List.cons_append, List.dropWhile_cons, List.dropWhile_cons]
    split
    · exact ih
    · rfl

/-! ## Joined texts -/

theorem length_intercalate (sep : α) {parts : List (List α)} (h : parts ≠ []) :
    (List.intercalate [sep] parts).length + 1 = (parts.map fun part => part.length + 1).sum := by
  induction parts with
  | nil => exact absurd rfl h
  | cons part rest ih =>
    cases rest with
    | nil => simp
    | cons next rest =>
      have hrest := ih (List.cons_ne_nil next rest)
      rw [List.intercalate_cons_cons, List.map_cons, List.sum_cons, ← hrest]
      simp only [List.length_append, List.length_singleton]
      omega

theorem notMem_intercalate {c sep : α} (hc : c ≠ sep) {parts : List (List α)}
    (h : ∀ part ∈ parts, c ∉ part) : c ∉ [sep].intercalate parts := by
  induction parts with
  | nil => exact List.not_mem_nil
  | cons part rest ih =>
    obtain ⟨hpart, hrest⟩ := List.forall_mem_cons.mp h
    cases rest with
    | nil =>
      rw [List.intercalate_singleton]
      exact hpart
    | cons next rest =>
      rw [List.intercalate_cons_cons]
      intro hmem
      rcases List.mem_append.mp hmem with hmem | hmem
      · rcases List.mem_append.mp hmem with hmem | hmem
        · exact hpart hmem
        · exact hc (List.mem_singleton.mp hmem)
      · exact ih hrest hmem

/-- Joined parts that are not empty and have no separator are read back. -/
theorem intercalate_injective {sep : α} {parts parts' : List (List α)}
    (h : ∀ part ∈ parts, part ≠ [] ∧ sep ∉ part) (h' : ∀ part ∈ parts', part ≠ [] ∧ sep ∉ part)
    (heq : [sep].intercalate parts = [sep].intercalate parts') : parts = parts' := by
  have hempty : ∀ {parts : List (List α)}, (∀ part ∈ parts, part ≠ [] ∧ sep ∉ part) →
      [sep].intercalate parts = [] → parts = [] := by
    intro parts h hnil
    cases parts with
    | nil => rfl
    | cons part rest =>
      refine absurd ?_ (h part List.mem_cons_self).1
      cases rest with
      | nil => rwa [List.intercalate_singleton] at hnil
      | cons next rest =>
        rw [List.intercalate_cons_cons] at hnil
        exact (List.append_eq_nil_iff.mp (List.append_eq_nil_iff.mp hnil).1).1
  by_cases hparts : parts = []
  · subst hparts
    exact (hempty h' heq.symm).symm
  · have hparts' : parts' ≠ [] := fun hnil => hparts (hempty h (by rw [heq, hnil]; rfl))
    classical
    have hsplit := congrArg (List.splitOn sep) heq
    rwa [List.splitOn_intercalate sep (fun part hpart => (h part hpart).2) hparts,
      List.splitOn_intercalate sep (fun part hpart => (h' part hpart).2) hparts'] at hsplit

/-! ## Words without the separator -/

/-- A word without the separator stands on one side of it. -/
theorem infix_append_cons_iff {sep : α} {word a b : List α} (hword : sep ∉ word) :
    word <:+: a ++ sep :: b ↔ word <:+: a ∨ word <:+: b := by
  constructor
  · intro h
    obtain ⟨s, t, hsplit⟩ := h
    rcases List.append_eq_append_iff.mp hsplit with ⟨x, rfl, -⟩ | ⟨x, hfront, hback⟩
    · exact Or.inl ⟨s, x, rfl⟩
    · rcases List.append_eq_append_iff.mp hfront with ⟨y, rfl, rfl⟩ | ⟨y, rfl, rfl⟩
      · cases x with
        | nil => exact Or.inl ⟨s, [], by simp⟩
        | cons c x =>
          obtain ⟨rfl, -⟩ := List.cons.inj hback
          exact absurd (List.mem_append_right y List.mem_cons_self) hword
      · cases y with
        | nil =>
          cases word with
          | nil => exact Or.inl (List.nil_infix)
          | cons c word =>
            obtain ⟨rfl, -⟩ := List.cons.inj hback
            exact absurd List.mem_cons_self hword
        | cons c y => exact Or.inr ⟨y, t, (List.cons.inj hback).2.symm⟩
  · intro h
    rcases h with ⟨s, t, rfl⟩ | ⟨s, t, rfl⟩
    · exact ⟨s, t ++ sep :: b, by simp⟩
    · exact ⟨a ++ sep :: s, t, by simp⟩

/-! ## First and last separator -/

theorem exists_last {sep : α} {l : List α} (h : sep ∈ l) : ∃ a b, l = a ++ sep :: b ∧ sep ∉ b := by
  obtain ⟨b, a, hsplit, hb⟩ := List.eq_append_cons_of_mem (List.mem_reverse.mpr h)
  refine ⟨a.reverse, b.reverse, ?_, fun hmem => hb (List.mem_reverse.mp hmem)⟩
  rw [← List.reverse_reverse l, hsplit]
  simp

variable [DecidableEq α]

def partition (sep : α) : List α → List α × Bool × List α
  | [] => ([], false, [])
  | c :: rest =>
    if c = sep then ([], true, rest)
    else (c :: (partition sep rest).1, (partition sep rest).2)

/-- Without a separator the whole text is the last part. -/
def rpartition (sep : α) : List α → List α × Bool × List α
  | [] => ([], false, [])
  | c :: rest =>
    match rpartition sep rest with
    | (head, true, tail) => (c :: head, true, tail)
    | (_, false, _) => if c = sep then ([], true, rest) else ([], false, c :: rest)

variable {sep : α}

/-- What has no separator stands in front of the cut. -/
theorem partition_append_of_notMem {a : List α} (h : sep ∉ a) (rest : List α) :
    partition sep (a ++ rest) = (a ++ (partition sep rest).1, (partition sep rest).2) := by
  induction a with
  | nil => rfl
  | cons c a ih =>
    have hne : c ≠ sep := fun hc => h (hc ▸ List.mem_cons_self)
    rw [List.cons_append, partition, if_neg hne, ih fun hmem => h (List.mem_cons_of_mem c hmem)]
    rfl

theorem partition_of_notMem {a : List α} (h : sep ∉ a) : partition sep a = (a, false, []) := by
  have happend := partition_append_of_notMem h []
  rw [List.append_nil] at happend
  rw [happend, partition, List.append_nil]

theorem partition_append {a : List α} (h : sep ∉ a) (rest : List α) :
    partition sep (a ++ sep :: rest) = (a, true, rest) := by
  rw [partition_append_of_notMem h, partition, if_pos rfl, List.append_nil]

theorem eq_of_partition {l a rest : List α} (h : partition sep l = (a, true, rest)) :
    l = a ++ sep :: rest ∧ sep ∉ a := by
  by_cases hmem : sep ∈ l
  · obtain ⟨b, rest', rfl, hb⟩ := List.eq_append_cons_of_mem hmem
    rw [partition_append hb] at h
    cases h
    exact ⟨rfl, hb⟩
  · rw [partition_of_notMem hmem] at h
    cases h

/-- A text has one cut at its first separator. -/
theorem cut_unique {a a' rest rest' : List α} (h : sep ∉ a) (h' : sep ∉ a')
    (heq : a ++ sep :: rest = a' ++ sep :: rest') : a = a' ∧ rest = rest' := by
  have hcut := congrArg (partition sep) heq
  rw [partition_append h, partition_append h'] at hcut
  exact ⟨(Prod.mk.inj hcut).1, (Prod.mk.inj (Prod.mk.inj hcut).2).2⟩

theorem rpartition_of_notMem {a : List α} (h : sep ∉ a) : rpartition sep a = ([], false, a) := by
  induction a with
  | nil => rfl
  | cons c a ih =>
    have hne : c ≠ sep := fun hc => h (hc ▸ List.mem_cons_self)
    rw [rpartition, ih fun hmem => h (List.mem_cons_of_mem c hmem)]
    exact if_neg hne

theorem rpartition_append {rest : List α} (h : sep ∉ rest) (a : List α) :
    rpartition sep (a ++ sep :: rest) = (a, true, rest) := by
  induction a with
  | nil =>
    rw [List.nil_append, rpartition, rpartition_of_notMem h]
    exact if_pos rfl
  | cons c a ih => rw [List.cons_append, rpartition, ih]

/-- A text has one cut at its last separator. -/
theorem rcut_unique {a a' rest rest' : List α} (h : sep ∉ rest) (h' : sep ∉ rest')
    (heq : a ++ sep :: rest = a' ++ sep :: rest') : a = a' ∧ rest = rest' := by
  have hcut := congrArg (rpartition sep) heq
  rw [rpartition_append h, rpartition_append h'] at hcut
  exact ⟨(Prod.mk.inj hcut).1, (Prod.mk.inj (Prod.mk.inj hcut).2).2⟩

end Lexing
end Eds
