import Mathlib.Data.List.Basic
import Mathlib.Data.List.Forall2

/-!
# Subjects with wildcards

A subject is cut into tokens at its dots.  In a pattern the token `*` stands for any one token, and
`>` in the last place for one or more.
-/

namespace Eds
namespace Lexing
namespace Subjects

def tokens (s : List Char) : List (List Char) := s.splitOn '.'

def covers : List (List Char) → List (List Char) → Bool
  | [], ts => ts.isEmpty
  | _ :: _, [] => false
  | p :: ps, t :: ts => (ps.isEmpty && p == ['>']) || ((p == ['*'] || p == t) && covers ps ts)

/-- What a token of a pattern stands for, when it is not the `>` in the last place. -/
def Fits (p t : List Char) : Prop := p = ['*'] ∨ p = t

theorem tokens_of_notMem {a : List Char} (h : '.' ∉ a) : tokens a = [a] := by
  refine List.splitOnP_eq_singleton fun c hc => ?_
  simpa using fun heq : c = '.' => h (heq ▸ hc)

theorem tokens_append {a : List Char} (h : '.' ∉ a) (rest : List Char) :
    tokens (a ++ '.' :: rest) = a :: tokens rest := by
  have hcut : (a ++ '.' :: rest).splitOn '.' = a.splitOn '.' ++ rest.splitOn '.' :=
    List.splitOnP_append_cons a rest (by decide)
  have ha : a.splitOn '.' = [a] := tokens_of_notMem h
  rw [tokens, hcut, ha]
  rfl

theorem tokens_ne_nil (s : List Char) : tokens s ≠ [] := List.splitOnP_ne_nil _ s

theorem eq_append_of_tokens {s a : List Char} {rest : List (List Char)} (h : tokens s = a :: rest)
    (hrest : rest ≠ []) : ∃ s', s = a ++ '.' :: s' ∧ tokens s' = rest := by
  by_cases hdot : '.' ∈ s
  · obtain ⟨front, s', rfl, hfront⟩ := List.eq_append_cons_of_mem hdot
    rw [tokens_append hfront] at h
    obtain ⟨rfl, rfl⟩ := List.cons.inj h
    exact ⟨s', rfl, rfl⟩
  · rw [tokens_of_notMem hdot] at h
    exact absurd (List.cons.inj h).2.symm hrest

/-- The subjects of a pattern that ends in `>`. -/
theorem covers_open_iff {ps ts : List (List Char)} (h : ∀ p ∈ ps, p ≠ ['>']) :
    covers (ps ++ [['>']]) ts = true ↔
      ∃ front rest, ts = front ++ rest ∧ rest ≠ [] ∧ List.Forall₂ Fits ps front := by
  induction ps generalizing ts with
  | nil =>
    cases ts with
    | nil =>
      refine ⟨fun hc => absurd hc Bool.false_ne_true, fun ⟨front, rest, heq, hrest, _⟩ => ?_⟩
      exact absurd (List.append_eq_nil_iff.mp heq.symm).2 hrest
    | cons t ts => exact ⟨fun _ => ⟨[], t :: ts, rfl, List.cons_ne_nil t ts, .nil⟩, fun _ => rfl⟩
  | cons p ps ih =>
    obtain ⟨hp, hps⟩ := List.forall_mem_cons.mp h
    cases ts with
    | nil =>
      refine ⟨fun hc => absurd hc Bool.false_ne_true, fun ⟨front, rest, heq, hrest, _⟩ => ?_⟩
      exact absurd (List.append_eq_nil_iff.mp heq.symm).2 hrest
    | cons t ts =>
      have hstep : covers (p :: ps ++ [['>']]) (t :: ts) = true ↔
          Fits p t ∧ covers (ps ++ [['>']]) ts = true := by
        simp [covers, Fits, hp]
      rw [hstep, ih hps]
      constructor
      · rintro ⟨hfits, front, rest, rfl, hrest, hfront⟩
        exact ⟨t :: front, rest, rfl, hrest, .cons hfits hfront⟩
      · rintro ⟨front, rest, heq, hrest, hfront⟩
        cases hfront with
        | cons hfits hfront =>
          obtain ⟨rfl, rfl⟩ := List.cons.inj heq
          exact ⟨hfits, _, rest, rfl, hrest, hfront⟩

end Subjects
end Lexing
end Eds
