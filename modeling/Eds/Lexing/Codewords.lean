import Mathlib.Data.List.Basic

/-!
# A text made of codewords

If no codeword begins another one, a text put together of codewords can be taken apart
again: `spell` takes off the first codeword that fits, as often as there is one.
-/

namespace Eds
namespace Lexing

variable {α β : Type} [DecidableEq α]

/-- What the codewords of the text stand for, at most `fuel` of them. -/
def spell (codes : List (List α × β)) : Nat → List α → List β
  | 0, _ => []
  | fuel + 1, text =>
    match codes.find? fun c => c.1.isPrefixOf text with
    | none => []
    | some c => c.2 :: spell codes fuel (text.drop c.1.length)

/-- No codeword is empty, and none begins another one. -/
structure PrefixFree (codes : List (List α × β)) : Prop where
  nonempty : ∀ c ∈ codes, c.1 ≠ []
  apart : codes.Pairwise fun c c' => c.1.isPrefixOf c'.1 = false ∧ c'.1.isPrefixOf c.1 = false

variable {codes : List (List α × β)}

theorem PrefixFree.unique (h : PrefixFree codes) {c c' : List α × β} (hc : c ∈ codes)
    (hc' : c' ∈ codes) (hbegins : c.1 <+: c'.1) : c = c' := by
  refine List.Pairwise.forall_of_forall_of_flip (R := fun c c' => c.1 <+: c'.1 → c = c')
    (fun _ _ _ => rfl) (h.apart.imp fun hapart hle => ?_) (h.apart.imp fun hapart hle => ?_)
    hc hc' hbegins
  · rw [List.isPrefixOf_iff_prefix.mpr hle] at hapart
    cases hapart.1
  · rw [List.isPrefixOf_iff_prefix.mpr hle] at hapart
    cases hapart.2

theorem PrefixFree.find (h : PrefixFree codes) {c : List α × β} (hc : c ∈ codes) (rest : List α) :
    codes.find? (fun c' => c'.1.isPrefixOf (c.1 ++ rest)) = some c := by
  cases hfind : codes.find? fun c' => c'.1.isPrefixOf (c.1 ++ rest) with
  | none =>
    have hnone := List.find?_eq_none.mp hfind c hc
    exact absurd (List.isPrefixOf_iff_prefix.mpr (List.prefix_append _ _)) hnone
  | some c' =>
    have hsome : c'.1.isPrefixOf (c.1 ++ rest) = true := by simpa using List.find?_some hfind
    have hfits : c'.1 <+: c.1 ++ rest := List.isPrefixOf_iff_prefix.mp hsome
    have hmem : c' ∈ codes := List.mem_of_find?_eq_some hfind
    rcases List.prefix_or_prefix_of_prefix hfits (List.prefix_append c.1 rest) with hle | hle
    · rw [h.unique hmem hc hle]
    · rw [h.unique hc hmem hle]

theorem spell_flatMap (h : PrefixFree codes) {words : List (List α × β)} (hwords : ∀ w ∈ words, w ∈ codes)
    {fuel : Nat} (hfuel : words.length ≤ fuel) :
    spell codes fuel (words.flatMap Prod.fst) = words.map Prod.snd := by
  induction words generalizing fuel with
  | nil =>
    have hnone : codes.find? (fun c => c.1.isPrefixOf ([] : List α)) = none := by
      refine List.find?_eq_none.mpr fun c hc hfits => ?_
      exact h.nonempty c hc (List.prefix_nil.mp (List.isPrefixOf_iff_prefix.mp hfits))
    cases fuel with
    | zero => rfl
    | succ fuel =>
      show (match codes.find? (fun c => c.1.isPrefixOf ([] : List α)) with
        | none => []
        | some c => c.2 :: spell codes fuel (List.drop c.1.length [])) = []
      rw [hnone]
  | cons w rest ih =>
    cases fuel with
    | zero => simp at hfuel
    | succ fuel =>
      rw [List.flatMap_cons, spell, h.find (hwords w List.mem_cons_self)]
      show w.2 :: spell codes fuel ((w.1 ++ rest.flatMap Prod.fst).drop w.1.length) = _
      rw [List.drop_left, ih (fun w hw => hwords w (List.mem_cons_of_mem _ hw))
        (Nat.le_of_succ_le_succ hfuel)]
      rfl

end Lexing
end Eds
