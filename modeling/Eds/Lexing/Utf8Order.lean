import Eds.Lexing.Percent

/-!
# The order of UTF-8

The bytes of two texts are in the order of their code points (`lex_utf8_iff`), and between a text
and the one whose last code point is greater by one there are the texts that begin with it
(`between_iff`).
-/

namespace Eds
namespace Lexing
namespace Utf8Order

open Percent

/-- The order of the memory: the shorter text first. -/
def ByteLt : List UInt8 → List UInt8 → Prop := List.Lex fun a b => a.toNat < b.toNat

def CharLt : List Char → List Char → Prop := List.Lex fun a b => a.toNat < b.toNat

instance : DecidableRel ByteLt := fun s t =>
  inferInstanceAs (Decidable (List.Lex (fun a b : UInt8 => a.toNat < b.toNat) s t))

instance : DecidableRel CharLt := fun s t =>
  inferInstanceAs (Decidable (List.Lex (fun a b : Char => a.toNat < b.toNat) s t))

section

variable {α : Type} {r : α → α → Prop}

theorem lex_append_left (hirrefl : ∀ a, ¬ r a a) (w : List α) {s t : List α} :
    List.Lex r (w ++ s) (w ++ t) ↔ List.Lex r s t := by
  induction w with
  | nil => exact Iff.rfl
  | cons a w ih =>
    rw [List.cons_append, List.cons_append, List.cons_lex_cons_iff, ih]
    exact ⟨fun h => (h.resolve_left (hirrefl a)).2, fun h => Or.inr ⟨rfl, h⟩⟩

theorem lex_map {β : Type} {f : β → α} (hf : ∀ a b, f a = f b → a = b) (s t : List β) :
    List.Lex r (s.map f) (t.map f) ↔ List.Lex (fun a b => r (f a) (f b)) s t := by
  induction s generalizing t with
  | nil =>
    cases t with
    | nil => exact ⟨nofun, nofun⟩
    | cons b t => exact ⟨fun _ => List.Lex.nil, fun _ => List.Lex.nil⟩
  | cons a s ih =>
    cases t with
    | nil => exact ⟨nofun, nofun⟩
    | cons b t =>
      have hsame : f a = f b ↔ a = b := ⟨hf a b, fun h => by rw [h]⟩
      rw [List.map_cons, List.map_cons, List.cons_lex_cons_iff, List.cons_lex_cons_iff, ih, hsame]

theorem lex_asymm (hasymm : ∀ a b, r a b → ¬ r b a) {s t : List α} (h : List.Lex r s t) :
    ¬ List.Lex r t s := by
  have hirrefl : ∀ a, ¬ r a a := fun a ha => hasymm a a ha ha
  induction h with
  | nil => exact nofun
  | cons _ ih =>
    rw [List.cons_lex_cons_iff, not_or]
    exact ⟨hirrefl _, fun h => ih h.2⟩
  | rel hab =>
    rw [List.cons_lex_cons_iff, not_or]
    exact ⟨hasymm _ _ hab, fun h => hirrefl _ (h.1 ▸ hab)⟩

end

theorem byteLt_append_left (w : List UInt8) {s t : List UInt8} :
    ByteLt (w ++ s) (w ++ t) ↔ ByteLt s t :=
  lex_append_left (fun a => Nat.lt_irrefl a.toNat) w

theorem charLt_append_left (w : List Char) {s t : List Char} :
    CharLt (w ++ s) (w ++ t) ↔ CharLt s t :=
  lex_append_left (fun a => Nat.lt_irrefl a.toNat) w

theorem not_byteLt_nil {s : List UInt8} : ¬ ByteLt s [] := nofun

theorem not_charLt_nil {s : List Char} : ¬ CharLt s [] := nofun

/-! ## One character -/

/-- The bytes of a code point. -/
def bytesOf (n : Nat) : List Nat :=
  if n ≤ 0x7F then [n]
  else if n ≤ 0x7FF then [0xC0 + n / 64, 0x80 + n % 64]
  else if n ≤ 0xFFFF then [0xE0 + n / 4096, 0x80 + n / 64 % 64, 0x80 + n % 64]
  else [0xF0 + n / 262144, 0x80 + n / 4096 % 64, 0x80 + n / 64 % 64, 0x80 + n % 64]

theorem toNat_utf8EncodeChar (c : Char) :
    (String.utf8EncodeChar c).map UInt8.toNat = bytesOf c.toNat := by
  have hmax : c.val.toNat < 0x110000 := by
    rcases c.valid with h | h
    · exact Nat.lt_trans h (by decide)
    · exact h.2
  have hsame : c.toNat = c.val.toNat := rfl
  rw [hsame, String.utf8EncodeChar, bytesOf]
  split
  · simp only [List.map_cons, List.map_nil, UInt8.toNat_ofNat', List.cons.injEq, and_true]
    omega
  split
  · simp only [List.map_cons, List.map_nil, UInt8.toNat_ofNat', List.cons.injEq, and_true]
    omega
  split
  · simp only [List.map_cons, List.map_nil, UInt8.toNat_ofNat', List.cons.injEq, and_true]
    omega
  · simp only [List.map_cons, List.map_nil, UInt8.toNat_ofNat', List.cons.injEq, and_true]
    omega

/-- The first bytes tell how many there are; of as many bytes each is a digit. -/
theorem lex_bytesOf {m n : Nat} (hlt : m < n) (hmax : n < 0x110000) (s t : List Nat) :
    List.Lex (· < ·) (bytesOf m ++ s) (bytesOf n ++ t) := by
  have hhead : ∀ {a b : Nat} (s t : List Nat), a < b → List.Lex (· < ·) (a :: s) (b :: t) :=
    fun _ _ h => List.Lex.rel h
  have hnext : ∀ {a b : Nat} {s t : List Nat}, a = b → List.Lex (· < ·) s t →
      List.Lex (· < ·) (a :: s) (b :: t) := by
    intro a b s t h hs
    rw [h]
    exact List.Lex.cons hs
  by_cases hn : n ≤ 0x7F
  · rw [bytesOf, if_pos (by omega : m ≤ 0x7F), bytesOf, if_pos hn]
    exact hhead _ _ hlt
  by_cases hm : m ≤ 0x7F
  · rw [bytesOf, if_pos hm, bytesOf, if_neg hn]
    split
    · exact hhead _ _ (by omega)
    split
    · exact hhead _ _ (by omega)
    · exact hhead _ _ (by omega)
  rw [bytesOf, if_neg hm, bytesOf, if_neg hn]
  by_cases hn : n ≤ 0x7FF
  · rw [if_pos (by omega : m ≤ 0x7FF), if_pos hn]
    by_cases h : m / 64 = n / 64
    · exact hnext (by omega) (hhead _ _ (by omega))
    · exact hhead _ _ (by omega)
  rw [if_neg hn]
  by_cases hm : m ≤ 0x7FF
  · rw [if_pos hm]
    split
    · exact hhead _ _ (by omega)
    · exact hhead _ _ (by omega)
  rw [if_neg hm]
  by_cases hn : n ≤ 0xFFFF
  · rw [if_pos (by omega : m ≤ 0xFFFF), if_pos hn]
    by_cases h : m / 4096 = n / 4096
    · by_cases h' : m / 64 = n / 64
      · exact hnext (by omega) (hnext (by omega) (hhead _ _ (by omega)))
      · exact hnext (by omega) (hhead _ _ (by omega))
    · exact hhead _ _ (by omega)
  rw [if_neg hn]
  by_cases hm : m ≤ 0xFFFF
  · rw [if_pos hm]
    exact hhead _ _ (by omega)
  rw [if_neg hm]
  by_cases h : m / 262144 = n / 262144
  · by_cases h' : m / 4096 = n / 4096
    · by_cases h'' : m / 64 = n / 64
      · exact hnext (by omega) (hnext (by omega) (hnext (by omega) (hhead _ _ (by omega))))
      · exact hnext (by omega) (hnext (by omega) (hhead _ _ (by omega)))
    · exact hnext (by omega) (hhead _ _ (by omega))
  · exact hhead _ _ (by omega)

theorem lex_utf8EncodeChar {c d : Char} (h : c.toNat < d.toNat) (s t : List UInt8) :
    ByteLt (String.utf8EncodeChar c ++ s) (String.utf8EncodeChar d ++ t) := by
  have hmax : d.toNat < 0x110000 := by
    rcases d.valid with h | h
    · exact Nat.lt_trans h (by decide)
    · exact h.2
  rw [ByteLt, ← lex_map fun _ _ => UInt8.toNat_inj.mp, List.map_append, List.map_append,
    toNat_utf8EncodeChar, toNat_utf8EncodeChar]
  exact lex_bytesOf h hmax _ _

/-! ## Texts -/

theorem lex_utf8_iff (s t : List Char) : ByteLt (utf8 s) (utf8 t) ↔ CharLt s t := by
  have hasymm : ∀ a b : UInt8, a.toNat < b.toNat → ¬ b.toNat < a.toNat := fun _ _ => Nat.lt_asymm
  induction s generalizing t with
  | nil =>
    cases t with
    | nil => exact ⟨fun h => absurd h not_byteLt_nil, fun h => absurd h not_charLt_nil⟩
    | cons d t =>
      refine ⟨fun _ => List.Lex.nil, fun _ => ?_⟩
      have hpos : 0 < (utf8 (d :: t)).length := by
        rw [utf8_cons, List.length_append, String.length_utf8EncodeChar]
        exact Nat.add_pos_left d.utf8Size_pos _
      obtain ⟨b, rest, hb⟩ := List.exists_cons_of_length_pos hpos
      rw [hb]
      exact List.Lex.nil
  | cons c s ih =>
    cases t with
    | nil => exact ⟨fun h => absurd h not_byteLt_nil, fun h => absurd h not_charLt_nil⟩
    | cons d t =>
      rw [utf8_cons, utf8_cons, CharLt, List.cons_lex_cons_iff]
      rcases Nat.lt_trichotomy c.toNat d.toNat with h | h | h
      · exact ⟨fun _ => Or.inl h, fun _ => lex_utf8EncodeChar h _ _⟩
      · rw [Char.toNat_inj.mp h, byteLt_append_left]
        exact (ih t).trans ⟨fun hs => Or.inr ⟨rfl, hs⟩,
          fun hs => (hs.resolve_left (Nat.lt_irrefl _)).2⟩
      · refine ⟨fun hs => absurd (lex_utf8EncodeChar h _ _) (lex_asymm hasymm hs), ?_⟩
        rintro (hlt | ⟨rfl, -⟩)
        · exact absurd h (Nat.lt_asymm hlt)
        · exact absurd h (Nat.lt_irrefl _)

/-- From a text on, and before the one whose last character is the next. -/
theorem between_iff {c d : Char} (hd : d.toNat = c.toNat + 1) (front s : List Char) :
    ¬ CharLt s (front ++ [c]) ∧ CharLt s (front ++ [d]) ↔ front ++ [c] <+: s := by
  induction front generalizing s with
  | nil =>
    cases s with
    | nil =>
      exact ⟨fun h => absurd List.Lex.nil h.1,
        fun h => absurd (List.prefix_nil.mp h) (List.cons_ne_nil _ _)⟩
    | cons e s =>
      have hsingle : ∀ x, CharLt (e :: s) [x] ↔ e.toNat < x.toNat := fun x =>
        List.cons_lex_cons_iff.trans ⟨fun h => h.resolve_right fun h => not_charLt_nil h.2, Or.inl⟩
      rw [List.nil_append, List.nil_append, hsingle, hsingle, hd, List.cons_prefix_cons,
        ← Char.toNat_inj]
      constructor
      · intro h
        exact ⟨by omega, List.nil_prefix⟩
      · intro h
        omega
  | cons x front ih =>
    cases s with
    | nil =>
      exact ⟨fun h => absurd List.Lex.nil h.1,
        fun h => absurd (List.prefix_nil.mp h) (List.cons_ne_nil _ _)⟩
    | cons e s =>
      rw [List.cons_append, List.cons_append, CharLt, List.cons_lex_cons_iff,
        List.cons_lex_cons_iff, List.cons_prefix_cons, ← ih s]
      constructor
      · rintro ⟨hnot, hlt | ⟨rfl, hs⟩⟩
        · exact absurd (Or.inl hlt) hnot
        · exact ⟨rfl, fun h => hnot (Or.inr ⟨rfl, h⟩), hs⟩
      · rintro ⟨rfl, hnot, hs⟩
        exact ⟨fun h => hnot (h.resolve_left (Nat.lt_irrefl _)).2, Or.inr ⟨rfl, hs⟩⟩

theorem not_lt_of_prefix {q s : List Char} (h : q <+: s) : ¬ CharLt s q := by
  obtain ⟨back, rfl⟩ := h
  intro hlt
  have hback : CharLt (q ++ back) (q ++ []) := by rwa [List.append_nil]
  exact not_charLt_nil ((charLt_append_left q).mp hback)

end Utf8Order
end Lexing
end Eds
