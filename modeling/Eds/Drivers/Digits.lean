import Eds.Drivers.Lexing
import Eds.Lexing.Utf8Order
import Eds.Util.Numbers

/-!
# Texts of digits

A number is printed with zeros in front (`padded`) and read back, and texts of as many digits are
in the order of their numbers (`charLt_iff`).
-/

namespace Eds
namespace Drivers

open Util Lexing.Utf8Order

theorem length_filterMap_digit? {ds : List Char} (h : isDigits ds = true) :
    (ds.filterMap digit?).length = ds.length := by
  induction ds with
  | nil => rfl
  | cons c ds ih =>
    rw [isDigits, List.all_cons, Bool.and_eq_true, isAsciiDigit, Bool.and_eq_true,
      decide_eq_true_iff, decide_eq_true_iff] at h
    have hc : digit? c = some (Fin.ofNat 10 (c.toNat - '0'.toNat)) := if_pos h.1
    rw [List.filterMap_cons, hc, List.length_cons, List.length_cons, ih h.2]

theorem readNat_append (a : List Char) {b : List Char} (hb : isDigits b = true) :
    readNat (a ++ b) = readNat a * 10 ^ b.length + readNat b := by
  have hvalue := digitsValue_append (a.filterMap digit?) (b.filterMap digit?)
  rw [← List.filterMap_append, length_filterMap_digit? hb] at hvalue
  exact hvalue

theorem readNat_lt {ds : List Char} (h : isDigits ds = true) : readNat ds < 10 ^ ds.length := by
  have hlt := digitsValue_lt (ds.filterMap digit?)
  rw [length_filterMap_digit? h] at hlt
  exact hlt

theorem isDigits_digitChar (ds : List (Fin 10)) : isDigits (ds.map digitChar) = true := by
  have hone : ∀ d : Fin 10, isAsciiDigit (digitChar d) = true := by decide
  rw [isDigits, List.all_map, List.all_eq_true]
  exact fun d _ => hone d

theorem readNat_zeros (n : Nat) : readNat (List.replicate n '0') = 0 := by
  rw [readNat]
  induction n with
  | zero => rfl
  | succ n ih =>
    rw [List.replicate_succ, List.filterMap_cons]
    exact ih

theorem isDigits_zeros (n : Nat) : isDigits (List.replicate n '0') = true :=
  List.all_eq_true.mpr fun c hc => by
    rw [List.eq_of_mem_replicate hc]
    rfl

/-! ## Zeros in front -/

/-- `f"{n:0{width}d}"` -/
def padded (width n : Nat) : List Char :=
  List.replicate (width - (Nat.toDigits 10 n).length) '0' ++ Nat.toDigits 10 n

theorem isDigits_toDigits (n : Nat) : isDigits (Nat.toDigits 10 n) = true := by
  obtain ⟨ds, htext, -, -⟩ := toDigits_digits n
  rw [htext]
  exact isDigits_digitChar ds

theorem readNat_toDigits (n : Nat) : readNat (Nat.toDigits 10 n) = n := by
  obtain ⟨ds, htext, hvalue, -⟩ := toDigits_digits n
  rw [htext, readNat_digitChar, hvalue]

theorem isDigits_padded (width n : Nat) : isDigits (padded width n) = true :=
  isDigits_append (isDigits_zeros _) (isDigits_toDigits n)

theorem readNat_padded (width n : Nat) : readNat (padded width n) = n := by
  rw [padded, readNat_append _ (isDigits_toDigits n), readNat_zeros, readNat_toDigits, Nat.zero_mul,
    Nat.zero_add]

theorem length_padded {width n : Nat} (hwidth : 0 < width) (h : n < 10 ^ width) :
    (padded width n).length = width := by
  have hle := (Nat.length_toDigits_le_iff (by decide) hwidth).mpr h
  rw [padded, List.length_append, List.length_replicate]
  omega

/-! ## Order -/

theorem bounds_of_isAsciiDigit {c : Char} (h : isAsciiDigit c = true) :
    48 ≤ c.toNat ∧ c.toNat ≤ 57 := by
  rw [isAsciiDigit, Bool.and_eq_true, decide_eq_true_iff, decide_eq_true_iff] at h
  exact ⟨UInt32.le_iff_toNat_le.mp h.1, UInt32.le_iff_toNat_le.mp h.2⟩

theorem readNat_cons {c : Char} (hc : isAsciiDigit c = true) {ds : List Char}
    (h : isDigits ds = true) :
    readNat (c :: ds) = (c.toNat - 48) * 10 ^ ds.length + readNat ds := by
  have hbounds := bounds_of_isAsciiDigit hc
  rw [isAsciiDigit, Bool.and_eq_true, decide_eq_true_iff, decide_eq_true_iff] at hc
  have hone : readNat [c] = c.toNat - 48 := by
    have hdigit : digit? c = some (Fin.ofNat 10 (c.toNat - '0'.toNat)) := if_pos hc
    have hzero : '0'.toNat = 48 := rfl
    have hread : readNat [c] = digitsValue ([c].filterMap digit?) := rfl
    rw [hread, List.filterMap_cons, hdigit]
    show 10 * 0 + (c.toNat - '0'.toNat) % 10 = _
    rw [hzero]
    omega
  rw [← List.singleton_append, readNat_append [c] h, hone]

theorem charLt_iff {a b : List Char} (ha : isDigits a = true) (hb : isDigits b = true)
    (hlength : a.length = b.length) : CharLt a b ↔ readNat a < readNat b := by
  induction a generalizing b with
  | nil =>
    rw [List.eq_nil_of_length_eq_zero hlength.symm]
    exact iff_of_false not_charLt_nil (Nat.lt_irrefl _)
  | cons c a ih =>
    cases b with
    | nil => cases hlength
    | cons d b =>
      rw [isDigits, List.all_cons, Bool.and_eq_true] at ha hb
      have hrest := Nat.succ.inj hlength
      have hlt := readNat_lt ha.2
      have hlt' := readNat_lt hb.2
      have hc := bounds_of_isAsciiDigit ha.1
      have hd := bounds_of_isAsciiDigit hb.1
      rw [CharLt, List.cons_lex_cons_iff, readNat_cons ha.1 ha.2, readNat_cons hb.1 hb.2, hrest]
      rw [hrest] at hlt
      rcases Nat.lt_trichotomy c.toNat d.toNat with h | h | h
      · have hstep := Nat.mul_le_mul_right (10 ^ b.length) (by omega : c.toNat - 48 + 1 ≤ d.toNat - 48)
        rw [Nat.add_mul] at hstep
        exact iff_of_true (Or.inl h) (by omega)
      · rw [h, Nat.add_lt_add_iff_left, ← ih ha.2 hb.2 hrest]
        exact ⟨fun hless => (hless.resolve_left (Nat.lt_irrefl _)).2,
          fun hless => Or.inr ⟨Char.toNat_inj.mp h, hless⟩⟩
      · have hstep := Nat.mul_le_mul_right (10 ^ b.length) (by omega : d.toNat - 48 + 1 ≤ c.toNat - 48)
        rw [Nat.add_mul] at hstep
        refine iff_of_false ?_ (by omega)
        rintro (hless | ⟨hsame, -⟩)
        · omega
        · rw [hsame] at h
          exact Nat.lt_irrefl _ h

/-- Of as many digits, only one text is for a number. -/
theorem readNat_inj {a b : List Char} (ha : isDigits a = true) (hb : isDigits b = true)
    (hlength : a.length = b.length) (h : readNat a = readNat b) : a = b := by
  induction a generalizing b with
  | nil => exact (List.eq_nil_of_length_eq_zero hlength.symm).symm
  | cons c a ih =>
    cases b with
    | nil => cases hlength
    | cons d b =>
      rw [isDigits, List.all_cons, Bool.and_eq_true] at ha hb
      have hrest := Nat.succ.inj hlength
      have hlt := readNat_lt ha.2
      have hlt' := readNat_lt hb.2
      have hc := bounds_of_isAsciiDigit ha.1
      have hd := bounds_of_isAsciiDigit hb.1
      rw [readNat_cons ha.1 ha.2, readNat_cons hb.1 hb.2, hrest] at h
      rw [hrest] at hlt
      have hback : readNat a = readNat b := by
        have hmod := congrArg (· % 10 ^ b.length) h
        simp only [Nat.mul_add_mod_of_lt hlt, Nat.mul_add_mod_of_lt hlt'] at hmod
        exact hmod
      have hfront : c.toNat - 48 = d.toNat - 48 :=
        Nat.eq_of_mul_eq_mul_right (Nat.pow_pos (by decide)) (by omega : _ * 10 ^ b.length = _)
      rw [ih ha.2 hb.2 hrest hback, Char.toNat_inj.mp (by omega : c.toNat = d.toNat)]

theorem padded_readNat {width : Nat} {ds : List Char} (h : isDigits ds = true)
    (hlength : ds.length = width) (hwidth : 0 < width) : padded width (readNat ds) = ds := by
  have hlt := readNat_lt h
  rw [hlength] at hlt
  exact readNat_inj (isDigits_padded _ _) h ((length_padded hwidth hlt).trans hlength.symm)
    (readNat_padded _ _)

end Drivers
end Eds
