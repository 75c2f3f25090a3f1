import Mathlib.Data.Int.Log
import Mathlib.Data.Rat.Floor
import Mathlib.Algebra.Order.Field.Power
import Mathlib.Tactic.Linarith
import Mathlib.Tactic.NormNum
import Mathlib.Tactic.Positivity
import Mathlib.Tactic.Ring

/-!
# Rounding to double precision

`round q` is the double nearest to the rational `q`, ties to the even significand.
Only the value is kept: there are no infinities, which concern magnitudes from
`2 ^ 1024` on, and no signed zero.

The results are error bounds and the order.  `abs_round_sub_le` says how far a value below
`2 ^ k` can move, `roundHalfEven_eq` says that an integer is found again from
anything closer to it than one half, and `round_mono` that two values are never
put the other way round.
-/

namespace Eds
namespace Numeric

def roundHalfEven (q : ℚ) : ℤ :=
  if q - ⌊q⌋ < 1 / 2 then ⌊q⌋
  else if 1 / 2 < q - ⌊q⌋ then ⌊q⌋ + 1
  else if ⌊q⌋ % 2 = 0 then ⌊q⌋ else ⌊q⌋ + 1

theorem abs_roundHalfEven_sub_le (q : ℚ) : |(roundHalfEven q : ℚ) - q| ≤ 1 / 2 := by
  have hlo := Int.floor_le q
  have hhi := Int.lt_floor_add_one q
  unfold roundHalfEven
  split
  · rw [abs_le]; constructor <;> linarith
  · split
    · push_cast
      rw [abs_le]; constructor <;> linarith
    · split
      · rw [abs_le]; constructor <;> linarith
      · push_cast
        rw [abs_le]; constructor <;> linarith

theorem int_eq_of_abs_sub_lt {m n : ℤ} (h : |(m : ℚ) - n| < 1) : m = n := by
  have hcast : ((|m - n| : ℤ) : ℚ) < 1 := by push_cast; exact h
  have hint : |m - n| < 1 := by exact_mod_cast hcast
  have hzero := Int.abs_lt_one_iff.mp hint
  omega

theorem roundHalfEven_eq {q : ℚ} {n : ℤ} (h : |q - n| < 1 / 2) : roundHalfEven q = n := by
  apply int_eq_of_abs_sub_lt
  have hround := abs_roundHalfEven_sub_le q
  have hsplit : (roundHalfEven q : ℚ) - n = ((roundHalfEven q : ℚ) - q) + (q - n) := by ring
  rw [hsplit]
  exact lt_of_le_of_lt (abs_add_le _ _) (by linarith)

theorem le_roundHalfEven {q : ℚ} {n : ℤ} (h : (n : ℚ) ≤ q) : n ≤ roundHalfEven q := by
  have hfloor : n ≤ ⌊q⌋ := Int.le_floor.mpr h
  unfold roundHalfEven
  split_ifs <;> omega

theorem roundHalfEven_le {q : ℚ} {n : ℤ} (h : q ≤ n) : roundHalfEven q ≤ n := by
  have hfloor : ⌊q⌋ ≤ n := by exact_mod_cast (Int.floor_le q).trans h
  have hlt : q - ⌊q⌋ ≠ 0 → ⌊q⌋ < n := fun hne => by
    refine lt_of_le_of_ne hfloor fun heq => hne ?_
    have hle := Int.floor_le q
    rw [heq] at hle ⊢
    linarith
  unfold roundHalfEven
  split_ifs with hlo hhi heven
  · exact hfloor
  · exact hlt (by linarith)
  · exact hfloor
  · exact hlt (by linarith)

theorem roundHalfEven_mono {q q' : ℚ} (h : q ≤ q') : roundHalfEven q ≤ roundHalfEven q' := by
  rcases eq_or_lt_of_le (Int.floor_mono h) with hfloor | hfloor
  · unfold roundHalfEven
    rw [hfloor]
    split_ifs <;> first | omega | linarith
  · have hhi : q ≤ ((⌊q⌋ + 1 : ℤ) : ℚ) := by
      push_cast
      exact (Int.lt_floor_add_one q).le
    have hlo : ⌊q⌋ + 1 ≤ ⌊q'⌋ := hfloor
    exact (roundHalfEven_le hhi).trans (hlo.trans (le_roundHalfEven (Int.floor_le q')))

namespace Binary64

/-- The exponent of the last significand bit at the magnitude of `q`: 53 bits, and
no finer than the smallest subnormal. -/
def exponent (q : ℚ) : ℤ := max (Int.log 2 |q| - 52) (-1074)

def round (q : ℚ) : ℚ := roundHalfEven (q / 2 ^ exponent q) * 2 ^ exponent q

theorem round_zero : round 0 = 0 := by
  have h : roundHalfEven 0 = 0 := roundHalfEven_eq (by norm_num)
  rw [round, zero_div, h]
  norm_num

/-- Rounding moves a value by at most half a unit in the last place. -/
theorem abs_round_sub_le_ulp (q : ℚ) : |round q - q| ≤ 2 ^ exponent q / 2 := by
  have hpos : (0 : ℚ) < 2 ^ exponent q := by positivity
  have hsplit : round q - q =
      ((roundHalfEven (q / 2 ^ exponent q) : ℚ) - q / 2 ^ exponent q) * 2 ^ exponent q := by
    rw [round, sub_mul, div_mul_cancel₀ _ (ne_of_gt hpos)]
  rw [hsplit, abs_mul, abs_of_pos hpos]
  have hround := abs_roundHalfEven_sub_le (q / 2 ^ exponent q)
  nlinarith

theorem exponent_le {q : ℚ} {k : ℤ} (hq : q ≠ 0) (h : |q| < 2 ^ k) (hk : -1021 ≤ k) :
    exponent q ≤ k - 53 := by
  have hlog : Int.log 2 |q| < k := by
    refine (Int.lt_zpow_iff_log_lt (by norm_num) (abs_pos.mpr hq)).mp ?_
    exact_mod_cast h
  unfold exponent
  omega

/-- A value below `2 ^ k` moves by at most `2 ^ (k - 54)`. -/
theorem abs_round_sub_le {q : ℚ} {k : ℤ} (h : |q| < 2 ^ k) (hk : -1021 ≤ k) :
    |round q - q| ≤ 2 ^ (k - 54) := by
  by_cases hq : q = 0
  · subst hq
    rw [round_zero, sub_zero, abs_zero]
    positivity
  · have hulp := abs_round_sub_le_ulp q
    have hexp : (2 : ℚ) ^ exponent q ≤ 2 ^ (k - 53) :=
      zpow_le_zpow_right₀ (by norm_num) (exponent_le hq h hk)
    have hhalf : (2 : ℚ) ^ (k - 53) / 2 = 2 ^ (k - 54) := by
      rw [show k - 53 = (k - 54) + 1 by ring, zpow_add_one₀ (by norm_num)]
      ring
    linarith

/-! ## Order -/

theorem le_round {q : ℚ} {n : ℤ} (h : n * 2 ^ exponent q ≤ q) : n * 2 ^ exponent q ≤ round q := by
  have hpos : (0 : ℚ) < 2 ^ exponent q := by positivity
  have hle : n ≤ roundHalfEven (q / 2 ^ exponent q) :=
    le_roundHalfEven ((le_div_iff₀ hpos).mpr h)
  exact mul_le_mul_of_nonneg_right (by exact_mod_cast hle) hpos.le

theorem round_le {q : ℚ} {n : ℤ} (h : q ≤ n * 2 ^ exponent q) : round q ≤ n * 2 ^ exponent q := by
  have hpos : (0 : ℚ) < 2 ^ exponent q := by positivity
  have hle : roundHalfEven (q / 2 ^ exponent q) ≤ n :=
    roundHalfEven_le ((div_le_iff₀ hpos).mpr h)
  exact mul_le_mul_of_nonneg_right (by exact_mod_cast hle) hpos.le

/-- A power of two that is no finer than the last bit is not passed in rounding. -/
theorem zpow_eq_mul {q : ℚ} {k : ℤ} (h : exponent q ≤ k) :
    (2 : ℚ) ^ k = ((2 ^ (k - exponent q).toNat : ℤ) : ℚ) * 2 ^ exponent q := by
  have hsplit : k = ((k - exponent q).toNat : ℤ) + exponent q := by omega
  conv_lhs => rw [hsplit, zpow_add₀ (by norm_num), zpow_natCast]
  push_cast
  rfl

theorem zpow_le_round {q : ℚ} {k : ℤ} (hk : exponent q ≤ k) (h : 2 ^ k ≤ q) : 2 ^ k ≤ round q := by
  rw [zpow_eq_mul hk] at h ⊢
  exact le_round h

theorem round_le_zpow {q : ℚ} {k : ℤ} (hk : exponent q ≤ k) (h : q ≤ 2 ^ k) : round q ≤ 2 ^ k := by
  rw [zpow_eq_mul hk] at h ⊢
  exact round_le h

theorem neg_zpow_le_round {q : ℚ} {k : ℤ} (hk : exponent q ≤ k) (h : -2 ^ k ≤ q) :
    -2 ^ k ≤ round q := by
  rw [zpow_eq_mul hk, ← neg_mul, ← Int.cast_neg] at h ⊢
  exact le_round h

theorem round_le_neg_zpow {q : ℚ} {k : ℤ} (hk : exponent q ≤ k) (h : q ≤ -2 ^ k) :
    round q ≤ -2 ^ k := by
  rw [zpow_eq_mul hk, ← neg_mul, ← Int.cast_neg] at h ⊢
  exact round_le h

/-- The larger of two exponents is that of a power of two between the magnitudes. -/
theorem exists_zpow_between {q q' : ℚ} (hq' : q' ≠ 0) (h : exponent q < exponent q') :
    ∃ k, exponent q ≤ k ∧ exponent q' ≤ k ∧ |q| ≤ 2 ^ k ∧ 2 ^ k ≤ |q'| := by
  have hlog : Int.log 2 |q| < Int.log 2 |q'| ∧ exponent q' = Int.log 2 |q'| - 52 := by
    unfold exponent at h ⊢
    omega
  refine ⟨Int.log 2 |q'|, by omega, by omega, ?_, ?_⟩
  · have hlt := Int.lt_zpow_succ_log_self (b := 2) (by norm_num) |q|
    refine hlt.le.trans ?_
    exact_mod_cast zpow_le_zpow_right₀ (by norm_num : (1 : ℚ) ≤ 2) (by omega)
  · exact_mod_cast Int.zpow_log_le_self (b := 2) (by norm_num) (abs_pos.mpr hq')

theorem round_nonneg {q : ℚ} (h : 0 ≤ q) : 0 ≤ round q := by
  have hround := le_round (q := q) (n := 0) (by rw [Int.cast_zero, zero_mul]; exact h)
  rwa [Int.cast_zero, zero_mul] at hround

theorem round_nonpos {q : ℚ} (h : q ≤ 0) : round q ≤ 0 := by
  have hround := round_le (q := q) (n := 0) (by rw [Int.cast_zero, zero_mul]; exact h)
  rwa [Int.cast_zero, zero_mul] at hround

theorem round_mono {q q' : ℚ} (h : q ≤ q') : round q ≤ round q' := by
  by_cases hq : q = 0
  · subst hq
    rw [round_zero]
    exact round_nonneg h
  by_cases hq' : q' = 0
  · subst hq'
    rw [round_zero]
    exact round_nonpos h
  rcases lt_trichotomy (exponent q) (exponent q') with hlt | heq | hgt
  · obtain ⟨k, hk, hk', hlo, hhi⟩ := exists_zpow_between hq' hlt
    rcases le_abs.mp hhi with hhi | hhi
    · exact (round_le_zpow hk ((le_abs_self q).trans hlo)).trans (zpow_le_round hk' hhi)
    · -- `q` is at least as far below zero as `q'`
      have hedge : q' = -2 ^ k ∧ q = -2 ^ k := by
        have hneg := neg_le_of_abs_le hlo
        constructor <;> linarith
      rw [hedge.1, hedge.2]
  · unfold round
    rw [heq]
    have hpos : (0 : ℚ) < 2 ^ exponent q' := by positivity
    have hround := roundHalfEven_mono (div_le_div_of_nonneg_right h hpos.le)
    exact mul_le_mul_of_nonneg_right (by exact_mod_cast hround) hpos.le
  · obtain ⟨k, hk', hk, hlo, hhi⟩ := exists_zpow_between hq hgt
    rcases le_abs.mp hhi with hhi | hhi
    · have hedge : q' = 2 ^ k ∧ q = 2 ^ k := by
        have hle := le_of_abs_le hlo
        constructor <;> linarith
      rw [hedge.1, hedge.2]
    · refine (round_le_neg_zpow hk ?_).trans (neg_zpow_le_round hk' (neg_le_of_abs_le hlo))
      linarith

end Binary64
end Numeric
end Eds
