import Eds.Exceptions
import Eds.Numeric.Binary64

/-!
# Instants

The `datetime` values the code handles are all UTC, and an instant is the number
of microseconds since 1970.  The library's range is the years 1 to 9999, and what
falls outside raises.

`fromTimestamp` follows the interpreter: the argument is a double, its integral
part is split off exactly, the fraction is scaled to microseconds in double
arithmetic and rounded half to even.  For the doubles that come from whole
milliseconds the result is exact between the years 1697 and 2242
(`timestampMicros_millis`), and `millisDrift` is what is left of the rounding
elsewhere.
-/

namespace Eds

open Numeric

/-- The first instant of the year 1. -/
def minMicros : Int := -62135596800 * 1000000

/-- The last microsecond of the year 9999. -/
def maxMicros : Int := 253402300799 * 1000000 + 999999

/-- `modf`'s integral part. -/
def truncate (q : ℚ) : ℤ := if 0 ≤ q then ⌊q⌋ else ⌈q⌉

/-- The microseconds of a double number of seconds, before the range check. -/
def timestampMicros (t : ℚ) : ℤ :=
  truncate t * 1000000 + roundHalfEven (Binary64.round ((t - truncate t) * 1000000))

def instant (micros : Int) : Except Exn Int :=
  if minMicros ≤ micros ∧ micros ≤ maxMicros then .ok micros
  else .error (.exception "date value out of range")

/-- `datetime.fromtimestamp(t, tz=timezone.utc)`. -/
def fromTimestamp (t : ℚ) : Except Exn Int := instant (timestampMicros t)

/-- `datetime.fromtimestamp(ms / 1000, tz=timezone.utc)` for an integer `ms`: the
quotient is the double nearest to it. -/
def fromMillis (ms : Int) : Except Exn Int := fromTimestamp (Binary64.round ((ms : ℚ) / 1000))

/-- `_nanos_to_dt`: whole microseconds, rounded down. -/
def nanosToDt (unixNanos : Int) : Except Exn Int := instant (unixNanos / 1000)

/-! ## How far a millisecond moves -/

/-- The microseconds by which the double arithmetic displaces the instant `ms`
milliseconds after 1970. -/
def millisDrift (ms : Int) : ℤ := timestampMicros (Binary64.round ((ms : ℚ) / 1000)) - 1000 * ms

theorem abs_sub_truncate_lt (q : ℚ) : |q - truncate q| < 1 := by
  unfold truncate
  split
  · have hlo := Int.floor_le q
    have hhi := Int.lt_floor_add_one q
    rw [abs_lt]; constructor <;> linarith
  · have hlo := Int.le_ceil q
    have hhi := Int.ceil_lt_add_one q
    rw [abs_lt]; constructor <;> linarith

/-- Below `2 ^ 33` seconds a whole millisecond is read back exactly: the quotient is
off by at most `2 ^ (-21)` seconds, which is less than half a microsecond, and the
scaled fraction by at most `2 ^ (-34)` microseconds more. -/
theorem timestampMicros_millis {ms : Int} (h : |ms| < 2 ^ 33 * 1000) :
    timestampMicros (Binary64.round ((ms : ℚ) / 1000)) = 1000 * ms := by
  set t := Binary64.round ((ms : ℚ) / 1000) with ht
  set frac := (t - truncate t) * 1000000 with hfrac
  have hms : |((ms : ℚ) / 1000)| < 2 ^ (33 : ℤ) := by
    have hcast : ((|ms| : ℤ) : ℚ) < 2 ^ 33 * 1000 := by exact_mod_cast h
    rw [abs_div, abs_of_pos (by norm_num : (0 : ℚ) < 1000), div_lt_iff₀ (by norm_num)]
    push_cast at hcast
    exact_mod_cast hcast
  have hquot : |t - (ms : ℚ) / 1000| ≤ 2 ^ (33 - 54 : ℤ) :=
    Binary64.abs_round_sub_le hms (by norm_num)
  have hsmall : |frac| < 2 ^ (20 : ℤ) := by
    rw [hfrac, abs_mul, abs_of_pos (by norm_num : (0 : ℚ) < 1000000)]
    have := abs_sub_truncate_lt t
    norm_num
    linarith
  have hscale : |Binary64.round frac - frac| ≤ 2 ^ (20 - 54 : ℤ) :=
    Binary64.abs_round_sub_le hsmall (by norm_num)
  have hnear : |Binary64.round frac - ((1000 * ms - truncate t * 1000000 : ℤ) : ℚ)| < 1 / 2 := by
    have hsplit : Binary64.round frac - ((1000 * ms - truncate t * 1000000 : ℤ) : ℚ) =
        (Binary64.round frac - frac) + (t - (ms : ℚ) / 1000) * 1000000 := by
      push_cast
      rw [hfrac]
      ring
    have hscaled : |(t - (ms : ℚ) / 1000) * 1000000| ≤ 2 ^ (33 - 54 : ℤ) * 1000000 := by
      rw [abs_mul, abs_of_pos (by norm_num : (0 : ℚ) < 1000000)]
      exact mul_le_mul_of_nonneg_right hquot (by norm_num)
    rw [hsplit]
    refine lt_of_le_of_lt (abs_add_le _ _) ?_
    norm_num at hscale hscaled ⊢
    linarith
  rw [timestampMicros, ← hfrac, roundHalfEven_eq hnear]
  ring

theorem millisDrift_eq_zero {ms : Int} (h : |ms| < 2 ^ 33 * 1000) : millisDrift ms = 0 := by
  rw [millisDrift, timestampMicros_millis h, sub_self]

end Eds
