import Mathlib.Data.Rat.Floor
import Mathlib.Tactic.Linarith
import Mathlib.Tactic.NormNum
import Mathlib.Tactic.Ring

/-!
# The Gregorian calendar

The calendar is extended to all years from 0 on.  A `Moment` is a date with a time of day, to
the fraction of a second, and its instant is the number of seconds since the year 0 began.

`Moment.Valid.lt_yearStart` orders the moments by their years, and
`Moment.Valid.le_toMicros_iff` says which moments are a second into a year once they are cut
to microseconds.
-/

namespace Eds
namespace Numeric
namespace Calendar

/-! ## Years and months -/

def isLeap (year : Nat) : Bool := year % 4 == 0 && (year % 100 != 0 || year % 400 == 0)

def monthLengths (year : Nat) : List Nat :=
  [31, if isLeap year then 29 else 28, 31, 30, 31, 30, 31, 31, 30, 31, 30, 31]

/-- The months are counted from 1. -/
def monthLength (year month : Nat) : Nat := (monthLengths year).getD (month - 1) 0

def daysBeforeMonth (year month : Nat) : Nat := ((monthLengths year).take (month - 1)).sum

def yearLength (year : Nat) : Nat := (monthLengths year).sum

def daysBeforeYear : Nat → Nat
  | 0 => 0
  | year + 1 => daysBeforeYear year + yearLength year

theorem two_le_yearLength (year : Nat) : 2 ≤ yearLength year := by
  simp only [yearLength, monthLengths, List.sum_cons]
  omega

theorem sum_take_add_getD_le (l : List Nat) (n : Nat) : (l.take n).sum + l.getD n 0 ≤ l.sum := by
  induction l generalizing n with
  | nil => simp
  | cons a l ih =>
    cases n with
    | zero => simp
    | succ n =>
      rw [List.take_succ_cons, List.sum_cons, List.sum_cons, List.getD_cons_succ]
      have hrest := ih n
      omega

theorem daysBeforeMonth_add_le (year month : Nat) :
    daysBeforeMonth year month + monthLength year month ≤ yearLength year :=
  sum_take_add_getD_le (monthLengths year) (month - 1)

/-- Only the first month has no days before it. -/
theorem daysBeforeMonth_eq_zero {year month : Nat} (h : 1 ≤ month) :
    daysBeforeMonth year month = 0 ↔ month = 1 := by
  constructor
  · intro hzero
    by_contra hne
    obtain ⟨n, rfl⟩ : ∃ n, month = n + 2 := ⟨month - 2, by omega⟩
    have hindex : n + 2 - 1 = n + 1 := rfl
    rw [daysBeforeMonth, hindex, monthLengths, List.take_succ_cons, List.sum_cons] at hzero
    omega
  · rintro rfl
    rfl

theorem daysBeforeYear_add_le {year later : Nat} (h : year < later) :
    daysBeforeYear year + yearLength year ≤ daysBeforeYear later := by
  induction later with
  | zero => exact absurd h (Nat.not_lt_zero year)
  | succ later ih =>
    rw [daysBeforeYear]
    rcases Nat.lt_succ_iff_lt_or_eq.mp h with hlt | heq
    · have hbefore := ih hlt
      omega
    · rw [heq]

/-! ## Moments -/

structure Moment where
  year : Nat
  month : Nat
  day : Nat
  hour : Nat
  minute : Nat
  second : Nat
  fraction : ℚ

structure Moment.Valid (m : Moment) : Prop where
  month : 1 ≤ m.month ∧ m.month ≤ 12
  day : 1 ≤ m.day ∧ m.day ≤ monthLength m.year m.month
  hour : m.hour < 24
  minute : m.minute < 60
  second : m.second < 60
  fraction : 0 ≤ m.fraction ∧ m.fraction < 1

/-- The seconds of the years before. -/
def yearStart (year : Nat) : Nat := 86400 * daysBeforeYear year

namespace Moment

/-- The days since the year began. -/
def yearDay (m : Moment) : Nat := daysBeforeMonth m.year m.month + (m.day - 1)

/-- The seconds since the year began. -/
def yearSecond (m : Moment) : Nat := ((m.yearDay * 24 + m.hour) * 60 + m.minute) * 60 + m.second

def seconds (m : Moment) : Nat := yearStart m.year + m.yearSecond

def instant (m : Moment) : ℚ := m.seconds + m.fraction

/-- The year is in its first second. -/
structure InFirstSecond (m : Moment) : Prop where
  month : m.month = 1
  day : m.day = 1
  hour : m.hour = 0
  minute : m.minute = 0
  second : m.second = 0

variable {m : Moment} {year : Nat}

theorem Valid.yearDay_lt (h : m.Valid) : m.yearDay < yearLength m.year := by
  have hle := daysBeforeMonth_add_le m.year m.month
  have hday := h.day
  rw [yearDay]
  omega

theorem Valid.seconds_lt (h : m.Valid) (hyear : m.year < year) : m.seconds < yearStart year := by
  have hday := h.yearDay_lt
  have hbefore := daysBeforeYear_add_le hyear
  have hhour := h.hour
  have hminute := h.minute
  have hsecond := h.second
  rw [seconds, yearSecond, yearStart, yearStart]
  omega

theorem Valid.yearSecond_eq_zero (h : m.Valid) : m.yearSecond = 0 ↔ m.InFirstSecond := by
  have hday := h.day.1
  constructor
  · intro hzero
    rw [yearSecond, yearDay] at hzero
    have hmonth : daysBeforeMonth m.year m.month = 0 := by omega
    exact ⟨(daysBeforeMonth_eq_zero h.month.1).mp hmonth, by omega, by omega, by omega, by omega⟩
  · intro hfirst
    have hmonth : daysBeforeMonth m.year m.month = 0 :=
      (daysBeforeMonth_eq_zero h.month.1).mpr hfirst.month
    rw [yearSecond, yearDay, hmonth, hfirst.day, hfirst.hour, hfirst.minute, hfirst.second]

/-- From a year on, the seconds are those of its beginning only in its first second. -/
theorem Valid.seconds_le_iff (h : m.Valid) (hyear : year ≤ m.year) :
    m.seconds ≤ yearStart year ↔ m.year = year ∧ m.InFirstSecond := by
  rw [← h.yearSecond_eq_zero, seconds]
  constructor
  · intro hle
    rcases Nat.lt_or_eq_of_le hyear with hlt | rfl
    · have hbefore := daysBeforeYear_add_le hlt
      have hlength := two_le_yearLength year
      rw [yearStart, yearStart] at hle
      omega
    · exact ⟨rfl, by omega⟩
  · rintro ⟨rfl, hzero⟩
    omega

end Moment

/-! ## Microseconds -/

/-- Seconds, cut to microseconds. -/
def toMicros (q : ℚ) : ℚ := ⌊q * 1000000⌋ / 1000000

theorem toMicros_natCast_add (n : Nat) (q : ℚ) : toMicros (n + q) = n + toMicros q := by
  have hsplit : ((n : ℚ) + q) * 1000000 = ((n * 1000000 : ℕ) : ℚ) + q * 1000000 := by
    push_cast
    ring
  rw [toMicros, hsplit, Int.floor_natCast_add, toMicros]
  push_cast
  ring

theorem toMicros_nonneg {q : ℚ} (h : 0 ≤ q) : 0 ≤ toMicros q := by
  have hfloor : 0 ≤ ⌊q * 1000000⌋ := Int.floor_nonneg.mpr (by linarith)
  have hcast : (0 : ℚ) ≤ ⌊q * 1000000⌋ := by exact_mod_cast hfloor
  rw [toMicros]
  linarith

theorem toMicros_le (q : ℚ) : toMicros q ≤ q := by
  have hfloor := Int.floor_le (q * 1000000)
  rw [toMicros]
  linarith

theorem Moment.toMicros_instant (m : Moment) :
    toMicros m.instant = m.seconds + toMicros m.fraction := toMicros_natCast_add m.seconds m.fraction

/-- A moment of a year is before the next one begins. -/
theorem Moment.Valid.lt_yearStart {m : Moment} {year : Nat} (h : m.Valid) (hyear : m.year < year) :
    m.instant < yearStart year := by
  have hlt : ((m.seconds + 1 : ℕ) : ℚ) ≤ yearStart year := by exact_mod_cast h.seconds_lt hyear
  have hfraction := h.fraction.2
  push_cast at hlt
  rw [instant]
  linarith

/-- From a year on, a moment is a second into that year unless it is in its first second. -/
theorem Moment.Valid.le_toMicros_iff {m : Moment} {year : Nat} (h : m.Valid)
    (hyear : year ≤ m.year) :
    (yearStart year : ℚ) + 1 ≤ toMicros m.instant ↔ ¬ (m.year = year ∧ m.InFirstSecond) := by
  rw [← h.seconds_le_iff hyear, m.toMicros_instant, Nat.not_le]
  have hnonneg := toMicros_nonneg h.fraction.1
  have hcut := toMicros_le m.fraction
  have hfraction := h.fraction.2
  constructor
  · intro hle
    have hlt : ((yearStart year : ℕ) : ℚ) < m.seconds := by linarith
    exact_mod_cast hlt
  · intro hlt
    have hle : ((yearStart year + 1 : ℕ) : ℚ) ≤ m.seconds := by exact_mod_cast hlt
    push_cast at hle
    linarith

end Calendar
end Numeric
end Eds
