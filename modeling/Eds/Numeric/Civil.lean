import Eds.Numeric.Calendar
import Mathlib.Data.List.GetD
import Mathlib.Data.Nat.Find

/-!
# Dates of instants

`ofSeconds` is the date of a number of seconds since the year 0 began (`ofSeconds_spec`).  Dates
are in the order of their digits (`Moment.Valid.seconds_lt_iff`).
-/

namespace Eds
namespace Numeric
namespace Calendar

/-! ## Months -/

theorem sum_take_add_getD_le_take (l : List Nat) {i j : Nat} (h : i < j) :
    (l.take i).sum + l.getD i 0 ≤ (l.take j).sum := by
  induction l generalizing i j with
  | nil => simp
  | cons a l ih =>
    cases j with
    | zero => exact absurd h (Nat.not_lt_zero i)
    | succ j =>
      cases i with
      | zero => simp
      | succ i =>
        rw [List.take_succ_cons, List.take_succ_cons, List.sum_cons, List.sum_cons,
          List.getD_cons_succ]
        have hrest := ih (Nat.lt_of_succ_lt_succ h)
        omega

/-- A later month begins behind an earlier one. -/
theorem daysBeforeMonth_add_le_of_lt (year : Nat) {month later : Nat} (hmonth : 1 ≤ month)
    (h : month < later) :
    daysBeforeMonth year month + monthLength year month ≤ daysBeforeMonth year later :=
  sum_take_add_getD_le_take (monthLengths year) (by omega)

/-- The interval that a number is in, and the distance from its beginning. -/
def locate : List Nat → Nat → Nat × Nat
  | [], n => (0, n)
  | length :: lengths, n =>
    if n < length then (0, n)
    else ((locate lengths (n - length)).1 + 1, (locate lengths (n - length)).2)

theorem locate_spec {lengths : List Nat} {n : Nat} (h : n < lengths.sum) :
    (locate lengths n).1 < lengths.length ∧ (locate lengths n).2 < lengths.getD (locate lengths n).1 0 ∧
      (lengths.take (locate lengths n).1).sum + (locate lengths n).2 = n := by
  induction lengths generalizing n with
  | nil => exact absurd h (Nat.not_lt_zero n)
  | cons length lengths ih =>
    rw [locate]
    by_cases hn : n < length
    · rw [if_pos hn]
      exact ⟨Nat.succ_pos _, hn, Nat.zero_add n⟩
    · rw [if_neg hn]
      rw [List.sum_cons] at h
      obtain ⟨hindex, hoffset, hsum⟩ := ih (by omega : n - length < lengths.sum)
      refine ⟨Nat.succ_lt_succ hindex, by rwa [List.getD_cons_succ], ?_⟩
      rw [List.take_succ_cons, List.sum_cons]
      omega

/-! ## Years -/

theorem le_daysBeforeYear (year : Nat) : year ≤ daysBeforeYear year := by
  induction year with
  | zero => exact Nat.zero_le _
  | succ year ih =>
    have hlength := two_le_yearLength year
    rw [daysBeforeYear]
    omega

def yearOf (days : Nat) : Nat := Nat.findGreatest (fun year => daysBeforeYear year ≤ days) days

theorem yearOf_spec (days : Nat) :
    daysBeforeYear (yearOf days) ≤ days ∧
      days < daysBeforeYear (yearOf days) + yearLength (yearOf days) := by
  have hzero : daysBeforeYear 0 ≤ days := Nat.zero_le days
  refine ⟨Nat.findGreatest_spec (P := fun year => daysBeforeYear year ≤ days) (Nat.zero_le days)
    hzero, ?_⟩
  by_contra hge
  have hnext : daysBeforeYear (yearOf days + 1) ≤ days := by
    rw [daysBeforeYear]
    omega
  have hbound := (le_daysBeforeYear (yearOf days + 1)).trans hnext
  exact Nat.findGreatest_is_greatest (Nat.lt_succ_self (yearOf days)) hbound hnext

/-! ## Dates -/

def ofSeconds (n : Nat) : Moment where
  year := yearOf (n / 86400)
  month := (locate (monthLengths (yearOf (n / 86400)))
    (n / 86400 - daysBeforeYear (yearOf (n / 86400)))).1 + 1
  day := (locate (monthLengths (yearOf (n / 86400)))
    (n / 86400 - daysBeforeYear (yearOf (n / 86400)))).2 + 1
  hour := n % 86400 / 3600
  minute := n % 3600 / 60
  second := n % 60
  fraction := 0

theorem ofSeconds_spec (n : Nat) : (ofSeconds n).Valid ∧ (ofSeconds n).seconds = n := by
  obtain ⟨hfrom, hto⟩ := yearOf_spec (n / 86400)
  have hinside : n / 86400 - daysBeforeYear (yearOf (n / 86400)) <
      (monthLengths (yearOf (n / 86400))).sum := by
    rw [yearLength] at hto
    omega
  obtain ⟨hindex, hoffset, hsum⟩ := locate_spec hinside
  have hlength : (monthLengths (yearOf (n / 86400))).length = 12 := rfl
  rw [hlength] at hindex
  refine ⟨⟨⟨Nat.succ_pos _, hindex⟩, ⟨Nat.succ_pos _, hoffset⟩, ?_, ?_, ?_, ?_⟩, ?_⟩
  · show n % 86400 / 3600 < 24
    omega
  · show n % 3600 / 60 < 60
    omega
  · show n % 60 < 60
    omega
  · exact ⟨le_rfl, one_pos⟩
  · have hday : (ofSeconds n).yearDay = n / 86400 - daysBeforeYear (yearOf (n / 86400)) := hsum
    rw [Moment.seconds, Moment.yearSecond, hday, yearStart]
    show 86400 * daysBeforeYear (yearOf (n / 86400)) +
      ((((n / 86400 - daysBeforeYear (yearOf (n / 86400))) * 24 + n % 86400 / 3600) * 60 +
        n % 3600 / 60) * 60 + n % 60) = n
    omega

namespace Moment

variable {m m' : Moment}

/-- The digits of the date and the time, two for each part behind the year. -/
def stampNumber (m : Moment) : Nat :=
  ((((m.year * 100 + m.month) * 100 + m.day) * 100 + m.hour) * 100 + m.minute) * 100 + m.second

theorem monthLength_le (year month : Nat) : monthLength year month ≤ 31 := by
  have hall : ∀ length ∈ monthLengths year, length ≤ 31 := by
    intro length hlength
    unfold monthLengths at hlength
    split at hlength <;> simp at hlength <;> omega
  rw [monthLength]
  rcases Nat.lt_or_ge (month - 1) (monthLengths year).length with hlt | hge
  · rw [List.getD_eq_getElem _ _ hlt]
    exact hall _ (List.getElem_mem hlt)
  · rw [List.getD_eq_default _ _ hge]
    exact Nat.zero_le 31

theorem Valid.day_le (h : m.Valid) : m.day ≤ 31 := h.day.2.trans (monthLength_le _ _)

theorem Valid.seconds_lt_of_stampNumber_lt (h : m.Valid) (h' : m'.Valid)
    (hlt : m.stampNumber < m'.stampNumber) : m.seconds < m'.seconds := by
  have hday := h.day_le
  have hday' := h'.day_le
  obtain ⟨⟨hmonth, hmonth₁⟩, ⟨hdays, hdays₁⟩, hhour, hminute, hsecond, -⟩ := h
  obtain ⟨⟨hmonth', hmonth₁'⟩, ⟨hdays', hdays₁'⟩, hhour', hminute', hsecond', -⟩ := h'
  rw [stampNumber, stampNumber] at hlt
  rcases Nat.lt_trichotomy m.year m'.year with hyear | hyear | hyear
  · have hbefore := daysBeforeYear_add_le hyear
    have hmonths := daysBeforeMonth_add_le m.year m.month
    rw [seconds, seconds, yearStart, yearStart, yearSecond, yearSecond, yearDay, yearDay]
    omega
  · rcases Nat.lt_trichotomy m.month m'.month with hm | hm | hm
    · have hbefore := daysBeforeMonth_add_le_of_lt m.year hmonth hm
      rw [seconds, seconds, yearSecond, yearSecond, yearDay, yearDay, ← hyear]
      omega
    · rw [seconds, seconds, yearSecond, yearSecond, yearDay, yearDay, ← hyear, ← hm]
      omega
    · omega
  · omega

theorem Valid.stampNumber_eq (h : m.Valid) (h' : m'.Valid) (hsame : m.stampNumber = m'.stampNumber) :
    m.seconds = m'.seconds := by
  have hday := h.day_le
  have hday' := h'.day_le
  obtain ⟨⟨-, hmonth⟩, -, hhour, hminute, hsecond, -⟩ := h
  obtain ⟨⟨-, hmonth'⟩, -, hhour', hminute', hsecond', -⟩ := h'
  rw [stampNumber, stampNumber] at hsame
  have hyears : m.year = m'.year := by omega
  have hmonths : m.month = m'.month := by omega
  rw [seconds, seconds, yearSecond, yearSecond, yearDay, yearDay, hyears, hmonths]
  omega

theorem Valid.seconds_lt_iff (h : m.Valid) (h' : m'.Valid) :
    m.seconds < m'.seconds ↔ m.stampNumber < m'.stampNumber := by
  refine ⟨fun hlt => ?_, h.seconds_lt_of_stampNumber_lt h'⟩
  rcases Nat.lt_trichotomy m.stampNumber m'.stampNumber with hless | hsame | hmore
  · exact hless
  · exact absurd (h.stampNumber_eq h' hsame) (Nat.ne_of_lt hlt)
  · exact absurd (h'.seconds_lt_of_stampNumber_lt h hmore) (Nat.lt_asymm hlt)

end Moment

/-! ## The year of an instant -/

theorem yearStart_lt {year later : Nat} (h : year < later) : yearStart year < yearStart later := by
  have hbefore := daysBeforeYear_add_le h
  have hlength := two_le_yearLength year
  rw [yearStart, yearStart]
  omega

theorem year_ofSeconds_lt_iff {n year : Nat} : (ofSeconds n).year < year ↔ n < yearStart year := by
  obtain ⟨hvalid, hseconds⟩ := ofSeconds_spec n
  constructor
  · intro h
    have hbefore := hvalid.seconds_lt h
    rwa [hseconds] at hbefore
  · intro h
    by_contra hge
    rw [Moment.seconds] at hseconds
    rcases Nat.eq_or_lt_of_le (Nat.le_of_not_lt hge) with hsame | hlt
    · rw [hsame] at h
      omega
    · have hmono := yearStart_lt hlt
      omega

end Calendar
end Numeric
end Eds
