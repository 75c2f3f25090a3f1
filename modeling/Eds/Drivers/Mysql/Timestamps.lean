import Eds.Drivers.Digits
import Eds.Drivers.Mysql.Sql
import Eds.Numeric.Calendar
import Eds.Util.Numbers
import Mathlib.Tactic.IntervalCases

/-!
# MySQL timestamps

A string that looks like a timestamp is checked, cut to microseconds and raised to the first
instant of a MySQL `TIMESTAMP`, the second one of 1970.  The years before 1970 are raised; the
first second of 1970 is not (`quoteValue_exact_iff`).
-/

namespace Eds
namespace Drivers

open Util Numeric.Calendar

/-! ## Digits behind a point -/

/-- The digits behind a point, as a fraction. -/
def fractionValue (ds : List Char) : ℚ := readNat ds / 10 ^ ds.length

theorem fractionValue_bounds {ds : List Char} (h : isDigits ds = true) :
    0 ≤ fractionValue ds ∧ fractionValue ds < 1 := by
  have hlt : ((readNat ds : ℕ) : ℚ) < 10 ^ ds.length := by exact_mod_cast readNat_lt h
  exact ⟨by unfold fractionValue; positivity, (div_lt_one (by positivity)).mpr hlt⟩

theorem fractionValue_append (a : List Char) {b : List Char} (hb : isDigits b = true) :
    fractionValue (a ++ b) = fractionValue a + fractionValue b / 10 ^ a.length := by
  rw [fractionValue, readNat_append a hb, List.length_append, fractionValue, fractionValue]
  push_cast
  rw [pow_add]
  field_simp

theorem fractionValue_append_zeros (a : List Char) {zs : List Char} (hzs : ∀ c ∈ zs, c = '0') :
    fractionValue (a ++ zs) = fractionValue a := by
  have hdigits : isDigits zs = true := List.all_eq_true.mpr fun c hc => by
    rw [hzs c hc]
    rfl
  have hzero : readNat zs = 0 := by
    rw [List.eq_replicate_of_mem hzs, readNat]
    induction zs.length with
    | zero => rfl
    | succ n ih =>
      rw [List.replicate_succ, List.filterMap_cons]
      exact ih
  have hnone : fractionValue zs = 0 := by rw [fractionValue, hzero, Nat.cast_zero, zero_div]
  rw [fractionValue_append a hdigits, hnone, zero_div, add_zero]

/-- Cutting a fraction to microseconds keeps its first six digits. -/
theorem toMicros_fractionValue {ds : List Char} (h : isDigits ds = true) :
    toMicros (fractionValue ds) =
      fractionValue ((ds ++ ['0', '0', '0', '0', '0', '0']).take 6) := by
  have hzeros : ∀ c ∈ ['0', '0', '0', '0', '0', '0'], c = '0' := by simp
  have hpadded : isDigits (ds ++ ['0', '0', '0', '0', '0', '0']) = true := isDigits_append h rfl
  rw [← fractionValue_append_zeros ds hzeros]
  generalize hp : ds ++ ['0', '0', '0', '0', '0', '0'] = padded at hpadded
  have hlength : (padded.take 6).length = 6 := by
    rw [List.length_take, ← hp, List.length_append]
    simp
  have hrest : isDigits (padded.drop 6) = true := List.all_eq_true.mpr fun c hc =>
    List.all_eq_true.mp hpadded c (List.mem_of_mem_drop hc)
  obtain ⟨hnonneg, hlt⟩ := fractionValue_bounds hrest
  have hsplit : fractionValue padded * 1000000 =
      (readNat (padded.take 6) : ℚ) + fractionValue (padded.drop 6) := by
    conv_lhs => rw [← List.take_append_drop 6 padded]
    rw [fractionValue_append _ hrest, fractionValue, hlength]
    ring
  have hfloor : ⌊fractionValue (padded.drop 6)⌋ = 0 := Int.floor_eq_zero_iff.mpr ⟨hnonneg, hlt⟩
  rw [toMicros, hsplit, Int.floor_natCast_add, hfloor, fractionValue, hlength]
  norm_num

/-! ## What a string denotes -/

/-- The date-time of the parts, with the digits of the tail as its fraction. -/
def Stamp.moment (t : Stamp) : Moment where
  year := readNat t.year
  month := readNat t.month
  day := readNat t.day
  hour := readNat t.hour
  minute := readNat t.minute
  second := readNat t.second
  fraction := fractionValue (t.tail.drop 1)

/-- A date-time in UTC, with a fraction behind a point or none. -/
structure Stamp.Valid (t : Stamp) : Prop where
  moment : t.moment.Valid
  tail : t.tail = [] ∨ t.tail.head? = some '.'

theorem daysIn_eq_monthLength {year month : Nat} (h : 1 ≤ month ∧ month ≤ 12) :
    daysIn year month = monthLength year month := by
  have hleap : (year % 4 = 0 ∧ (year % 100 ≠ 0 ∨ year % 400 = 0)) ↔ isLeap year = true := by
    simp [isLeap]
  obtain ⟨hlow, hhigh⟩ := h
  simp only [daysIn, hleap]
  interval_cases month <;> rfl

theorem daysIn_le (year month : Nat) : daysIn year month ≤ 31 := by
  unfold daysIn
  split
  · split <;> omega
  · split <;> omega

/-- The year 2000 stands for the year 0. -/
theorem daysIn_placeholder (month : Nat) : daysIn 2000 month = daysIn 0 month := rfl

theorem Stamp.check_ok_iff {t : Stamp} {year : Nat} :
    t.check year = .ok () ↔
      (1 ≤ readNat t.month ∧ readNat t.month ≤ 12) ∧
        (1 ≤ readNat t.day ∧ readNat t.day ≤ daysIn year (readNat t.month)) ∧
        readNat t.hour < 24 ∧ readNat t.minute < 60 ∧ readNat t.second < 60 ∧
        (t.tail = [] ∨ t.tail.head? = some '.') := by
  have htail : (!(t.tail.head? == some '.') && !t.tail.isEmpty) = false ↔
      (t.tail = [] ∨ t.tail.head? = some '.') := by
    cases t.tail with
    | nil => simp
    | cons c ds => simp
  have hdays := daysIn_le year (readNat t.month)
  rw [← htail]
  unfold check
  dsimp only
  split
  · exact iff_of_false (fun h => by cases h) (by omega)
  · split
    · exact iff_of_false (fun h => by cases h) (by omega)
    · split
      · next hunread =>
        refine iff_of_false (fun h => by cases h) fun h => ?_
        rw [h.2.2.2.2.2] at hunread
        cases hunread
      · next hread =>
        rw [Bool.not_eq_true] at hread
        split
        · exact iff_of_false (fun h => by cases h) (by omega)
        · split
          · exact iff_of_false (fun h => by cases h) (by omega)
          · exact iff_of_true rfl ⟨by omega, by omega, by omega, by omega, by omega, hread⟩

/-! ## What is printed for it -/

/-- The text between the quotes. -/
def Stamp.printed (t : Stamp) : List Char :=
  t.year ++ ['-'] ++ t.month ++ ['-'] ++ t.day ++ [' '] ++ t.hour ++ [':'] ++ t.minute ++ [':'] ++
    t.second ++ t.fractionText.toList

section Looks

variable {v : String} {t : Stamp}

theorem isDigits_tail (h : stamp? v = some t) : isDigits (t.tail.drop 1) = true := by
  have hdigits := stamp?_digits h
  rw [Stamp.digits, isDigits, List.all_append, Bool.and_eq_true] at hdigits
  exact hdigits.2

/-- The check that the code makes, on the year that it makes it on. -/
theorem Stamp.checked_iff (h : stamp? v = some t) :
    (if readNat t.year < 1 then { t with year := ['2', '0', '0', '0'] } else t).check
        (if readNat t.year < 1 then 2000 else readNat t.year) = .ok () ↔ t.Valid := by
  have hdays : ∀ month, 1 ≤ month ∧ month ≤ 12 →
      daysIn (if readNat t.year < 1 then 2000 else readNat t.year) month =
        monthLength (readNat t.year) month := by
    intro month hmonth
    rw [← daysIn_eq_monthLength hmonth]
    split
    · next hyear =>
      have hzero : readNat t.year = 0 := by omega
      rw [hzero, daysIn_placeholder]
    · rfl
  have hsame : ∀ year, (if readNat t.year < 1 then { t with year := ['2', '0', '0', '0'] }
      else t).check year = .ok () ↔ t.check year = .ok () := by
    intro year
    split
    · rw [check_ok_iff, check_ok_iff]
    · rfl
  rw [hsame, check_ok_iff]
  constructor
  · rintro ⟨hmonth, hday, hhour, hminute, hsecond, htail⟩
    rw [hdays _ hmonth] at hday
    exact ⟨⟨hmonth, hday, hhour, hminute, hsecond, fractionValue_bounds (isDigits_tail h)⟩, htail⟩
  · intro hvalid
    obtain ⟨hmonth, hday, hhour, hminute, hsecond, -⟩ := hvalid.moment
    refine ⟨hmonth, ?_, hhour, hminute, hsecond, hvalid.tail⟩
    rw [hdays (readNat t.month) hmonth]
    exact hday

theorem quoteStringValue_error (escape : String → String) (h : stamp? v = some t)
    (hvalid : ¬ t.Valid) : ∃ e, quoteStringValue escape v = .error e := by
  rw [← Stamp.checked_iff h] at hvalid
  rw [quoteStringValue, h]
  dsimp only
  split
  · exact ⟨_, rfl⟩
  · next hok => exact absurd hok hvalid

theorem quoteStringValue_ok (escape : String → String) (h : stamp? v = some t) (hvalid : t.Valid) :
    quoteStringValue escape v =
      .ok ("'" ++ String.ofList (if readNat t.year < 1970 then "1970-01-01 00:00:01".toList
        else t.printed) ++ "'") := by
  rw [← Stamp.checked_iff h] at hvalid
  rw [quoteStringValue, h]
  dsimp only
  rw [hvalid]
  dsimp only
  split
  · rfl
  · simp only [Stamp.printed, String.ofList_append, String.ofList_toList, String.append_assoc]

/-! ## What a server reads -/

/-- A date-time literal: behind a point it has one digit at least, and six at most. -/
def readMoment (s : List Char) : Option Moment :=
  match s with
  | y₁ :: y₂ :: y₃ :: y₄ :: '-' :: m₁ :: m₂ :: '-' :: d₁ :: d₂ :: ' ' :: h₁ :: h₂ :: ':' ::
      n₁ :: n₂ :: ':' :: s₁ :: s₂ :: rest =>
    let t : Stamp := ⟨[y₁, y₂, y₃, y₄], [m₁, m₂], [d₁, d₂], [h₁, h₂], [n₁, n₂], [s₁, s₂], rest⟩
    if isDigits t.digits = true ∧
        (rest = [] ∨ rest.head? = some '.' ∧ 2 ≤ rest.length ∧ rest.length ≤ 7) then some t.moment
    else none
  | _ => none

theorem fractionText_eq (t : Stamp) :
    t.fractionText.toList =
      if (((t.tail.drop 1 ++ ['0', '0', '0', '0', '0', '0']).take 6).reverse.dropWhile
          (· = '0')).reverse = [] then []
      else '.' :: (((t.tail.drop 1 ++ ['0', '0', '0', '0', '0', '0']).take 6).reverse.dropWhile
        (· = '0')).reverse := by
  unfold Stamp.fractionText
  split
  · next hnil => rw [if_pos hnil, String.toList_empty]
  · next hne =>
    rw [if_neg hne, String.toList_append, String.toList_ofList, String.toList_ofList]
    rfl

/-- The digits behind the point are those of the microseconds. -/
theorem fractionText_spec (h : stamp? v = some t) :
    isDigits (t.fractionText.toList.drop 1) = true ∧
      (t.fractionText.toList = [] ∨ t.fractionText.toList.head? = some '.' ∧
        2 ≤ t.fractionText.toList.length ∧ t.fractionText.toList.length ≤ 7) ∧
      fractionValue (t.fractionText.toList.drop 1) = toMicros t.moment.fraction := by
  have htail := isDigits_tail h
  have hmicros := toMicros_fractionValue htail
  generalize hp : (t.tail.drop 1 ++ ['0', '0', '0', '0', '0', '0']).take 6 = padded at hmicros
  have hpadded : isDigits padded = true := by
    have hall : isDigits (t.tail.drop 1 ++ ['0', '0', '0', '0', '0', '0']) = true :=
      isDigits_append htail rfl
    rw [← hp]
    exact List.all_eq_true.mpr fun c hc => List.all_eq_true.mp hall c (List.mem_of_mem_take hc)
  have hlength : padded.length ≤ 6 := by
    rw [← hp, List.length_take]
    exact Nat.min_le_left 6 _
  -- The zeros at the end are cut off.
  have hsplit : padded = (padded.reverse.dropWhile (· = '0')).reverse ++
      (padded.reverse.takeWhile (· = '0')).reverse := by
    rw [← List.reverse_append, List.takeWhile_append_dropWhile, List.reverse_reverse]
  have hzeros : ∀ c ∈ (padded.reverse.takeWhile (· = '0')).reverse, c = '0' := fun c hc =>
    of_decide_eq_true (List.all_eq_true.mp List.all_takeWhile c (List.mem_reverse.mp hc))
  have htext := fractionText_eq t
  rw [hp] at htext
  have hvalue := fractionValue_append_zeros (padded.reverse.dropWhile (· = '0')).reverse hzeros
  rw [← hsplit] at hvalue
  have hfront : (padded.reverse.dropWhile (· = '0')).reverse <+: padded :=
    ⟨_, hsplit.symm⟩
  generalize (padded.reverse.dropWhile (· = '0')).reverse = ds at *
  have hmoment : toMicros t.moment.fraction = fractionValue ds := hmicros.trans hvalue
  rw [hmoment, htext]
  split
  · next hnil =>
    rw [hnil]
    exact ⟨rfl, Or.inl rfl, rfl⟩
  · next hne =>
    have hle := hfront.length_le
    have hpos := List.length_pos_iff.mpr hne
    refine ⟨?_, Or.inr ⟨rfl, ?_, ?_⟩, rfl⟩
    · exact List.all_eq_true.mpr fun d hd => List.all_eq_true.mp hpadded d (hfront.subset hd)
    · rw [List.length_cons]
      omega
    · rw [List.length_cons]
      omega

theorem stamp?_parts (h : stamp? v = some t) :
    ∃ y₁ y₂ y₃ y₄ m₁ m₂ d₁ d₂ h₁ h₂ n₁ n₂ s₁ s₂ tail, t =
      ⟨[y₁, y₂, y₃, y₄], [m₁, m₂], [d₁, d₂], [h₁, h₂], [n₁, n₂], [s₁, s₂], tail⟩ := by
  unfold stamp? at h
  split at h
  · rw [Option.ite_none_right_eq_some] at h
    exact ⟨_, _, _, _, _, _, _, _, _, _, _, _, _, _, _, (Option.some.inj h.2).symm⟩
  · cases h

/-- What is printed is read as the moment, cut to microseconds. -/
theorem readMoment_printed (h : stamp? v = some t) :
    readMoment t.printed = some { t.moment with fraction := toMicros t.moment.fraction } := by
  obtain ⟨hfraction, hshape, hvalue⟩ := fractionText_spec h
  have hdigits := stamp?_digits h
  rw [Stamp.digits, isDigits, List.all_append, Bool.and_eq_true] at hdigits
  rw [← hvalue, Stamp.printed]
  generalize t.fractionText.toList = rest at *
  obtain ⟨y₁, y₂, y₃, y₄, m₁, m₂, d₁, d₂, h₁, h₂, n₁, n₂, s₁, s₂, tail, rfl⟩ := stamp?_parts h
  exact if_pos ⟨isDigits_append hdigits.1 hfraction, hshape⟩

end Looks

/-- The string is for the first second of 1970. -/
def Stamp.AtEpoch (t : Stamp) : Prop :=
  t.moment.year = 1970 ∧ t.moment.InFirstSecond ∧ (t.tail = [] ∨ t.tail.head? = some '.')

/-! ## The coercion -/

namespace Mysql

/-- The first instant of a `TIMESTAMP`. -/
def firstTimestamp : Moment := ⟨1970, 1, 1, 0, 0, 1, 0⟩

theorem instant_firstTimestamp : firstTimestamp.instant = yearStart 1970 + 1 := by
  have hyear : firstTimestamp.year = 1970 := rfl
  have hsecond : firstTimestamp.yearSecond = 1 := rfl
  have hfraction : firstTimestamp.fraction = 0 := rfl
  rw [Moment.instant, Moment.seconds, hyear, hsecond, hfraction]
  push_cast
  ring

/-- What is no date-time raises.  Of any other string the instant is printed, cut to
microseconds, or the first one of a `TIMESTAMP` if that is later. -/
structure Exact (v : String) (t : Stamp) : Prop where
  raises : (∃ e, quoteValue (.str v) = .error e) ↔ ¬ t.Valid
  prints : ∀ text, quoteValue (.str v) = .ok text →
    ∃ body m, text = "'" ++ String.ofList body ++ "'" ∧ readMoment body = some m ∧ m.Valid ∧
      m.instant = max (toMicros t.moment.instant) firstTimestamp.instant

theorem readMoment_first : readMoment "1970-01-01 00:00:01".toList = some firstTimestamp := by
  have hfraction : fractionValue [] = 0 := by simp [fractionValue, readNat]
  have hread : readMoment "1970-01-01 00:00:01".toList =
      some { firstTimestamp with fraction := fractionValue [] } := rfl
  rw [hread, hfraction]
  rfl

theorem valid_firstTimestamp : firstTimestamp.Valid :=
  ⟨⟨by decide, by decide⟩, ⟨by decide, by decide⟩, by decide, by decide, by decide, le_rfl, one_pos⟩

variable {v : String} {t : Stamp}

theorem Exact.of_ok (hvalid : t.Valid) {body : List Char} {m : Moment}
    (hquote : quoteValue (.str v) = .ok ("'" ++ String.ofList body ++ "'"))
    (hread : readMoment body = some m) :
    Exact v t ↔ m.Valid ∧ m.instant = max (toMicros t.moment.instant) firstTimestamp.instant := by
  constructor
  · intro hexact
    obtain ⟨body', m', htext, hread', hm⟩ := hexact.prints _ hquote
    have hbody : body = body' := by
      have hlist := congrArg String.toList htext
      simp only [String.toList_append, String.toList_ofList] at hlist
      exact List.append_cancel_left (List.append_cancel_right hlist)
    rw [← hbody, hread] at hread'
    rw [Option.some.inj hread']
    exact hm
  · intro hm
    refine ⟨iff_of_false ?_ (not_not_intro hvalid), fun text htext => ?_⟩
    · rintro ⟨e, he⟩
      rw [hquote] at he
      cases he
    · rw [hquote] at htext
      exact ⟨body, m, (Except.ok.inj htext).symm, hread, hm⟩

theorem Exact.of_error (h : stamp? v = some t) (hvalid : ¬ t.Valid) : Exact v t := by
  have herror : ∃ e, quoteValue (.str v) = .error e := quoteStringValue_error escapeString h hvalid
  refine ⟨iff_of_true herror hvalid, fun text htext => ?_⟩
  obtain ⟨e, he⟩ := herror
  rw [htext] at he
  cases he

/-- A string for the first second of 1970 is a date-time. -/
theorem valid_of_atEpoch (h : stamp? v = some t) (hepoch : t.AtEpoch) : t.Valid := by
  obtain ⟨hyear, hfirst, htail⟩ := hepoch
  refine ⟨⟨?_, ?_, ?_, ?_, ?_, fractionValue_bounds (isDigits_tail h)⟩, htail⟩
  · rw [hfirst.month]
    decide
  · rw [hfirst.day, hfirst.month, hyear]
    decide
  · rw [hfirst.hour]
    decide
  · rw [hfirst.minute]
    decide
  · rw [hfirst.second]
    decide

/-- The coercion is exact but for the first second of 1970. -/
theorem quoteValue_exact_iff (h : stamp? v = some t) : Exact v t ↔ ¬ t.AtEpoch := by
  by_cases hvalid : t.Valid
  · have hok := quoteStringValue_ok escapeString h hvalid
    have hcut := toMicros_le t.moment.instant
    by_cases hyear : readNat t.year < 1970
    · rw [if_pos hyear] at hok
      have hbefore : t.moment.instant < yearStart 1970 := hvalid.moment.lt_yearStart hyear
      rw [Exact.of_ok hvalid hok readMoment_first]
      refine iff_of_true ⟨valid_firstTimestamp, (max_eq_right ?_).symm⟩ fun hepoch => ?_
      · rw [instant_firstTimestamp]
        linarith
      · exact absurd hepoch.1 (Nat.ne_of_lt hyear)
    · rw [if_neg hyear] at hok
      have hbounds := hvalid.moment.fraction
      have hread := readMoment_printed h
      have hprinted : Moment.Valid { t.moment with fraction := toMicros t.moment.fraction } :=
        ⟨hvalid.moment.month, hvalid.moment.day, hvalid.moment.hour, hvalid.moment.minute,
          hvalid.moment.second, toMicros_nonneg hbounds.1,
          lt_of_le_of_lt (toMicros_le _) hbounds.2⟩
      have hinstant : Moment.instant { t.moment with fraction := toMicros t.moment.fraction } =
          toMicros t.moment.instant := t.moment.toMicros_instant.symm
      rw [Exact.of_ok hvalid hok hread, hinstant, instant_firstTimestamp, eq_comm, max_eq_left_iff,
        hvalid.moment.le_toMicros_iff (Nat.le_of_not_lt hyear)]
      constructor
      · intro hlate hepoch
        exact hlate.2 ⟨hepoch.1, hepoch.2.1⟩
      · intro hlate
        exact ⟨hprinted, fun hepoch => hlate ⟨hepoch.1, hepoch.2, hvalid.tail⟩⟩
  · exact iff_of_true (Exact.of_error h hvalid) fun hepoch => hvalid (valid_of_atEpoch h hepoch)

/-- The last instant before 1970 is raised, and the first one of 1970 is not. -/
theorem quoteValue_exact_iff_before :
    Exact "1969-12-31T23:59:59.9999999Z" ⟨"1969".toList, "12".toList, "31".toList, "23".toList,
        "59".toList, "59".toList, ".9999999".toList⟩ ∧
      ¬ Exact "1970-01-01T00:00:00Z" ⟨"1970".toList, "01".toList, "01".toList, "00".toList,
        "00".toList, "00".toList, []⟩ := by
  refine ⟨(quoteValue_exact_iff rfl).mpr fun hepoch => absurd hepoch.1 (by decide), fun hexact => ?_⟩
  exact (quoteValue_exact_iff rfl).mp hexact ⟨rfl, ⟨rfl, rfl, rfl, rfl, rfl⟩, Or.inl rfl⟩

/-- The first instant of 1970 is printed as it is, a second before the first `TIMESTAMP`. -/
theorem not_exact_epoch :
    quoteValue (.str "1970-01-01T00:00:00Z") = .ok "'1970-01-01 00:00:00'" ∧
      ¬ ∀ v t, stamp? v = some t → Exact v t := by
  have hok : quoteValue (.str "1970-01-01T00:00:00Z") = .ok "'1970-01-01 00:00:00'" := by
    decide +kernel
  refine ⟨hok, fun hall => ?_⟩
  have hstamp : stamp? "1970-01-01T00:00:00Z" = some ⟨"1970".toList, "01".toList, "01".toList,
      "00".toList, "00".toList, "00".toList, []⟩ := rfl
  have hvalid := valid_of_atEpoch hstamp ⟨rfl, ⟨rfl, rfl, rfl, rfl, rfl⟩, Or.inl rfl⟩
  have hbody : "'1970-01-01 00:00:00'" =
      "'" ++ String.ofList "1970-01-01 00:00:00".toList ++ "'" := by decide +kernel
  rw [hbody] at hok
  have hread : readMoment "1970-01-01 00:00:00".toList =
      some ⟨1970, 1, 1, 0, 0, 0, fractionValue []⟩ := rfl
  have hmax := ((Exact.of_ok hvalid hok hread).mp (hall _ _ hstamp)).2
  have hle := le_max_right (toMicros (Stamp.moment ⟨"1970".toList, "01".toList, "01".toList,
    "00".toList, "00".toList, "00".toList, []⟩).instant) firstTimestamp.instant
  have hfraction : fractionValue [] = 0 := by simp [fractionValue, readNat]
  rw [← hmax, instant_firstTimestamp, hfraction, Moment.instant, Moment.seconds] at hle
  have hsecond : Moment.yearSecond ⟨1970, 1, 1, 0, 0, 0, 0⟩ = 0 := rfl
  rw [hsecond] at hle
  push_cast at hle
  linarith

end Mysql
end Drivers
end Eds
