import Eds.Datetime
import Eds.Drivers.Digits
import Eds.Numeric.Civil

/-!
# Times as texts

`rfc3339` prints an instant with the zeros at the end of its fraction cut off, `parseRfc3339` fills
the fraction up to six digits and reads the text with the interpreter's `fromisoformat`.  From the
year 1000 on, what is printed is read as the instant (`parseRfc3339_rfc3339`).
-/

namespace Eds

open Drivers Util Numeric.Calendar

/-! ## Printing -/

/-- The date and the time of an instant, to the second. -/
def civil (t : Int) : Moment := ofSeconds (t / 1000000 + yearStart 1970).toNat

def microsecond (t : Int) : Nat := (t % 1000000).toNat

/-- The instant of a date, a time and microseconds. -/
def instantOf (m : Moment) (micros : Nat) : Int :=
  ((m.seconds : Int) - yearStart 1970) * 1000000 + micros

/-- `strftime` writes a year before 1000 with fewer than four digits. -/
def rfc3339 (t : Int) : List Char :=
  Nat.toDigits 10 (civil t).year ++ '-' :: padded 2 (civil t).month ++ '-' :: padded 2 (civil t).day ++
    'T' :: padded 2 (civil t).hour ++ ':' :: padded 2 (civil t).minute ++
    ':' :: padded 2 (civil t).second ++
    (if microsecond t = 0 then [] else ('.' :: padded 6 (microsecond t)).rdropWhile (· = '0')) ++ ['Z']

/-! ## Reading -/

/-- A `datetime`: what its fields say, in microseconds since 1970, and the offset of its zone. -/
structure Datetime where
  fields : Int
  offset : Option Int
  deriving DecidableEq

def Datetime.utc (t : Int) : Datetime := ⟨t, some 0⟩

structure Clock where
  hour : Nat
  minute : Nat
  second : Nat
  micros : Nat

def number (ds : List Char) : Option Nat := if isDigits ds = true then some (readNat ds) else none

/-- Three digits or six behind the point. -/
def subsecond : List Char → Option Nat
  | [] => some 0
  | '.' :: ds =>
    if ds.length = 6 then number ds
    else if ds.length = 3 then (number ds).map (1000 * ·)
    else none
  | _ => none

def clock : List Char → Option Clock
  | [h₁, h₂] => do
    let hour ← number [h₁, h₂]
    pure ⟨hour, 0, 0, 0⟩
  | [h₁, h₂, ':', n₁, n₂] => do
    let hour ← number [h₁, h₂]
    let minute ← number [n₁, n₂]
    pure ⟨hour, minute, 0, 0⟩
  | h₁ :: h₂ :: ':' :: n₁ :: n₂ :: ':' :: s₁ :: s₂ :: rest => do
    let hour ← number [h₁, h₂]
    let minute ← number [n₁, n₂]
    let second ← number [s₁, s₂]
    let micros ← subsecond rest
    pure ⟨hour, minute, second, micros⟩
  | _ => none

def Clock.total (c : Clock) : Int := (((c.hour * 60 + c.minute) * 60 + c.second) * 1000000 + c.micros : Nat)

/-- Less than a day, and written to the minute at least. -/
def zone : List Char → Option (Option Int)
  | [] => some none
  | sign :: text => do
    let c ← clock text
    if text.length ∈ [5, 8, 15] ∧ c.total < 86400 * 1000000 then
      pure (some (if sign = '-' then -c.total else c.total))
    else none

def isSign (c : Char) : Bool := c == '-' || c == '+'

def timeOf : List Char → Option (Clock × Option Int)
  | [] => some (⟨0, 0, 0, 0⟩, none)
  | _ :: text => do
    let c ← clock (text.takeWhile fun c => !isSign c)
    let offset ← zone (text.dropWhile fun c => !isSign c)
    pure (c, offset)

/-- `datetime.fromisoformat`, with `none` for a `ValueError`: `YYYY-MM-DD`, and behind any
character the time, `HH[:MM[:SS[.fff[fff]]]]`, with an offset or without. -/
def fromIsoformat : List Char → Option Datetime
  | y₁ :: y₂ :: y₃ :: y₄ :: '-' :: m₁ :: m₂ :: '-' :: d₁ :: d₂ :: rest => do
    let year ← number [y₁, y₂, y₃, y₄]
    let month ← number [m₁, m₂]
    let day ← number [d₁, d₂]
    let (c, offset) ← timeOf rest
    if 1 ≤ year ∧ (1 ≤ month ∧ month ≤ 12) ∧ (1 ≤ day ∧ day ≤ monthLength year month) ∧ c.hour < 24 ∧
        c.minute < 60 ∧ c.second < 60 then
      pure ⟨instantOf ⟨year, month, day, c.hour, c.minute, c.second, 0⟩ c.micros, offset⟩
    else none
  | _ => none

/-! ## The fraction -/

/-- The zeros among the decimal digits of all scripts. -/
def decimalZeros : List Nat :=
  [0x30, 0x660, 0x6F0, 0x7C0, 0x966, 0x9E6, 0xA66, 0xAE6, 0xB66, 0xBE6, 0xC66, 0xCE6, 0xD66, 0xDE6,
    0xE50, 0xED0, 0xF20, 0x1040, 0x1090, 0x17E0, 0x1810, 0x1946, 0x19D0, 0x1A80, 0x1A90, 0x1B50, 0x1BB0,
    0x1C40, 0x1C50, 0xA620, 0xA8D0, 0xA900, 0xA9D0, 0xA9F0, 0xAA50, 0xABF0, 0xFF10, 0x104A0, 0x10D30,
    0x11066, 0x110F0, 0x11136, 0x111D0, 0x112F0, 0x11450, 0x114D0, 0x11650, 0x116C0, 0x11730, 0x118E0,
    0x11950, 0x11C50, 0x11D50, 0x11DA0, 0x16A60, 0x16AC0, 0x16B50, 0x1D7CE, 0x1D7D8, 0x1D7E2, 0x1D7EC,
    0x1D7F6, 0x1E140, 0x1E2F0, 0x1E950, 0x1FBF0]

/-- `\d` -/
def isDecimal (c : Char) : Bool := decimalZeros.any fun z => decide (z ≤ c.toNat ∧ c.toNat ≤ z + 9)

/-- `(.*)$`: the end may stand in front of a last newline. -/
def lineRest (text : List Char) : Option (List Char) :=
  if '\n' ∉ text then some text
  else if text.getLast? = some '\n' ∧ '\n' ∉ text.dropLast then some text.dropLast
  else none

/-- `T\d{2}:\d{2}:\d{2}\.(\d+)(.*)$` -/
def fractionAt : List Char → Option (List Char × List Char × List Char)
  | 'T' :: h₁ :: h₂ :: ':' :: n₁ :: n₂ :: ':' :: s₁ :: s₂ :: '.' :: rest => do
    let last ← lineRest (rest.dropWhile isDecimal)
    if [h₁, h₂, n₁, n₂, s₁, s₂].all isDecimal = true ∧ rest.takeWhile isDecimal ≠ [] then
      pure (['T', h₁, h₂, ':', n₁, n₂, ':', s₁, s₂], rest.takeWhile isDecimal, last)
    else none
  | _ => none

/-- `_FRAC_RE.match`: the last place in the first line. -/
def fracMatch : List Char → Option (List Char × List Char × List Char)
  | [] => none
  | c :: text =>
    match if c = '\n' then none else fracMatch text with
    | some (front, frac, last) => some (c :: front, frac, last)
    | none => fractionAt (c :: text)

/-- What a `Z` is replaced by. -/
def utcZone : List Char := ['+', '0', '0', ':', '0', '0']

def parseRfc3339 (s : List Char) : Option Datetime :=
  let s := s.flatMap fun c => if c = 'Z' then utcZone else [c]
  match fracMatch s with
  | some (front, frac, last) =>
    fromIsoformat (front ++ '.' :: (frac ++ ['0', '0', '0', '0', '0', '0']).take 6 ++ last)
  | none => fromIsoformat s

/-! ## The fraction filled up -/

theorem rdropWhile_cons_of_not {a : Char} (l : List Char) (ha : a ≠ '0') :
    (a :: l).rdropWhile (· = '0') = a :: l.rdropWhile (· = '0') := by
  induction l using List.reverseRecOn with
  | nil => exact List.rdropWhile_concat_neg _ [] a (by simpa using ha)
  | append_singleton l c ih =>
    rw [← List.cons_append]
    by_cases hc : c = '0'
    · rw [List.rdropWhile_concat_pos _ _ _ (by simpa using hc),
        List.rdropWhile_concat_pos _ _ _ (by simpa using hc), ih]
    · rw [List.rdropWhile_concat_neg _ _ _ (by simpa using hc),
        List.rdropWhile_concat_neg _ _ _ (by simpa using hc), List.cons_append]

theorem take_rdropWhile (l : List Char) :
    (l.rdropWhile (· = '0') ++ List.replicate l.length '0').take l.length = l := by
  have hzeros : ∀ c ∈ l.rtakeWhile (· = '0'), c = '0' := fun c hc => by
    simpa using List.mem_rtakeWhile_imp hc
  have hsplit : l.rdropWhile (· = '0') ++
      List.replicate (l.rtakeWhile (· = '0')).length '0' = l := by
    rw [← List.eq_replicate_of_mem hzeros, List.rdropWhile_append_rtakeWhile]
  have hlength := congrArg List.length hsplit
  rw [List.length_append, List.length_replicate] at hlength
  rw [List.take_append, List.take_replicate, List.take_of_length_le (by omega)]
  have hcount : min (l.length - (l.rdropWhile (· = '0')).length) l.length =
      (l.rtakeWhile (· = '0')).length := by omega
  rw [hcount, hsplit]

theorem fractionAt_of_ne {c : Char} (s : List Char) (h : c ≠ 'T') : fractionAt (c :: s) = none := by
  unfold fractionAt
  split
  · next heq => exact absurd (List.cons.inj heq).1 h
  · rfl

theorem fracMatch_eq_none {s : List Char} (h : 'T' ∉ s) : fracMatch s = none := by
  induction s with
  | nil => rfl
  | cons c s ih =>
    rw [List.mem_cons, not_or] at h
    rw [fracMatch, ih h.2, ite_self]
    exact fractionAt_of_ne s (Ne.symm h.1)

theorem fracMatch_append {p s : List Char} (hT : 'T' ∉ p) (hline : '\n' ∉ p) :
    fracMatch (p ++ s) = (fracMatch s).map fun r => (p ++ r.1, r.2) := by
  induction p with
  | nil => simp
  | cons c p ih =>
    rw [List.mem_cons, not_or] at hT hline
    rw [List.cons_append, fracMatch, if_neg fun h => hline.1 h.symm, ih hT.2 hline.2,
      fractionAt_of_ne (p ++ s) (Ne.symm hT.1)]
    cases fracMatch s with
    | none => rfl
    | some r => rfl

/-! ## Digits in places -/

theorem exists_two {n : Nat} (h : n < 100) :
    ∃ a b, padded 2 n = [a, b] ∧ isDigits [a, b] = true ∧ number [a, b] = some n := by
  have hlength : (padded 2 n).length = 2 := length_padded (by decide) (by omega)
  obtain ⟨a, b, htext⟩ := List.length_eq_two.mp hlength
  have hdigits := isDigits_padded 2 n
  have hread := readNat_padded 2 n
  rw [htext] at hdigits hread
  exact ⟨a, b, htext, hdigits, by rw [number, if_pos hdigits, hread]⟩

theorem exists_four {n : Nat} (hfrom : 1000 ≤ n) (hto : n ≤ 9999) :
    ∃ a b c d, Nat.toDigits 10 n = [a, b, c, d] ∧ isDigits [a, b, c, d] = true ∧
      number [a, b, c, d] = some n := by
  have hle := (Nat.length_toDigits_le_iff (b := 10) (n := n) (k := 4) (by decide) (by decide)).mpr
    (by omega)
  have hgt := mt (Nat.length_toDigits_le_iff (b := 10) (n := n) (k := 3) (by decide) (by decide)).mp
    (by omega)
  have hdigits := isDigits_toDigits n
  have hread := readNat_toDigits n
  match htext : Nat.toDigits 10 n with
  | [a, b, c, d] =>
    rw [htext] at hdigits hread
    exact ⟨a, b, c, d, rfl, hdigits, by rw [number, if_pos hdigits, hread]⟩
  | [] | [_] | [_, _] | [_, _, _] | _ :: _ :: _ :: _ :: _ :: _ =>
    rw [htext] at hle hgt
    simp only [List.length_cons, List.length_nil] at hle hgt
    omega

theorem isDigits_cons {c : Char} {ds : List Char} :
    isDigits (c :: ds) = true ↔ isAsciiDigit c = true ∧ isDigits ds = true := by
  rw [isDigits, List.all_cons, Bool.and_eq_true]
  rfl

theorem isDecimal_of_digit {c : Char} (h : isAsciiDigit c = true) : isDecimal c = true := by
  have hbounds := bounds_of_isAsciiDigit h
  exact List.any_eq_true.mpr ⟨0x30, List.mem_cons_self, decide_eq_true (by omega)⟩

theorem isSign_of_digit {c : Char} (h : isAsciiDigit c = true) : isSign c = false := by
  have hbounds := bounds_of_isAsciiDigit h
  have hminus : c ≠ '-' := by
    rintro rfl
    exact absurd hbounds.1 (by decide)
  have hplus : c ≠ '+' := by
    rintro rfl
    exact absurd hbounds.1 (by decide)
  rw [isSign, beq_false_of_ne hminus, beq_false_of_ne hplus]
  rfl

/-- A text of digits, colons and points. -/
def isTimeChar (c : Char) : Bool := isAsciiDigit c || c == ':' || c == '.'

theorem not_isSign_of_timeChar {c : Char} (h : isTimeChar c = true) : isSign c = false := by
  rw [isTimeChar, Bool.or_eq_true, Bool.or_eq_true, beq_iff_eq, beq_iff_eq] at h
  rcases h with (h | rfl) | rfl
  · exact isSign_of_digit h
  · rfl
  · rfl

theorem timeChar_ne {c : Char} (h : isTimeChar c = true) : c ≠ 'T' ∧ c ≠ 'Z' ∧ c ≠ '\n' := by
  rw [isTimeChar, Bool.or_eq_true, Bool.or_eq_true, beq_iff_eq, beq_iff_eq] at h
  rcases h with (h | rfl) | rfl
  · have hbounds := bounds_of_isAsciiDigit h
    refine ⟨?_, ?_, ?_⟩
    all_goals
      rintro rfl
      exact absurd hbounds (by decide)
  · decide
  · decide

theorem timeChars_of_digits {ds : List Char} (h : isDigits ds = true) : ∀ c ∈ ds, isTimeChar c = true := by
  intro c hc
  rw [isTimeChar, List.all_eq_true.mp h c hc]
  rfl

/-- In front of the offset there is only the time. -/
theorem timeOf_utcZone {sep : Char} {text : List Char} {c : Clock}
    (hchars : ∀ d ∈ text, isTimeChar d = true) (hclock : clock text = some c) :
    timeOf (sep :: (text ++ utcZone)) = some (c, some 0) := by
  have hkeep : ∀ d ∈ text, (!isSign d) = true := fun d hd => by
    rw [not_isSign_of_timeChar (hchars d hd)]
    rfl
  have htake : (text ++ utcZone).takeWhile (fun c => !isSign c) = text := by
    rw [List.takeWhile_append_of_pos hkeep]
    simp [utcZone, isSign]
  have hdrop : (text ++ utcZone).dropWhile (fun c => !isSign c) = utcZone := by
    rw [List.dropWhile_append_of_pos hkeep]
    simp [utcZone, isSign]
  rw [timeOf, htake, hdrop, hclock]
  rfl

theorem fracMatch_T {s : List Char} (h : 'T' ∉ s) : fracMatch ('T' :: s) = fractionAt ('T' :: s) := by
  rw [fracMatch, if_neg (by decide), fracMatch_eq_none h]

theorem flatMap_zone {s : List Char} (h : 'Z' ∉ s) :
    ((s ++ ['Z']).flatMap fun c => if c = 'Z' then utcZone else [c]) = s ++ utcZone := by
  have hkeep : (s.flatMap fun c => if c = 'Z' then utcZone else [c]) = s.flatMap fun c => [c] :=
    List.flatMap_congr fun c hc => if_neg fun hz : c = 'Z' => h (hz ▸ hc)
  rw [List.flatMap_append, hkeep, List.flatMap_singleton']
  rfl

/-! ## The instant -/

theorem instantOf_civil {t : Int} (h : 1 ≤ (civil t).year) : instantOf (civil t) (microsecond t) = t := by
  have hseconds : (civil t).seconds = (t / 1000000 + yearStart 1970).toNat := (ofSeconds_spec _).2
  have hnonneg : 0 ≤ t / 1000000 + yearStart 1970 := by
    by_contra hneg
    have hzero : (t / 1000000 + yearStart 1970).toNat = 0 := Int.toNat_of_nonpos (by omega)
    have hyear : (ofSeconds (t / 1000000 + yearStart 1970).toNat).year < 1 := by
      rw [hzero]
      exact year_ofSeconds_lt_iff.mpr (by decide)
    exact absurd h (Nat.not_le_of_lt hyear)
  rw [instantOf, hseconds, microsecond]
  omega

theorem microsecond_lt (t : Int) : microsecond t < 1000000 := by
  rw [microsecond]
  omega

/-- The parts of what is printed. -/
theorem exists_rfc3339 {t : Int} (hfrom : 1000 ≤ (civil t).year) (hto : (civil t).year ≤ 9999) :
    ∃ y₁ y₂ y₃ y₄ m₁ m₂ d₁ d₂ h₁ h₂ n₁ n₂ s₁ s₂,
      rfc3339 t = [y₁, y₂, y₃, y₄, '-', m₁, m₂, '-', d₁, d₂] ++ 'T' :: ([h₁, h₂, ':', n₁, n₂, ':', s₁, s₂] ++
        (if microsecond t = 0 then [] else '.' :: (padded 6 (microsecond t)).rdropWhile (· = '0'))) ++ ['Z'] ∧
      isDigits [y₁, y₂, y₃, y₄, m₁, m₂, d₁, d₂, h₁, h₂, n₁, n₂, s₁, s₂] = true ∧
      (number [y₁, y₂, y₃, y₄] = some (civil t).year ∧ number [m₁, m₂] = some (civil t).month ∧
        number [d₁, d₂] = some (civil t).day) ∧
      number [h₁, h₂] = some (civil t).hour ∧ number [n₁, n₂] = some (civil t).minute ∧
        number [s₁, s₂] = some (civil t).second := by
  have hvalid : (civil t).Valid := (ofSeconds_spec _).1
  obtain ⟨y₁, y₂, y₃, y₄, hyear, hyears, hy⟩ := exists_four hfrom hto
  obtain ⟨m₁, m₂, hmonth, hmonths, hm⟩ := exists_two (Nat.lt_of_le_of_lt hvalid.month.2 (by decide))
  obtain ⟨d₁, d₂, hday, hdays, hd⟩ := exists_two (Nat.lt_of_le_of_lt hvalid.day_le (by decide))
  obtain ⟨h₁, h₂, hhour, hhours, hh⟩ := exists_two (Nat.lt_trans hvalid.hour (by decide))
  obtain ⟨n₁, n₂, hminute, hminutes, hn⟩ := exists_two (Nat.lt_trans hvalid.minute (by decide))
  obtain ⟨s₁, s₂, hsecond, hseconds, hs⟩ := exists_two (Nat.lt_trans hvalid.second (by decide))
  refine ⟨y₁, y₂, y₃, y₄, m₁, m₂, d₁, d₂, h₁, h₂, n₁, n₂, s₁, s₂, ?_, ?_, ⟨hy, hm, hd⟩, hh, hn, hs⟩
  · rw [rfc3339, hyear, hmonth, hday, hhour, hminute, hsecond, rdropWhile_cons_of_not _ (by decide)]
    simp only [List.cons_append, List.nil_append]
  · exact isDigits_append hyears (isDigits_append hmonths (isDigits_append hdays
      (isDigits_append hhours (isDigits_append hminutes hseconds))))

theorem isDigits_six {n : Nat} (h : n < 1000000) :
    (padded 6 n).length = 6 ∧ number (padded 6 n) = some n := by
  have hdigits := isDigits_padded 6 n
  exact ⟨length_padded (by decide) (by omega), by rw [number, if_pos hdigits, readNat_padded]⟩

/-- With six digits of a fraction, or without one, the text is read as the instant. -/
theorem fromIsoformat_printed {t : Int} {y₁ y₂ y₃ y₄ m₁ m₂ d₁ d₂ h₁ h₂ n₁ n₂ s₁ s₂ : Char}
    {sub : List Char} (hyear : 1 ≤ (civil t).year)
    (hdigits : isDigits [h₁, h₂, n₁, n₂, s₁, s₂] = true)
    (hdate : number [y₁, y₂, y₃, y₄] = some (civil t).year ∧ number [m₁, m₂] = some (civil t).month ∧
      number [d₁, d₂] = some (civil t).day)
    (htime : number [h₁, h₂] = some (civil t).hour ∧ number [n₁, n₂] = some (civil t).minute ∧
      number [s₁, s₂] = some (civil t).second)
    (hsub : subsecond sub = some (microsecond t)) (hchars : ∀ c ∈ sub, isTimeChar c = true) :
    fromIsoformat ([y₁, y₂, y₃, y₄, '-', m₁, m₂, '-', d₁, d₂] ++ 'T' ::
      (([h₁, h₂, ':', n₁, n₂, ':', s₁, s₂] ++ sub) ++ utcZone)) = some (Datetime.utc t) := by
  have hvalid : (civil t).Valid := (ofSeconds_spec _).1
  have hclock : clock ([h₁, h₂, ':', n₁, n₂, ':', s₁, s₂] ++ sub) =
      some ⟨(civil t).hour, (civil t).minute, (civil t).second, microsecond t⟩ := by
    show (do
      let hour ← number [h₁, h₂]
      let minute ← number [n₁, n₂]
      let second ← number [s₁, s₂]
      let micros ← subsecond sub
      pure (⟨hour, minute, second, micros⟩ : Clock)) = _
    rw [htime.1, htime.2.1, htime.2.2, hsub]
    rfl
  have htext : ∀ c ∈ [h₁, h₂, ':', n₁, n₂, ':', s₁, s₂] ++ sub, isTimeChar c = true := by
    simp only [isDigits_cons] at hdigits
    rw [List.forall_mem_append]
    refine ⟨?_, hchars⟩
    simp [isTimeChar, hdigits]
  show (do
    let year ← number [y₁, y₂, y₃, y₄]
    let month ← number [m₁, m₂]
    let day ← number [d₁, d₂]
    let (c, offset) ← timeOf ('T' :: (([h₁, h₂, ':', n₁, n₂, ':', s₁, s₂] ++ sub) ++ utcZone))
    if 1 ≤ year ∧ (1 ≤ month ∧ month ≤ 12) ∧ (1 ≤ day ∧ day ≤ monthLength year month) ∧ c.hour < 24 ∧
        c.minute < 60 ∧ c.second < 60 then
      pure (⟨instantOf ⟨year, month, day, c.hour, c.minute, c.second, 0⟩ c.micros, offset⟩ : Datetime)
    else none) = _
  rw [timeOf_utcZone htext hclock, hdate.1, hdate.2.1, hdate.2.2]
  refine (if_pos ⟨hyear, hvalid.month, hvalid.day, hvalid.hour, hvalid.minute, hvalid.second⟩).trans ?_
  have hinstant := instantOf_civil hyear
  exact congrArg (fun n => some (⟨n, some 0⟩ : Datetime)) hinstant

/-- The digits behind the point are the ones that are matched. -/
theorem fractionAt_printed {h₁ h₂ n₁ n₂ s₁ s₂ : Char} {frac : List Char}
    (hdigits : isDigits [h₁, h₂, n₁, n₂, s₁, s₂] = true) (hfrac : isDigits frac = true)
    (hne : frac ≠ []) :
    fractionAt ('T' :: ([h₁, h₂, ':', n₁, n₂, ':', s₁, s₂] ++ '.' :: frac ++ utcZone)) =
      some (['T', h₁, h₂, ':', n₁, n₂, ':', s₁, s₂], frac, utcZone) := by
  have hdecimal : ∀ {ds : List Char}, isDigits ds = true → ∀ c ∈ ds, isDecimal c = true :=
    fun h c hc => isDecimal_of_digit (List.all_eq_true.mp h c hc)
  have hplus : isDecimal '+' = false := by decide
  have htake : (frac ++ utcZone).takeWhile isDecimal = frac := by
    rw [List.takeWhile_append_of_pos (hdecimal hfrac), utcZone,
      List.takeWhile_cons_of_neg (by rw [hplus]; exact Bool.false_ne_true), List.append_nil]
  have hdrop : (frac ++ utcZone).dropWhile isDecimal = utcZone := by
    rw [List.dropWhile_append_of_pos (hdecimal hfrac), utcZone,
      List.dropWhile_cons_of_neg (by rw [hplus]; exact Bool.false_ne_true)]
  have hline : lineRest utcZone = some utcZone := by decide
  show (do
    let last ← lineRest ((frac ++ utcZone).dropWhile isDecimal)
    if [h₁, h₂, n₁, n₂, s₁, s₂].all isDecimal = true ∧ (frac ++ utcZone).takeWhile isDecimal ≠ [] then
      pure (['T', h₁, h₂, ':', n₁, n₂, ':', s₁, s₂], (frac ++ utcZone).takeWhile isDecimal, last)
    else none) = _
  rw [hdrop, htake, hline]
  exact if_pos ⟨List.all_eq_true.mpr (hdecimal hdigits), hne⟩

/-- Only the time is written behind the `T`, and the `Z` is the last. -/
theorem parseRfc3339_zoned {date time : List Char}
    (hdate : ∀ c ∈ date, c ≠ 'T' ∧ c ≠ 'Z' ∧ c ≠ '\n') (htime : ∀ c ∈ time, isTimeChar c = true) :
    parseRfc3339 (date ++ 'T' :: time ++ ['Z']) =
      match fractionAt ('T' :: (time ++ utcZone)) with
      | some (front, frac, last) =>
        fromIsoformat (date ++ front ++ '.' :: (frac ++ ['0', '0', '0', '0', '0', '0']).take 6 ++ last)
      | none => fromIsoformat (date ++ 'T' :: (time ++ utcZone)) := by
  have hZ : 'Z' ∉ date ++ 'T' :: time := by
    intro hmem
    rcases List.mem_append.mp hmem with h | h
    · exact (hdate _ h).2.1 rfl
    · rcases List.mem_cons.mp h with h | h
      · exact absurd h (by decide)
      · exact (timeChar_ne (htime _ h)).2.1 rfl
  have hT : 'T' ∉ time ++ utcZone := by
    intro hmem
    rcases List.mem_append.mp hmem with h | h
    · exact (timeChar_ne (htime _ h)).1 rfl
    · exact absurd h (by decide)
  unfold parseRfc3339
  dsimp only
  rw [flatMap_zone hZ, List.append_assoc, List.cons_append,
    fracMatch_append (fun h => (hdate _ h).1 rfl) (fun h => (hdate _ h).2.2 rfl), fracMatch_T hT]
  cases fractionAt ('T' :: (time ++ utcZone)) with
  | none => rfl
  | some r => rfl

/-- What is printed from the year 1000 on is read as it was. -/
theorem parseRfc3339_rfc3339 {t : Int} (hfrom : 1000 ≤ (civil t).year) (hto : (civil t).year ≤ 9999) :
    parseRfc3339 (rfc3339 t) = some (Datetime.utc t) := by
  obtain ⟨y₁, y₂, y₃, y₄, m₁, m₂, d₁, d₂, h₁, h₂, n₁, n₂, s₁, s₂, htext, hdigits, hdate, htime⟩ :=
    exists_rfc3339 hfrom hto
  have hyear : 1 ≤ (civil t).year := by omega
  have hsplit : isDigits ([y₁, y₂, y₃, y₄, m₁, m₂, d₁, d₂] ++ [h₁, h₂, n₁, n₂, s₁, s₂]) = true := hdigits
  rw [isDigits, List.all_append, Bool.and_eq_true] at hsplit
  obtain ⟨hdates, htimes⟩ := hsplit
  obtain ⟨hsix, hmicros⟩ := isDigits_six (microsecond_lt t)
  have hpadded := isDigits_padded 6 (microsecond t)
  generalize padded 6 (microsecond t) = full at htext hsix hmicros hpadded
  have hfrac : isDigits (full.rdropWhile (· = '0')) = true :=
    List.all_eq_true.mpr fun c hc =>
      List.all_eq_true.mp hpadded c ((List.rdropWhile_prefix _ full).subset hc)
  have hhead : ∀ c ∈ [y₁, y₂, y₃, y₄, '-', m₁, m₂, '-', d₁, d₂], isTimeChar c = true ∨ c = '-' := by
    have hall := timeChars_of_digits hdates
    simp only [List.forall_mem_cons] at hall
    simp [hall]
  have hclock : ∀ c ∈ [h₁, h₂, ':', n₁, n₂, ':', s₁, s₂], isTimeChar c = true := by
    have hall := timeChars_of_digits htimes
    simp only [List.forall_mem_cons] at hall
    have hcolon : isTimeChar ':' = true := by decide
    simp [hall, hcolon]
  have hheadT : ∀ c ∈ [y₁, y₂, y₃, y₄, '-', m₁, m₂, '-', d₁, d₂], c ≠ 'T' ∧ c ≠ 'Z' ∧ c ≠ '\n' := by
    intro c hc
    rcases hhead c hc with h | rfl
    · exact timeChar_ne h
    · decide
  have hparse : ∀ sub : List Char, (∀ c ∈ sub, isTimeChar c = true) → _ := fun sub hsub =>
    parseRfc3339_zoned hheadT (List.forall_mem_append.mpr ⟨hclock, hsub⟩)
  rw [htext]
  by_cases hus : microsecond t = 0
  · rw [if_pos hus, hparse [] (List.forall_mem_nil _)]
    have hnone : fractionAt ('T' :: ([h₁, h₂, ':', n₁, n₂, ':', s₁, s₂] ++ [] ++ utcZone)) = none := rfl
    rw [hnone]
    exact fromIsoformat_printed hyear htimes hdate htime (congrArg some hus.symm)
      (List.forall_mem_nil _)
  · have hne : full.rdropWhile (· = '0') ≠ [] := by
      intro hnil
      have hzeros : ∀ c ∈ full, c = '0' := fun c hc => by
        simpa using List.rdropWhile_eq_nil_iff.mp hnil c hc
      rw [number, if_pos hpadded, List.eq_replicate_of_mem hzeros, readNat_zeros] at hmicros
      exact hus (Option.some.inj hmicros).symm
    have hchars : ∀ {ds : List Char}, isDigits ds = true → ∀ c ∈ '.' :: ds, isTimeChar c = true :=
      fun h => List.forall_mem_cons.mpr ⟨by decide, timeChars_of_digits h⟩
    rw [if_neg hus, hparse _ (hchars hfrac), fractionAt_printed htimes hfrac hne]
    have hfill := take_rdropWhile full
    rw [hsix] at hfill
    have hsub : subsecond ('.' :: full) = some (microsecond t) := (if_pos hsix).trans hmicros
    have hread := fromIsoformat_printed hyear htimes hdate htime hsub (hchars hpadded)
    have hzeros : ['0', '0', '0', '0', '0', '0'] = List.replicate 6 '0' := rfl
    dsimp only
    rw [hzeros, hfill]
    simpa using hread

end Eds
