import Eds.Datetime.Isoformat

/-!
# The names of export files

A file is named after the time of its export, two words of the changefeed, the table and an
identifier.  The time is read by `strptime`, which takes one digit for two where it must, and the
table stands between the last dashes but one and the last.
-/

namespace Eds
namespace Util

open Drivers Numeric.Calendar Lexing.Utf8Order

/-! ## The date -/

/-- A number of at most two digits. -/
structure Directive where
  least : Nat
  most : Nat

/-- `%m%d%H%M%S`; behind the match a second is still refused from 60 on. -/
def directives : List Directive := [⟨1, 12⟩, ⟨1, 31⟩, ⟨0, 23⟩, ⟨0, 59⟩, ⟨0, 61⟩]

/-- How a directive matches digits, its first choice first: two of them, or one. -/
def Directive.readings (d : Directive) : List Char → List (Nat × List Char)
  | [] => []
  | [a] => if d.least ≤ readNat [a] then [(readNat [a], [])] else []
  | a :: b :: rest =>
    (if d.least ≤ readNat [a, b] ∧ readNat [a, b] ≤ d.most then [(readNat [a, b], rest)] else []) ++
      (if d.least ≤ readNat [a] then [(readNat [a], b :: rest)] else [])

/-- The first match in the order of the choices. -/
def readAll : List Directive → List Char → Option (List Nat × List Char)
  | [], text => some ([], text)
  | d :: ds, text => (d.readings text).findSome? fun r => (readAll ds r.2).map fun q => (r.1 :: q.1, q.2)

def isDate (m : Moment) : Bool :=
  decide (1 ≤ m.year ∧ (1 ≤ m.month ∧ m.month ≤ 12) ∧ (1 ≤ m.day ∧ m.day ≤ monthLength m.year m.month) ∧
    m.hour < 24 ∧ m.minute < 60 ∧ m.second < 60)

/-- `strptime` of digits by `%Y%m%d%H%M%S`. -/
def strptime : List Char → Option Moment
  | y₁ :: y₂ :: y₃ :: y₄ :: rest =>
    match readAll directives rest with
    | some ([month, day, hour, minute, second], []) =>
      let m : Moment := ⟨readNat [y₁, y₂, y₃, y₄], month, day, hour, minute, second, 0⟩
      if isDate m = true then some m else none
    | _ => none
  | _ => none

/-- The whole seconds are fewer than a double holds exactly. -/
def unixNanos (m : Moment) (nanos : Nat) : Int :=
  ((m.seconds : Int) - yearStart 1970) * 1000000000 + nanos

/-- The text is one of digits, as the pattern of its caller says. -/
def parsePreciseDate (date : List Char) : Int × Bool :=
  if date.length < 23 then (0, false)
  else
    match strptime (date.take 14) with
    | some m => (unixNanos m (readNat ((date.drop 14).take 9)), true)
    | none => (0, false)

/-! ## The name -/

def isWordChar (c : Char) : Bool := c.isAlphanum || c == '_'

def isDashed (c : Char) : Bool := isWordChar c || c == '-'

def isTableChar (c : Char) : Bool := c.isLower || c.isDigit || c == '_'

def extension : List Char := ['.', 'n', 'd', 'j', 's', 'o', 'n', '.', 'g', 'z']

/-- `-([a-z0-9_]+)-([A-Za-z0-9_]+)\.ndjson\.gz`: no class has the character behind it. -/
def tableAt : List Char → Option (List Char)
  | '-' :: text =>
    match text.dropWhile isTableChar with
    | '-' :: rest =>
      if text.takeWhile isTableChar ≠ [] ∧ rest.takeWhile isWordChar ≠ [] ∧
          extension <+: rest.dropWhile isWordChar then some (text.takeWhile isTableChar)
      else none
    | _ => none
  | _ => none

/-- `[A-Za-z0-9_-]+` in front of that, as much of it as goes. -/
def dashedTable : List Char → Option (List Char)
  | [] => none
  | c :: text =>
    if isDashed c = true then
      match dashedTable text with
      | some table => some table
      | none => tableAt text
    else none

/-- `_CRDB_EXPORT_FILE_RE.match`: the date and the table. -/
def exportMatch (name : List Char) : Option (List Char × List Char) :=
  if (name.take 33).length = 33 ∧ isDigits (name.take 33) = true then
    match name.drop 33 with
    | '-' :: text =>
      match text.dropWhile isWordChar with
      | '-' :: rest =>
        if text.takeWhile isWordChar ≠ [] then (dashedTable rest).map fun table => (name.take 33, table)
        else none
      | _ => none
    | _ => none
  else none

structure CrdbExportFile where
  table : List Char
  unixNanos : Int
  ok : Bool
  deriving DecidableEq

/-- `os.path.basename` -/
def basename (file : List Char) : List Char := file.rtakeWhile (· ≠ '/')

def parseCrdbExportFile (file : List Char) : CrdbExportFile :=
  match exportMatch (basename file) with
  | none => ⟨[], 0, false⟩
  | some (date, table) =>
    match parsePreciseDate date with
    | (nanos, true) => ⟨table, nanos, true⟩
    | (_, false) => ⟨[], 0, false⟩

/-! ## Two digits for each part -/

/-- Two digits in the range of each directive. -/
def Fits : List Directive → List Char → List Nat → Prop
  | [], text, ns => text = [] ∧ ns = []
  | d :: ds, text, ns => ∃ a b rest ns', text = a :: b :: rest ∧ ns = readNat [a, b] :: ns' ∧
      (d.least ≤ readNat [a, b] ∧ readNat [a, b] ≤ d.most) ∧ Fits ds rest ns'

theorem readAll_of_fits {ds : List Directive} {text : List Char} {ns : List Nat} (h : Fits ds text ns) :
    readAll ds text = some (ns, []) := by
  induction ds generalizing text ns with
  | nil =>
    rw [h.1, h.2]
    rfl
  | cons d ds ih =>
    obtain ⟨a, b, rest, ns', rfl, rfl, hrange, hrest⟩ := h
    rw [readAll, Directive.readings, if_pos hrange, List.singleton_append, List.findSome?_cons,
      ih hrest]
    rfl

/-- A match that is not of two digits each leaves some. -/
theorem readAll_eq_some {ds : List Directive} {text rest : List Char} {ns : List Nat}
    (h : readAll ds text = some (ns, rest)) :
    text.length ≤ 2 * ds.length + rest.length ∧
      (text.length = 2 * ds.length → rest = [] → Fits ds text ns) := by
  induction ds generalizing text ns rest with
  | nil =>
    obtain ⟨rfl, rfl⟩ := Prod.mk.inj (Option.some.inj h)
    exact ⟨by simp, fun _ hnil => ⟨hnil, rfl⟩⟩
  | cons d ds ih =>
    rw [readAll] at h
    obtain ⟨r, hr, hmap⟩ := List.exists_of_findSome?_eq_some h
    obtain ⟨q, hq, hpair⟩ := Option.map_eq_some_iff.mp hmap
    obtain ⟨rfl, rfl⟩ := Prod.mk.inj hpair
    obtain ⟨hle, hfits⟩ := ih hq
    match text with
    | [] => exact absurd hr List.not_mem_nil
    | [a] =>
      rw [Directive.readings] at hr
      split at hr
      · obtain rfl := List.mem_singleton.mp hr
        dsimp only [List.length_nil] at hle
        rw [List.length_cons, List.length_cons, List.length_nil]
        exact ⟨by omega, fun hlength => absurd hlength (by omega)⟩
      · exact absurd hr List.not_mem_nil
    | a :: b :: text =>
      rw [Directive.readings, List.mem_append] at hr
      rcases hr with hr | hr
      · split at hr
        · next hrange =>
          obtain rfl := List.mem_singleton.mp hr
          dsimp only at hle hfits
          rw [List.length_cons, List.length_cons, List.length_cons]
          refine ⟨by omega, fun hlength hnil => ?_⟩
          exact ⟨a, b, text, q.1, rfl, rfl, hrange, hfits (by omega) hnil⟩
        · exact absurd hr List.not_mem_nil
      · split at hr
        · obtain rfl := List.mem_singleton.mp hr
          dsimp only at hle
          rw [List.length_cons] at hle
          rw [List.length_cons, List.length_cons, List.length_cons]
          refine ⟨by omega, fun hlength hnil => ?_⟩
          rw [hnil, List.length_nil] at hle
          omega
        · exact absurd hr List.not_mem_nil

/-! ## The date of a name -/

/-- `%Y%m%d%H%M%S` -/
def stampText (m : Moment) : List Char :=
  padded 4 m.year ++ padded 2 m.month ++ padded 2 m.day ++ padded 2 m.hour ++ padded 2 m.minute ++
    padded 2 m.second

theorem isDate_iff {m : Moment} (hwhole : m.fraction = 0) :
    isDate m = true ↔ 1 ≤ m.year ∧ m.Valid := by
  rw [isDate, decide_eq_true_iff]
  constructor
  · rintro ⟨hyear, hmonth, hday, hhour, hminute, hsecond⟩
    exact ⟨hyear, hmonth, hday, hhour, hminute, hsecond, by rw [hwhole]; exact ⟨le_rfl, one_pos⟩⟩
  · rintro ⟨hyear, hmonth, hday, hhour, hminute, hsecond, -⟩
    exact ⟨hyear, hmonth, hday, hhour, hminute, hsecond⟩

theorem fits_cons {d : Directive} {ds : List Directive} {n : Nat} {text : List Char} {ns : List Nat}
    (hrange : d.least ≤ n ∧ n ≤ d.most) (hn : n < 100) (h : Fits ds text ns) :
    Fits (d :: ds) (padded 2 n ++ text) (n :: ns) := by
  obtain ⟨a, b, htext, -, hread⟩ := exists_two hn
  have hvalue := readNat_padded 2 n
  rw [htext] at hvalue
  exact ⟨a, b, text, ns, by rw [htext]; rfl, by rw [hvalue], by rwa [hvalue], h⟩

theorem length_stampText {m : Moment} (hvalid : m.Valid) (hyear : m.year ≤ 9999) :
    (stampText m).length = 14 := by
  have hday := hvalid.day_le
  obtain ⟨hmonth, -, hhour, hminute, hsecond, -⟩ := hvalid
  simp only [stampText, List.length_append]
  rw [length_padded (by decide) (by omega : m.year < 10 ^ 4),
    length_padded (by decide) (by omega : m.month < 10 ^ 2),
    length_padded (by decide) (by omega : m.day < 10 ^ 2),
    length_padded (by decide) (by omega : m.hour < 10 ^ 2),
    length_padded (by decide) (by omega : m.minute < 10 ^ 2),
    length_padded (by decide) (by omega : m.second < 10 ^ 2)]

theorem strptime_stampText {m : Moment} (hvalid : m.Valid) (hyear : 1 ≤ m.year ∧ m.year ≤ 9999)
    (hwhole : m.fraction = 0) : strptime (stampText m) = some m := by
  have hdate := (isDate_iff hwhole).mpr ⟨hyear.1, hvalid⟩
  have hday := hvalid.day_le
  obtain ⟨hmonth, ⟨hday₁, -⟩, hhour, hminute, hsecond, -⟩ := hvalid
  have hfits : Fits directives (padded 2 m.month ++ (padded 2 m.day ++ (padded 2 m.hour ++
      (padded 2 m.minute ++ (padded 2 m.second ++ []))))) [m.month, m.day, m.hour, m.minute, m.second] := by
    refine fits_cons hmonth (by omega) (fits_cons ⟨hday₁, hday⟩ (by omega)
      (fits_cons ⟨Nat.zero_le _, ?_⟩ (by omega) (fits_cons ⟨Nat.zero_le _, ?_⟩ (by omega)
        (fits_cons ⟨Nat.zero_le _, ?_⟩ (by omega) ⟨rfl, rfl⟩))))
    · exact Nat.le_of_lt_succ hhour
    · exact Nat.le_of_lt_succ hminute
    · exact Nat.le_of_lt_succ (Nat.lt_of_lt_of_le hsecond (by decide))
  have hlength : (padded 4 m.year).length = 4 := length_padded (by decide) (by omega)
  have hvalue := readNat_padded 4 m.year
  have htext : stampText m = padded 4 m.year ++ (padded 2 m.month ++ (padded 2 m.day ++
      (padded 2 m.hour ++ (padded 2 m.minute ++ (padded 2 m.second ++ []))))) := by
    simp only [stampText, List.append_assoc, List.append_nil]
  obtain ⟨y₁, y₂, y₃, y₄, hyears⟩ : ∃ y₁ y₂ y₃ y₄, padded 4 m.year = [y₁, y₂, y₃, y₄] := by
    match padded 4 m.year, hlength with
    | [y₁, y₂, y₃, y₄], _ => exact ⟨y₁, y₂, y₃, y₄, rfl⟩
  rw [hyears] at hvalue
  rw [htext, hyears]
  show (match readAll directives (padded 2 m.month ++ (padded 2 m.day ++ (padded 2 m.hour ++
      (padded 2 m.minute ++ (padded 2 m.second ++ []))))) with
    | some ([month, day, hour, minute, second], []) =>
      if isDate ⟨readNat [y₁, y₂, y₃, y₄], month, day, hour, minute, second, 0⟩ = true then
        some (⟨readNat [y₁, y₂, y₃, y₄], month, day, hour, minute, second, 0⟩ : Moment)
      else none
    | _ => none) = some m
  rw [readAll_of_fits hfits, hvalue, ← hwhole]
  exact if_pos hdate

theorem padded_two {a b : Char} (ha : isAsciiDigit a = true) (hb : isAsciiDigit b = true) :
    padded 2 (readNat [a, b]) = [a, b] :=
  padded_readNat (isDigits_cons.mpr ⟨ha, isDigits_cons.mpr ⟨hb, rfl⟩⟩) rfl (by decide)

/-- The date that is read is printed as the digits it was read from. -/
theorem stampText_of_strptime {head : List Char} {m : Moment} (hlength : head.length = 14)
    (hdigits : isDigits head = true) (h : strptime head = some m) :
    stampText m = head ∧ m.Valid ∧ (1 ≤ m.year ∧ m.year ≤ 9999) ∧ m.fraction = 0 := by
  unfold strptime at h
  split at h
  · next y₁ y₂ y₃ y₄ rest =>
    split at h
    · next month day hour minute second hread =>
      dsimp only at h
      rw [Option.ite_none_right_eq_some] at h
      obtain ⟨hdate, hm⟩ := h
      have hwhole : m.fraction = 0 := by rw [← Option.some.inj hm]
      rw [Option.some.inj hm] at hdate
      obtain ⟨hyear, hvalid⟩ := (isDate_iff hwhole).mp hdate
      have hsplit : isDigits ([y₁, y₂, y₃, y₄] ++ rest) = true := hdigits
      rw [isDigits, List.all_append, Bool.and_eq_true] at hsplit
      have hrest : rest.length = 2 * directives.length := by
        simp only [List.length_cons] at hlength
        have hfive : 2 * directives.length = 10 := rfl
        omega
      obtain ⟨-, hfits⟩ := readAll_eq_some hread
      obtain ⟨m₁, m₂, rest₁, ns₁, rfl, hns₁, -, hfits₁⟩ := hfits hrest rfl
      obtain ⟨d₁, d₂, rest₂, ns₂, rfl, rfl, -, hfits₂⟩ := hfits₁
      obtain ⟨h₁, h₂, rest₃, ns₃, rfl, rfl, -, hfits₃⟩ := hfits₂
      obtain ⟨n₁, n₂, rest₄, ns₄, rfl, rfl, -, hfits₄⟩ := hfits₃
      obtain ⟨s₁, s₂, rest₅, ns₅, rfl, rfl, -, rfl, rfl⟩ := hfits₄
      simp only [List.cons.injEq] at hns₁
      obtain ⟨rfl, rfl, rfl, rfl, rfl, -⟩ := hns₁
      have hyears : isDigits [y₁, y₂, y₃, y₄] = true := hsplit.1
      have hlt : readNat [y₁, y₂, y₃, y₄] < 10 ^ 4 := readNat_lt hyears
      have hprinted : padded 4 (readNat [y₁, y₂, y₃, y₄]) = [y₁, y₂, y₃, y₄] :=
        padded_readNat hyears rfl (by decide)
      have hpairs : isDigits [m₁, m₂, d₁, d₂, h₁, h₂, n₁, n₂, s₁, s₂] = true := hsplit.2
      simp only [isDigits_cons] at hpairs
      obtain ⟨hm₁, hm₂, hd₁, hd₂, hh₁, hh₂, hn₁, hn₂, hs₁, hs₂, -⟩ := hpairs
      refine ⟨?_, hvalid, ⟨hyear, ?_⟩, hwhole⟩
      · rw [← Option.some.inj hm, stampText]
        dsimp only
        rw [hprinted, padded_two hm₁ hm₂, padded_two hd₁ hd₂, padded_two hh₁ hh₂, padded_two hn₁ hn₂,
          padded_two hs₁ hs₂]
        rfl
      · rw [← Option.some.inj hm]
        exact Nat.le_of_lt_succ hlt
    · cases h
  · cases h

/-! ## The table of a name -/

theorem not_dash_of_word {c : Char} (h : isWordChar c = true) : c ≠ '-' := by
  rintro rfl
  exact absurd h (by decide)

theorem word_of_table {c : Char} (h : isTableChar c = true) : isWordChar c = true := by
  rw [isTableChar, Bool.or_eq_true, Bool.or_eq_true] at h
  show (((c.isUpper || c.isLower) || c.isDigit) || c == '_') = true
  rcases h with (h | h) | h
  · rw [h]
    simp
  · rw [h]
    simp
  · rw [h]
    simp

theorem dashed_of_word {c : Char} (h : isWordChar c = true) : isDashed c = true := by
  rw [isDashed, h]
  rfl

theorem tableAt_of_ne {c : Char} (text : List Char) (h : c ≠ '-') : tableAt (c :: text) = none := by
  unfold tableAt
  split
  · next heq => exact absurd (List.cons.inj heq).1 h
  · rfl

section

variable {word table id rest : List Char}

theorem dropWhile_ne_dash (hid : id.all isWordChar = true) (text : List Char) :
    (id ++ '.' :: rest).dropWhile isTableChar ≠ '-' :: text := by
  induction id with
  | nil => exact fun h => absurd (List.cons.inj h).1 (by decide)
  | cons c id ih =>
    rw [List.all_cons, Bool.and_eq_true] at hid
    rw [List.cons_append, List.dropWhile_cons]
    split
    · exact ih hid.2
    · exact fun h => not_dash_of_word hid.1 (List.cons.inj h).1

/-- Behind the last dash there is no table. -/
theorem tableAt_id (hid : id.all isWordChar = true) : tableAt ('-' :: (id ++ '.' :: rest)) = none := by
  rw [tableAt]
  split
  · next text heq => exact absurd heq (dropWhile_ne_dash hid text)
  · rfl

/-- Behind the last dash but one the name ends in a word. -/
theorem dashedTable_word (hword : word.all isWordChar = true) :
    dashedTable (word ++ '.' :: rest) = none := by
  induction word with
  | nil => rfl
  | cons c word ih =>
    rw [List.all_cons, Bool.and_eq_true] at hword
    have hnone : tableAt (word ++ '.' :: rest) = none := by
      cases word with
      | nil => exact tableAt_of_ne rest (by decide)
      | cons d word =>
        rw [List.all_cons, Bool.and_eq_true] at hword
        exact tableAt_of_ne _ (not_dash_of_word hword.2.1)
    rw [List.cons_append, dashedTable, if_pos (dashed_of_word hword.1), ih hword.2]
    exact hnone

theorem dashedTable_word_id (hword : word.all isWordChar = true) (hid : id.all isWordChar = true) :
    dashedTable (word ++ '-' :: (id ++ '.' :: rest)) = none := by
  induction word with
  | nil =>
    rw [List.nil_append, dashedTable, if_pos (by decide), dashedTable_word hid]
    cases id with
    | nil => exact tableAt_of_ne rest (by decide)
    | cons d id =>
      rw [List.all_cons, Bool.and_eq_true] at hid
      exact tableAt_of_ne _ (not_dash_of_word hid.1)
  | cons c word ih =>
    rw [List.all_cons, Bool.and_eq_true] at hword
    have hnone : tableAt (word ++ '-' :: (id ++ '.' :: rest)) = none := by
      cases word with
      | nil => exact tableAt_id hid
      | cons d word =>
        rw [List.all_cons, Bool.and_eq_true] at hword
        exact tableAt_of_ne _ (not_dash_of_word hword.2.1)
    rw [List.cons_append, dashedTable, if_pos (dashed_of_word hword.1), ih hword.2]
    exact hnone

theorem span_chars {p : Char → Bool} {c : Char} {text : List Char} (htext : text.all p = true)
    (hc : p c = false) (rest : List Char) :
    (text ++ c :: rest).takeWhile p = text ∧ (text ++ c :: rest).dropWhile p = c :: rest := by
  refine Lexing.span_append (List.all_eq_true.mp htext) fun c' hc' => ?_
  cases hc'
  exact hc

theorem tableAt_table (htable : table ≠ [] ∧ table.all isTableChar = true)
    (hid : id ≠ [] ∧ id.all isWordChar = true) :
    tableAt ('-' :: (table ++ '-' :: (id ++ (extension ++ rest)))) = some table := by
  obtain ⟨htake, hdrop⟩ := span_chars htable.2 (by decide : isTableChar '-' = false)
    (id ++ (extension ++ rest))
  obtain ⟨hword, hext⟩ := span_chars hid.2 (by decide : isWordChar '.' = false)
    (extension.tail ++ rest)
  have hdot : extension ++ rest = '.' :: (extension.tail ++ rest) := rfl
  rw [← hdot] at hword hext
  rw [tableAt, hdrop, htake]
  show (if table ≠ [] ∧ (id ++ (extension ++ rest)).takeWhile isWordChar ≠ [] ∧
      extension <+: (id ++ (extension ++ rest)).dropWhile isWordChar then some table else none) = _
  rw [hword, hext]
  exact if_pos ⟨htable.1, hid.1, List.prefix_append _ _⟩

/-- The table is the second part from behind, however many dashes are in front. -/
theorem dashedTable_middle {middle : List Char} (hmiddle : middle ≠ [] ∧ middle.all isDashed = true)
    (htable : table ≠ [] ∧ table.all isTableChar = true) (hid : id ≠ [] ∧ id.all isWordChar = true) :
    dashedTable (middle ++ '-' :: (table ++ '-' :: (id ++ (extension ++ rest)))) = some table := by
  have htables : table.all isWordChar = true :=
    List.all_eq_true.mpr fun c hc => word_of_table (List.all_eq_true.mp htable.2 c hc)
  -- No later dash begins a table.
  have hback : dashedTable ('-' :: (table ++ '-' :: (id ++ (extension ++ rest)))) = none := by
    have hnone : dashedTable (table ++ '-' :: (id ++ (extension ++ rest))) = none :=
      dashedTable_word_id htables hid.2
    rw [dashedTable, if_pos (by decide), hnone]
    obtain ⟨c, table, rfl⟩ := List.exists_cons_of_ne_nil htable.1
    rw [List.all_cons, Bool.and_eq_true] at htables
    exact tableAt_of_ne _ (not_dash_of_word htables.1)
  induction middle with
  | nil => exact absurd rfl hmiddle.1
  | cons c middle ih =>
    obtain ⟨-, hchars⟩ := hmiddle
    rw [List.all_cons, Bool.and_eq_true] at hchars
    rw [List.cons_append, dashedTable, if_pos hchars.1]
    cases middle with
    | nil =>
      rw [List.nil_append, hback]
      exact tableAt_table htable hid
    | cons d middle => rw [ih ⟨List.cons_ne_nil _ _, hchars.2⟩]

theorem eq_of_tableAt {text table : List Char} (h : tableAt text = some table) :
    ∃ id rest, text = '-' :: (table ++ '-' :: (id ++ (extension ++ rest))) ∧
      (table ≠ [] ∧ table.all isTableChar = true) ∧ id ≠ [] ∧ id.all isWordChar = true := by
  unfold tableAt at h
  split at h
  · next text =>
    split at h
    · next rest hdrop =>
      rw [Option.ite_none_right_eq_some] at h
      obtain ⟨⟨htable, hid, back, hback⟩, hsome⟩ := h
      rw [← Option.some.inj hsome]
      refine ⟨rest.takeWhile isWordChar, back, ?_, ⟨htable, List.all_takeWhile⟩, hid, List.all_takeWhile⟩
      rw [hback, List.takeWhile_append_dropWhile, ← hdrop, List.takeWhile_append_dropWhile]
    · cases h
  · cases h

theorem eq_of_dashedTable {text table : List Char} (h : dashedTable text = some table) :
    ∃ middle back, text = middle ++ back ∧ (middle ≠ [] ∧ middle.all isDashed = true) ∧
      tableAt back = some table := by
  induction text with
  | nil => cases h
  | cons c text ih =>
    rw [dashedTable, Option.ite_none_right_eq_some] at h
    obtain ⟨hc, h⟩ := h
    split at h
    · next found hfound =>
      rw [Option.some.inj h] at hfound
      obtain ⟨middle, back, hsplit, ⟨-, hmiddle⟩, hback⟩ := ih hfound
      refine ⟨c :: middle, back, by rw [hsplit]; rfl, ⟨List.cons_ne_nil _ _, ?_⟩, hback⟩
      rw [List.all_cons, hc, hmiddle]
      rfl
    · refine ⟨[c], text, rfl, ⟨List.cons_ne_nil _ _, ?_⟩, h⟩
      rw [List.all_cons, hc]
      rfl

end

/-! ## Names -/

/-- The parts of a name. -/
structure ExportName where
  moment : Moment
  nanos : Nat
  extra : List Char
  word : List Char
  middle : List Char
  table : List Char
  id : List Char
  valid : moment.Valid
  year : 1 ≤ moment.year ∧ moment.year ≤ 9999
  whole : moment.fraction = 0
  nanos_lt : nanos < 1000000000
  extra_digits : extra.length = 10 ∧ isDigits extra = true
  word_chars : word ≠ [] ∧ word.all isWordChar = true
  middle_chars : middle ≠ [] ∧ middle.all isDashed = true
  table_chars : table ≠ [] ∧ table.all isTableChar = true
  id_chars : id ≠ [] ∧ id.all isWordChar = true

namespace ExportName

variable (n : ExportName)

def date : List Char := stampText n.moment ++ (padded 9 n.nanos ++ n.extra)

/-- In front of the extension. -/
def text : List Char :=
  n.date ++ '-' :: (n.word ++ '-' :: (n.middle ++ '-' :: (n.table ++ '-' :: (n.id ++ extension))))

def unixNanos : Int := Util.unixNanos n.moment n.nanos

theorem length_nanos : (padded 9 n.nanos).length = 9 := length_padded (by decide) n.nanos_lt

theorem length_date : n.date.length = 33 := by
  rw [date, List.length_append, List.length_append, length_stampText n.valid n.year.2, n.length_nanos,
    n.extra_digits.1]

theorem isDigits_date : isDigits n.date = true := by
  refine isDigits_append ?_ (isDigits_append (isDigits_padded _ _) n.extra_digits.2)
  have happend := fun w k ds (h : isDigits ds = true) => isDigits_append h (isDigits_padded w k)
  exact happend _ _ _ (happend _ _ _ (happend _ _ _ (happend _ _ _ (happend _ _ _ (isDigits_padded _ _)))))

theorem parsePreciseDate_date : parsePreciseDate n.date = (n.unixNanos, true) := by
  have hhead : n.date.take 14 = stampText n.moment :=
    List.take_left' (length_stampText n.valid n.year.2)
  have hnanos : (n.date.drop 14).take 9 = padded 9 n.nanos := by
    rw [date, List.drop_left' (length_stampText n.valid n.year.2), List.take_left' n.length_nanos]
  have hlong : ¬ n.date.length < 23 := by
    rw [n.length_date]
    decide
  rw [parsePreciseDate, if_neg hlong, hhead, strptime_stampText n.valid n.year n.whole, hnanos,
    readNat_padded]
  rfl

theorem exportMatch_text (rest : List Char) : exportMatch (n.text ++ rest) = some (n.date, n.table) := by
  have hname : n.text ++ rest = n.date ++ '-' :: (n.word ++ '-' :: (n.middle ++ '-' :: (n.table ++
      '-' :: (n.id ++ (extension ++ rest))))) := by
    simp only [text, List.append_assoc, List.cons_append]
  obtain ⟨htake, hdrop⟩ := span_chars n.word_chars.2 (by decide : isWordChar '-' = false)
    (n.middle ++ '-' :: (n.table ++ '-' :: (n.id ++ (extension ++ rest))))
  have hfront : (n.text ++ rest).take 33 = n.date := by
    rw [hname]
    exact List.take_left' n.length_date
  have hback : (n.text ++ rest).drop 33 = '-' :: (n.word ++ '-' :: (n.middle ++ '-' :: (n.table ++
      '-' :: (n.id ++ (extension ++ rest))))) := by
    rw [hname]
    exact List.drop_left' n.length_date
  rw [exportMatch, hfront, hback, if_pos ⟨n.length_date, n.isDigits_date⟩]
  show (match (n.word ++ '-' :: (n.middle ++ '-' :: (n.table ++ '-' :: (n.id ++ (extension ++
      rest))))).dropWhile isWordChar with
    | '-' :: back =>
      if (n.word ++ '-' :: (n.middle ++ '-' :: (n.table ++ '-' :: (n.id ++ (extension ++
          rest))))).takeWhile isWordChar ≠ [] then
        (dashedTable back).map fun table => (n.date, table)
      else none
    | _ => none) = _
  rw [hdrop, htake]
  show (if n.word ≠ [] then (dashedTable (n.middle ++ '-' :: (n.table ++ '-' :: (n.id ++ (extension ++
    rest))))).map fun table => (n.date, table) else none) = _
  rw [if_pos n.word_chars.1, dashedTable_middle n.middle_chars n.table_chars n.id_chars]
  rfl

/-! ### Files -/

theorem parse_of_text {file : List Char} (h : n.text <+: basename file) :
    parseCrdbExportFile file = ⟨n.table, n.unixNanos, true⟩ := by
  obtain ⟨rest, hname⟩ := h
  rw [parseCrdbExportFile, ← hname, n.exportMatch_text rest]
  dsimp only
  rw [n.parsePreciseDate_date]

theorem ne_slash : '/' ∉ n.text := by
  have hdate : '/' ∉ n.date := fun h =>
    absurd (bounds_of_isAsciiDigit (List.all_eq_true.mp n.isDigits_date _ h)).1 (by decide)
  have hword : '/' ∉ n.word := fun h =>
    absurd (List.all_eq_true.mp n.word_chars.2 _ h) (by decide)
  have hmiddle : '/' ∉ n.middle := fun h =>
    absurd (List.all_eq_true.mp n.middle_chars.2 _ h) (by decide)
  have htable : '/' ∉ n.table := fun h =>
    absurd (List.all_eq_true.mp n.table_chars.2 _ h) (by decide)
  have hid : '/' ∉ n.id := fun h => absurd (List.all_eq_true.mp n.id_chars.2 _ h) (by decide)
  have hext : '/' ∉ extension := by decide
  simp [text, hdate, hword, hmiddle, htable, hid, hext]

end ExportName

/-- What a file name stands behind: nothing, or a path that ends in a slash. -/
def IsDirectory (directory : List Char) : Prop := directory = [] ∨ ∃ path, directory = path ++ ['/']

theorem basename_append {directory name : List Char} (h : IsDirectory directory) (hname : '/' ∉ name) :
    basename (directory ++ name) = name := by
  have hall : name.reverse.all (fun c => decide (c ≠ '/')) = true := by
    refine List.all_eq_true.mpr fun c hc => decide_eq_true fun hslash => hname ?_
    rw [← hslash]
    exact List.mem_reverse.mp hc
  rcases h with rfl | ⟨path, rfl⟩
  · rw [List.nil_append, basename, List.rtakeWhile, List.takeWhile_eq_self_iff.mpr (List.all_eq_true.mp hall),
      List.reverse_reverse]
  · have hspan := (span_chars hall (by decide : (fun c => decide (c ≠ '/')) '/' = false) path.reverse).1
    have hreverse : (path ++ ['/'] ++ name).reverse = name.reverse ++ '/' :: path.reverse := by simp
    rw [basename, List.rtakeWhile, hreverse, hspan, List.reverse_reverse]

theorem eq_of_exportMatch {name date table : List Char} (h : exportMatch name = some (date, table)) :
    (date.length = 33 ∧ isDigits date = true) ∧ ∃ word middle id rest,
      name = date ++ '-' :: (word ++ '-' :: (middle ++ '-' :: (table ++ '-' :: (id ++ (extension ++ rest))))) ∧
        (word ≠ [] ∧ word.all isWordChar = true) ∧ (middle ≠ [] ∧ middle.all isDashed = true) ∧
        (table ≠ [] ∧ table.all isTableChar = true) ∧ id ≠ [] ∧ id.all isWordChar = true := by
  unfold exportMatch at h
  rw [Option.ite_none_right_eq_some] at h
  obtain ⟨hdate, h⟩ := h
  split at h
  · next text hdrop =>
    split at h
    · next back hback =>
      rw [Option.ite_none_right_eq_some] at h
      obtain ⟨hword, h⟩ := h
      obtain ⟨found, hfound, hpair⟩ := Option.map_eq_some_iff.mp h
      obtain ⟨rfl, rfl⟩ := Prod.mk.inj hpair
      obtain ⟨middle, tail, rfl, hmiddle, htail⟩ := eq_of_dashedTable hfound
      obtain ⟨id, rest, rfl, htable, hid⟩ := eq_of_tableAt htail
      refine ⟨hdate, text.takeWhile isWordChar, middle, id, rest, ?_, ⟨hword, List.all_takeWhile⟩,
        hmiddle, htable, hid⟩
      rw [← hback, List.takeWhile_append_dropWhile, ← hdrop, List.take_append_drop]
    · cases h
  · cases h

/-- A file that is read has a name of the parts. -/
theorem exists_exportName {file : List Char} (h : (parseCrdbExportFile file).ok = true) :
    ∃ n : ExportName, n.text <+: basename file := by
  unfold parseCrdbExportFile at h
  split at h
  · cases h
  · next date table hmatch =>
    obtain ⟨⟨hlength, hdigits⟩, word, middle, id, rest, hname, hword, hmiddle, htable, hid⟩ :=
      eq_of_exportMatch hmatch
    unfold parsePreciseDate at h
    rw [if_neg (by omega)] at h
    cases hm : strptime (date.take 14) with
    | none =>
      rw [hm] at h
      cases h
    | some m =>
      have hall := List.all_eq_true.mp hdigits
      have hhead : (date.take 14).length = 14 := by
        rw [List.length_take]
        omega
      have hnine : ((date.drop 14).take 9).length = 9 := by
        rw [List.length_take, List.length_drop]
        omega
      have hnanos : isDigits ((date.drop 14).take 9) = true :=
        List.all_eq_true.mpr fun c hc => hall c (List.mem_of_mem_drop (List.mem_of_mem_take hc))
      have hlt := readNat_lt hnanos
      rw [hnine] at hlt
      obtain ⟨hstamp, hvalid, hyear, hwhole⟩ := stampText_of_strptime hhead
        (List.all_eq_true.mpr fun c hc => hall c (List.mem_of_mem_take hc)) hm
      refine ⟨⟨m, readNat ((date.drop 14).take 9), date.drop 23, word, middle, table, id, hvalid, hyear,
        hwhole, hlt, ⟨?_, ?_⟩, hword, hmiddle, htable, hid⟩, rest, ?_⟩
      · rw [List.length_drop]
        omega
      · exact List.all_eq_true.mpr fun c hc => hall c (List.mem_of_mem_drop hc)
      · have hdate : stampText m ++ (padded 9 (readNat ((date.drop 14).take 9)) ++ date.drop 23) = date := by
          have hback : date.drop 23 = (date.drop 14).drop 9 := by rw [List.drop_drop]
          rw [hstamp, padded_readNat hnanos hnine (by decide), hback, List.take_append_drop,
            List.take_append_drop]
        rw [ExportName.text, ExportName.date, hdate, hname]
        simp only [List.append_assoc, List.cons_append]

/-! ## The order of the names -/

namespace ExportName

variable (n : ExportName)

/-- The date, the time and the nanoseconds. -/
def stamp : List Char := stampText n.moment ++ padded 9 n.nanos

theorem length_stamp : n.stamp.length = 23 := by
  rw [stamp, List.length_append, length_stampText n.valid n.year.2, n.length_nanos]

theorem isDigits_stamp : isDigits n.stamp = true := by
  have hdate := n.isDigits_date
  rw [date, ← List.append_assoc, isDigits, List.all_append, Bool.and_eq_true] at hdate
  exact hdate.1

theorem readNat_stamp : readNat n.stamp = n.moment.stampNumber * 1000000000 + n.nanos := by
  obtain ⟨hmonth, -, hhour, hminute, hsecond, -⟩ := n.valid
  have hday := n.valid.day_le
  have htwo : ∀ k, k < 100 → (padded 2 k).length = 2 := fun k hk => length_padded (by decide) hk
  rw [stamp, readNat_append _ (isDigits_padded _ _), n.length_nanos, readNat_padded, stampText,
    readNat_append _ (isDigits_padded _ _), readNat_append _ (isDigits_padded _ _),
    readNat_append _ (isDigits_padded _ _), readNat_append _ (isDigits_padded _ _),
    readNat_append _ (isDigits_padded _ _), htwo _ (by omega), htwo _ (by omega), htwo _ (by omega),
    htwo _ (by omega), htwo _ (by omega)]
  simp only [readNat_padded]
  rfl

theorem take_of_text {file : List Char} (h : n.text <+: basename file) :
    (basename file).take 23 = n.stamp := by
  obtain ⟨rest, hname⟩ := h
  have hsplit : n.text ++ rest = n.stamp ++ (n.extra ++ '-' :: (n.word ++ '-' :: (n.middle ++ '-' ::
      (n.table ++ '-' :: (n.id ++ (extension ++ rest)))))) := by
    simp only [text, date, stamp, List.append_assoc, List.cons_append]
  rw [← hname, hsplit]
  exact List.take_left' n.length_stamp

theorem charLt_stamp_iff (n' : ExportName) :
    CharLt n.stamp n'.stamp ↔ n.unixNanos < n'.unixNanos := by
  have hnanos := n.nanos_lt
  have hnanos' := n'.nanos_lt
  rw [charLt_iff n.isDigits_stamp n'.isDigits_stamp (n.length_stamp.trans n'.length_stamp.symm),
    readNat_stamp, readNat_stamp, unixNanos, unixNanos, Util.unixNanos, Util.unixNanos]
  have hless := n.valid.seconds_lt_iff n'.valid
  have hmore := n'.valid.seconds_lt_iff n.valid
  omega

end ExportName

/-- A name is read as its table and its time, in any directory; what does not begin with a name is
refused; and files are in the order of their first 23 digits. -/
theorem parseCrdbExportFile_exact :
    (∀ (n : ExportName) directory, IsDirectory directory →
      parseCrdbExportFile (directory ++ n.text) = ⟨n.table, n.unixNanos, true⟩) ∧
    (∀ file, (parseCrdbExportFile file).ok = false ↔ ¬ ∃ n : ExportName, n.text <+: basename file) ∧
    ∀ file file', (parseCrdbExportFile file).ok = true → (parseCrdbExportFile file').ok = true →
      (CharLt ((basename file).take 23) ((basename file').take 23) ↔
        (parseCrdbExportFile file).unixNanos < (parseCrdbExportFile file').unixNanos) := by
  refine ⟨fun n directory hdirectory => ?_, fun file => ?_, fun file file' hok hok' => ?_⟩
  · refine n.parse_of_text ?_
    rw [basename_append hdirectory n.ne_slash]
  · rw [← Bool.not_eq_true, not_iff_not]
    refine ⟨exists_exportName, ?_⟩
    rintro ⟨n, hn⟩
    rw [n.parse_of_text hn]
  · obtain ⟨n, hn⟩ := exists_exportName hok
    obtain ⟨n', hn'⟩ := exists_exportName hok'
    rw [n.take_of_text hn, n'.take_of_text hn', n.parse_of_text hn, n'.parse_of_text hn']
    exact n.charLt_stamp_iff n'

def userExport : ExportName where
  moment := ⟨2024, 7, 13, 16, 50, 52, 0⟩
  nanos := 280802460
  extra := "0000000000".toList
  word := "c7274317e9a4a9cb".toList
  middle := "1-651-00000000".toList
  table := "user".toList
  id := "2".toList
  valid := ⟨by decide, by decide, by decide, by decide, by decide, ⟨le_refl 0, zero_lt_one⟩⟩
  year := by decide
  whole := rfl
  nanos_lt := by decide
  extra_digits := by decide
  word_chars := by decide
  middle_chars := by decide
  table_chars := by decide
  id_chars := by decide

/-- A name in a directory, and one that is a nanosecond later in another one. -/
theorem parseCrdbExportFile_exact_users :
    let file := "export/".toList ++ userExport.text
    let later := "202407131650522808024610000000000-a-1-order-2.ndjson.gz".toList
    parseCrdbExportFile file = ⟨"user".toList, userExport.unixNanos, true⟩ ∧
      (parseCrdbExportFile later).ok = true ∧
      (CharLt ((basename file).take 23) ((basename later).take 23) ↔
        (parseCrdbExportFile file).unixNanos < (parseCrdbExportFile later).unixNanos) := by
  intro file later
  have hlater : (parseCrdbExportFile later).ok = true := by decide +kernel
  obtain ⟨hread, -, hordered⟩ := parseCrdbExportFile_exact
  have hfile := hread userExport "export/".toList (.inr ⟨"export".toList, rfl⟩)
  exact ⟨hfile, hlater, hordered file later (congrArg CrdbExportFile.ok hfile) hlater⟩

end Util
end Eds
