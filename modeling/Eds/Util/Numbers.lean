import Eds.Lexing.JsonText
import Eds.Util.Loads
import Mathlib.Algebra.Order.Field.Rat
import Mathlib.Tactic.Ring

/-!
# Numbers, written and read back

`NumberText` is a decimal number as it is written: an integer without leading zeros, a
fraction and an exponent.  Its text is a JSON number, and `value` is the number that it
stands for.  The shortest text of a finite double is of this kind, and whatever shape the
formatter for JSON gives it, the value is the same; so the nearest double is the same too.
-/

namespace Eds
namespace Util

open Lexing.Json

/-! ## Digits -/

def digitsValue (ds : List (Fin 10)) : Nat := ds.foldl (fun n d => 10 * n + d) 0

theorem digitsValue_append (a b : List (Fin 10)) :
    digitsValue (a ++ b) = digitsValue a * 10 ^ b.length + digitsValue b := by
  induction b using List.reverseRecOn with
  | nil => simp [digitsValue]
  | append_singleton b d ih =>
    have hstep : ∀ l : List (Fin 10), digitsValue (l ++ [d]) = 10 * digitsValue l + d := fun l => by
      simp [digitsValue, List.foldl_append]
    rw [← List.append_assoc, hstep, hstep, ih, List.length_append, List.length_singleton, pow_succ]
    ring

theorem digitsValue_lt (ds : List (Fin 10)) : digitsValue ds < 10 ^ ds.length := by
  induction ds using List.reverseRecOn with
  | nil => exact Nat.one_pos
  | append_singleton ds d ih =>
    have hlast : digitsValue [d] = d := by simp [digitsValue]
    have hd := d.isLt
    rw [digitsValue_append, hlast, List.length_append, List.length_singleton, pow_one, pow_succ]
    omega

theorem digitsValue_zeros (n : Nat) : digitsValue (zeros n) = 0 := by
  induction n with
  | zero => rfl
  | succ n ih =>
    rw [zeros, List.replicate_succ', digitsValue_append]
    rw [zeros] at ih
    rw [ih]
    rfl

theorem digitsValue_dropWhile (ds : List (Fin 10)) :
    digitsValue (ds.dropWhile (· = 0)) = digitsValue ds := by
  induction ds with
  | nil => rfl
  | cons d ds ih =>
    rw [List.dropWhile_cons]
    split
    · next hd =>
      rw [ih, of_decide_eq_true hd]
      rfl
    · rfl

theorem digit?_digitChar : ∀ d : Fin 10, digit? (digitChar d) = some d := by decide

theorem isDigit_digitChar : ∀ d : Fin 10, isDigit (digitChar d) = true := by decide

theorem filterMap_digitChar (ds : List (Fin 10)) : (ds.map digitChar).filterMap digit? = ds := by
  induction ds with
  | nil => rfl
  | cons d ds ih => rw [List.map_cons, List.filterMap_cons, digit?_digitChar, ih]

theorem readNat_digitChar (ds : List (Fin 10)) : readNat (ds.map digitChar) = digitsValue ds := by
  rw [readNat, filterMap_digitChar]
  rfl

theorem all_digitChar {p : Char → Prop} (hp : ∀ d : Fin 10, p (digitChar d)) (ds : List (Fin 10)) :
    ∀ c ∈ ds.map digitChar, p c := by
  intro c hc
  obtain ⟨d, _, rfl⟩ := List.mem_map.mp hc
  exact hp d

/-! ## The values of texts -/

def unit (neg : Bool) : ℚ := if neg then -1 else 1

/-- The number that a decimal stands for. -/
def Decimal.value (d : Decimal) : ℚ :=
  unit d.neg * digitsValue d.digits * 10 ^ d.exponent

def minusText (neg : Bool) : List Char := if neg then ['-'] else []

def pointText (fraction : List (Fin 10)) : List Char :=
  if fraction = [] then [] else '.' :: fraction.map digitChar

/-- Nothing, or a letter, a sign or none, and digits. -/
def IsExponentText (w : List Char) : Prop :=
  w = [] ∨ ∃ sgn ds, w = 'e' :: (sgn ++ ds.map digitChar) ∧
    (sgn = [] ∨ sgn = ['+'] ∨ sgn = ['-']) ∧ ds ≠ []

theorem isExponentText_nil : IsExponentText [] := Or.inl rfl

/-- The digits of a number other than zero begin with one that is not zero. -/
def Leading (ds : List (Fin 10)) : Prop := ∃ d rest, ds = d :: rest ∧ d.val ≠ 0

theorem Leading.ne_nil {ds : List (Fin 10)} (h : Leading ds) : ds ≠ [] := by
  obtain ⟨d, rest, rfl, -⟩ := h
  exact List.cons_ne_nil d rest

theorem Leading.append {ds : List (Fin 10)} (h : Leading ds) (rest : List (Fin 10)) :
    Leading (ds ++ rest) := by
  obtain ⟨d, ds, rfl, hd⟩ := h
  exact ⟨d, ds ++ rest, rfl, hd⟩

theorem Leading.take {ds : List (Fin 10)} (h : Leading ds) {n : Nat} (hn : 0 < n) :
    Leading (ds.take n) := by
  obtain ⟨d, ds, rfl, hd⟩ := h
  cases n with
  | zero => omega
  | succ n => exact ⟨d, ds.take n, rfl, hd⟩

theorem whole_zero : zeros 1 = [0] ∨ Leading (zeros 1) := Or.inl rfl

structure NumberText where
  neg : Bool
  whole : List (Fin 10)
  fraction : List (Fin 10)
  exponent : List Char
  whole_ok : whole = [0] ∨ Leading whole
  exponent_ok : IsExponentText exponent

namespace NumberText

variable (x : NumberText)

def text : List Char :=
  minusText x.neg ++ x.whole.map digitChar ++ pointText x.fraction ++ x.exponent

def value : ℚ :=
  unit x.neg * digitsValue (x.whole ++ x.fraction) *
    10 ^ (readInt (x.exponent.drop 1) - x.fraction.length)

theorem digits_digitChar {ds : List (Fin 10)} (h : ds ≠ []) : Digits (ds.map digitChar) :=
  ⟨fun hnil => h (List.map_eq_nil_iff.mp hnil), all_digitChar isDigit_digitChar ds⟩

theorem isWhole : IsWhole (x.whole.map digitChar) := by
  have hzero : ∀ d : Fin 10, digitChar d = '0' → d.val = 0 := by decide
  rcases x.whole_ok with h | ⟨d, ds, h, hd⟩
  · rw [h]
    exact Or.inl rfl
  · rw [h]
    refine Or.inr ⟨digits_digitChar (List.cons_ne_nil d ds), fun hhead => hd ?_⟩
    exact hzero d (Option.some.inj hhead)

theorem isFraction : IsFraction (pointText x.fraction) := by
  unfold pointText
  split
  · exact Or.inl rfl
  · next hne => exact Or.inr ⟨_, rfl, digits_digitChar hne⟩

theorem isExponent : IsExponent x.exponent := by
  rcases x.exponent_ok with h | ⟨sgn, ds, h, hsgn, hne⟩
  · exact Or.inl h
  · exact Or.inr ⟨'e', sgn, ds.map digitChar, h, Or.inl rfl, hsgn, digits_digitChar hne⟩

theorem isMinus : IsMinus (minusText x.neg) := by
  cases x.neg with
  | true => exact Or.inr rfl
  | false => exact Or.inl rfl

/-- The text is a JSON number. -/
theorem reads : Reads (.number x.text) x.text :=
  reads_number x.isMinus x.isWhole x.isFraction x.isExponent

/-! ## Read from its text -/

def mantissa : List Char := minusText x.neg ++ x.whole.map digitChar ++ pointText x.fraction

theorem text_eq : x.text = x.mantissa ++ x.exponent := rfl

theorem mem_mantissa {c : Char} (h : c ∈ x.mantissa) : c = '-' ∨ c = '.' ∨ ∃ d, c = digitChar d := by
  rw [mantissa, List.mem_append, List.mem_append, minusText, pointText] at h
  rcases h with (h | h) | h
  · split at h
    · exact Or.inl (List.mem_singleton.mp h)
    · cases h
  · obtain ⟨d, -, hd⟩ := List.mem_map.mp h
    exact Or.inr (Or.inr ⟨d, hd.symm⟩)
  · split at h
    · cases h
    · rcases List.mem_cons.mp h with h | h
      · exact Or.inr (Or.inl h)
      · obtain ⟨d, -, hd⟩ := List.mem_map.mp h
        exact Or.inr (Or.inr ⟨d, hd.symm⟩)

theorem digitChar_ne {c : Char} (h : isDigit c = false) (d : Fin 10) : digitChar d ≠ c :=
  ne_of_isDigit (isDigit_digitChar d) h

theorem span_mantissa : x.text.takeWhile (· ≠ 'e') = x.mantissa ∧
    x.text.dropWhile (· ≠ 'e') = x.exponent := by
  refine Lexing.span_append (fun c hc => ?_) fun c hc => ?_
  · rcases x.mem_mantissa hc with rfl | rfl | ⟨d, rfl⟩
    · rfl
    · rfl
    · exact decide_eq_true (digitChar_ne rfl d)
  · rcases x.exponent_ok with h | ⟨sgn, ds, h, -⟩
    · rw [h] at hc
      cases hc
    · rw [h] at hc
      cases hc
      rfl

theorem span_whole : x.mantissa.takeWhile (· ≠ '.') = minusText x.neg ++ x.whole.map digitChar ∧
    x.mantissa.dropWhile (· ≠ '.') = pointText x.fraction := by
  refine Lexing.span_append (fun c hc => ?_) fun c hc => ?_
  · rcases List.mem_append.mp hc with hc | hc
    · rw [minusText] at hc
      split at hc
      · rw [List.mem_singleton.mp hc]
        rfl
      · cases hc
    · exact decide_eq_true (all_digitChar (p := (· ≠ '.')) (digitChar_ne rfl) _ c hc)
  · rw [pointText] at hc
    split at hc
    · cases hc
    · cases hc
      rfl

theorem filterMap_minusText (neg : Bool) : (minusText neg).filterMap digit? = [] := by
  cases neg <;> rfl

theorem filterMap_pointText (fraction : List (Fin 10)) :
    (pointText fraction).filterMap digit? = fraction := by
  unfold pointText
  split
  · next h =>
    rw [h]
    rfl
  · have hpoint : digit? '.' = none := by decide
    rw [List.filterMap_cons, hpoint, filterMap_digitChar]

theorem startsWith_minus : (String.ofList x.text).startsWith "-" = x.neg := by
  have hne : x.whole ≠ [] := by
    rcases x.whole_ok with h | h
    · rw [h]
      exact List.cons_ne_nil _ _
    · exact h.ne_nil
  have hminus : ['-'] <+: x.text ↔ x.neg = true := by
    rw [text_eq, mantissa, minusText]
    cases x.neg with
    | true => simp
    | false =>
      cases hwhole : x.whole with
      | nil => exact absurd hwhole hne
      | cons d ds => simpa using (digitChar_ne (c := '-') rfl d).symm
  have hstart : (String.ofList x.text).startsWith "-" = true ↔ ['-'] <+: x.text := by
    rw [String.startsWith_string_iff, String.toList_ofList]
    simp
  rw [Bool.eq_iff_iff, hstart, hminus]

theorem ofRepr_text : Decimal.ofRepr (String.ofList x.text) =
    ⟨x.neg, (x.whole ++ x.fraction).dropWhile (· = 0),
      readInt (x.exponent.drop 1) - x.fraction.length⟩ := by
  rw [Decimal.ofRepr, startsWith_minus, String.toList_ofList, x.span_mantissa.1, x.span_mantissa.2,
    x.span_whole.1, x.span_whole.2, List.filterMap_append, filterMap_minusText, filterMap_digitChar,
    filterMap_pointText, List.nil_append]

/-- The digits and the exponent that the formatters read stand for the number. -/
theorem value_ofRepr : (Decimal.ofRepr (String.ofList x.text)).value = x.value := by
  rw [ofRepr_text, Decimal.value, digitsValue_dropWhile, value]

theorem exponent_of_text {r : List Char} {c : Char}
    (h : x.text = r ++ ['e', '-', '0', c]) :
    x.mantissa = r ∧ x.exponent = ['e', '-', '0', c] ∧ ∃ d, c = digitChar d := by
  have hmantissa : 'e' ∉ x.mantissa := fun hmem => by
    rcases x.mem_mantissa hmem with h | h | ⟨d, h⟩
    · cases h
    · cases h
    · exact digitChar_ne rfl d h.symm
  rw [text_eq] at h
  rcases x.exponent_ok with hexp | ⟨sgn, ds, hexp, hsgn, hne⟩
  · rw [hexp, List.append_nil] at h
    refine absurd ?_ hmantissa
    rw [h]
    exact List.mem_append_right r List.mem_cons_self
  · have hrest : 'e' ∉ sgn ++ ds.map digitChar := fun hmem => by
      rcases List.mem_append.mp hmem with hmem | hmem
      · rcases hsgn with rfl | rfl | rfl
        · cases hmem
        · exact absurd (List.mem_singleton.mp hmem) (by decide)
        · exact absurd (List.mem_singleton.mp hmem) (by decide)
      · exact all_digitChar (p := (· ≠ 'e')) (digitChar_ne rfl) _ _ hmem rfl
    rw [hexp] at h
    obtain ⟨hleft, -, hright⟩ := (List.append_cons_inj_of_notMem hmantissa hrest).mp h
    refine ⟨hleft, ?_, ?_⟩
    · rw [hexp, hright]
    · have hlast : (sgn ++ ds.map digitChar).getLast? = some c := by rw [hright]; rfl
      rw [List.getLast?_append_of_ne_nil _ (digits_digitChar hne).1, List.getLast?_map] at hlast
      obtain ⟨d, -, hd⟩ := Option.map_eq_some_iff.mp hlast
      exact ⟨d, hd.symm⟩

end NumberText

/-! ## Written -/

/-- The text is the one of a number that is worth `q`. -/
def Writes (q : ℚ) (text : List Char) : Prop := ∃ y : NumberText, text = y.text ∧ y.value = q

/-- The fraction does not end in a zero. -/
def NumberText.Tidy (y : NumberText) : Prop := ∀ d, y.fraction.getLast? = some d → d.val ≠ 0

theorem NumberText.tidy_of_ne {y : NumberText} (h : y.fraction.getLast? ≠ some 0) : y.Tidy :=
  fun _ hlast hzero => h (hlast.trans (congrArg some (Fin.ext hzero)))

/-- Without an exponent, and without a zero at the end of the fraction. -/
def WritesPlain (q : ℚ) (text : List Char) : Prop :=
  ∃ y : NumberText, text = y.text ∧ y.value = q ∧ y.Tidy ∧ y.exponent = []

theorem WritesPlain.writes {q : ℚ} {text : List Char} (h : WritesPlain q text) : Writes q text := by
  obtain ⟨y, htext, hvalue, -, -⟩ := h
  exact ⟨y, htext, hvalue⟩

theorem toList_sign (neg : Bool) : (sign neg).toList = minusText neg := by cases neg <;> rfl

theorem toList_digitText (ds : List (Fin 10)) : (digitText ds).toList = ds.map digitChar :=
  String.toList_ofList

theorem toList_pointed (whole fraction : List (Fin 10)) : (pointed whole fraction).toList =
    whole.map digitChar ++ pointText (fraction.rdropWhile (· = 0)) := by
  unfold pointed pointText
  split
  · next h => rw [h, if_pos rfl, toList_digitText, List.append_nil]
  · next d ds h =>
    rw [h, if_neg (List.cons_ne_nil _ _), String.toList_append, String.toList_append,
      toList_digitText, toList_digitText, List.append_assoc]
    rfl

/-- Without the zeros at the end of the fraction it is the same number. -/
theorem digitsValue_rdropWhile (whole fraction : List (Fin 10)) :
    (digitsValue (whole ++ fraction.rdropWhile (· = 0)) : ℚ) *
        10 ^ (0 - ((fraction.rdropWhile (· = 0)).length : ℤ)) =
      digitsValue (whole ++ fraction) * 10 ^ (0 - (fraction.length : ℤ)) := by
  induction fraction using List.reverseRecOn with
  | nil => rfl
  | append_singleton fraction d ih =>
    rw [List.rdropWhile_concat]
    split
    · next hd =>
      have hstep : digitsValue (whole ++ (fraction ++ [d])) = digitsValue (whole ++ fraction) * 10 := by
        rw [← List.append_assoc, digitsValue_append, of_decide_eq_true hd]
        rfl
      have hpow : (10 : ℚ) ^ (0 - ((fraction ++ [d]).length : ℤ)) =
          10 ^ (0 - (fraction.length : ℤ)) * 10⁻¹ := by
        rw [← zpow_sub_one₀ (by decide), List.length_append, List.length_singleton]
        congr 1
        push_cast
        ring
      rw [ih, hstep, hpow]
      push_cast
      ring
    · rfl

theorem getLast?_rdropWhile (fraction : List (Fin 10)) :
    (fraction.rdropWhile (· = 0)).getLast? ≠ some 0 := by
  intro h
  have hne : fraction.rdropWhile (· = 0) ≠ [] := fun hnil => by
    rw [hnil] at h
    cases h
  rw [List.getLast?_eq_some_getLast hne] at h
  exact List.rdropWhile_last_not _ fraction hne (decide_eq_true (Option.some.inj h))

theorem writes_pointed (neg : Bool) {whole : List (Fin 10)} (fraction : List (Fin 10))
    (hwhole : whole = [0] ∨ Leading whole) :
    WritesPlain (unit neg * digitsValue (whole ++ fraction) * 10 ^ (0 - (fraction.length : ℤ)))
      (sign neg ++ pointed whole fraction).toList := by
  refine ⟨⟨neg, whole, fraction.rdropWhile (· = 0), [], hwhole, Or.inl rfl⟩, ?_, ?_,
    NumberText.tidy_of_ne (getLast?_rdropWhile fraction), rfl⟩
  · rw [String.toList_append, toList_sign, toList_pointed, NumberText.text, List.append_nil,
      List.append_assoc]
  · rw [mul_assoc, ← digitsValue_rdropWhile, ← mul_assoc]
    rfl

theorem leading_ofRepr (text : String) (hne : (Decimal.ofRepr text).digits ≠ []) :
    Leading (Decimal.ofRepr text).digits := by
  have hhead := List.head?_dropWhile_not (fun d : Fin 10 => decide (d = 0))
    (((text.toList.takeWhile (· ≠ 'e')).takeWhile (· ≠ '.')).filterMap digit? ++
      ((text.toList.takeWhile (· ≠ 'e')).dropWhile (· ≠ '.')).filterMap digit?)
  cases hdigits : (Decimal.ofRepr text).digits with
  | nil => exact absurd hdigits hne
  | cons d ds =>
    rw [show List.dropWhile (fun d : Fin 10 => decide (d = 0)) _ = d :: ds from hdigits] at hhead
    exact ⟨d, ds, rfl, fun hzero => of_decide_eq_false hhead (Fin.ext hzero)⟩

theorem writes_zero (neg : Bool) : Writes 0 (sign neg ++ "0").toList := by
  have h := writes_pointed neg [] (Or.inl (Eq.refl [0]))
  have hzero : digitsValue ([0] ++ []) = 0 := rfl
  rw [hzero, Nat.cast_zero, mul_zero, zero_mul] at h
  exact h.writes

theorem Decimal.value_of_nil {d : Decimal} (h : d.digits = []) : d.value = 0 := by
  rw [value, h]
  simp [digitsValue]

theorem writes_formatF {text : String} (hfinite : isFinite text = true)
    (hne : (Decimal.ofRepr text).digits ≠ []) :
    WritesPlain (Decimal.ofRepr text).value (formatF text).toList := by
  have hleading := leading_ofRepr text hne
  rw [isFinite, Bool.and_eq_true, Bool.not_eq_true', Bool.not_eq_true'] at hfinite
  rw [formatF, hfinite.1, hfinite.2, if_neg Bool.false_ne_true, if_neg Bool.false_ne_true,
    Decimal.value]
  generalize Decimal.ofRepr text = d at hne hleading
  dsimp only
  rw [if_neg hne]
  split
  · next hexponent =>
    have h := writes_pointed d.neg [] (Or.inr (hleading.append (zeros d.exponent.toNat)))
    have hvalue : (digitsValue (d.digits ++ zeros d.exponent.toNat) : ℚ) =
        digitsValue d.digits * 10 ^ d.exponent := by
      rw [digitsValue_append, digitsValue_zeros, zeros, List.length_replicate, Nat.add_zero]
      push_cast
      rw [← zpow_natCast, Int.toNat_of_nonneg hexponent]
    rw [List.append_nil, hvalue] at h
    simpa [mul_assoc, pointed] using h
  · next hexponent =>
    have hplaces : ((-d.exponent).toNat : ℤ) = -d.exponent := Int.toNat_of_nonneg (by omega)
    split
    · next hless =>
      have h := writes_pointed d.neg (d.digits.drop (d.digits.length - (-d.exponent).toNat))
        (Or.inr (hleading.take (Nat.sub_pos_of_lt hless)))
      have hlength : (0 - ((d.digits.drop (d.digits.length - (-d.exponent).toNat)).length : ℤ)) =
          d.exponent := by
        rw [List.length_drop]
        omega
      rw [List.take_append_drop, hlength] at h
      exact h
    · next hless =>
      have h := writes_pointed d.neg (zeros ((-d.exponent).toNat - d.digits.length) ++ d.digits)
        (Or.inl rfl)
      have hlength : (0 - ((zeros ((-d.exponent).toNat - d.digits.length) ++ d.digits).length : ℤ)) =
          d.exponent := by
        rw [List.length_append, zeros, List.length_replicate]
        omega
      have hvalue : digitsValue ([0] ++ (zeros ((-d.exponent).toNat - d.digits.length) ++ d.digits)) =
          digitsValue d.digits := by
        rw [digitsValue_append, digitsValue_append, digitsValue_zeros]
        simp [digitsValue]
      rw [hvalue, hlength] at h
      exact h

/-- A zero in front of the last digit of a negative exponent is left out. -/
theorem writes_trimExponent (x : NumberText) : ∃ y : NumberText,
    (trimExponent (String.ofList x.text)).toList = y.text ∧ y.value = x.value ∧
      y.fraction = x.fraction := by
  unfold trimExponent
  split
  · next c rest h =>
    rw [String.toList_ofList] at h
    have htext : x.text = rest.reverse ++ ['e', '-', '0', c] := by
      rw [← List.reverse_reverse x.text, h]
      simp
    obtain ⟨hmantissa, hexponent, d, rfl⟩ := x.exponent_of_text htext
    have hexp : IsExponentText ['e', '-', digitChar d] :=
      Or.inr ⟨['-'], [d], rfl, Or.inr (Or.inr rfl), List.cons_ne_nil _ _⟩
    refine ⟨⟨x.neg, x.whole, x.fraction, _, x.whole_ok, hexp⟩, ?_, ?_, rfl⟩
    · rw [NumberText.text_eq]
      show _ = x.mantissa ++ _
      rw [hmantissa]
      simp
    · rw [NumberText.value, NumberText.value, hexponent]
      show unit x.neg * _ * 10 ^ (readInt ['-', digitChar d] - _) = _
      have hread : readInt ['-', digitChar d] = readInt ['-', '0', digitChar d] := by
        show -((readNat ([d].map digitChar) : ℕ) : ℤ) = -((readNat ([0, d].map digitChar) : ℕ) : ℤ)
        rw [readNat_digitChar, readNat_digitChar]
        rfl
      rw [hread]
      rfl
  · exact ⟨x, String.toList_ofList, rfl, rfl⟩

/-- A finite number is written with its value. -/
theorem writes_formatJson {x : NumberText} (hfinite : isFinite (String.ofList x.text) = true) :
    ∃ out, formatJson (String.ofList x.text) = .ok out ∧ Writes x.value out.toList := by
  rw [formatJson, if_pos hfinite]
  dsimp only
  split
  · next hnil =>
    refine ⟨_, rfl, ?_⟩
    rw [← x.value_ofRepr, Decimal.value_of_nil hnil]
    exact writes_zero _
  · next hne =>
    split
    · obtain ⟨y, htext, hvalue, -⟩ := writes_trimExponent x
      exact ⟨_, rfl, y, htext, hvalue⟩
    · have h := (writes_formatF hfinite hne).writes
      rw [x.value_ofRepr] at h
      exact ⟨_, rfl, h⟩

theorem toDigits_digits (n : Nat) : ∃ ds, Nat.toDigits 10 n = ds.map digitChar ∧
    digitsValue ds = n ∧ (ds = [0] ∨ Leading ds) := by
  induction n using Nat.strongRecOn with
  | _ n ih =>
    rw [Nat.toDigits_eq_if (by decide)]
    split
    · next hlt =>
      refine ⟨[⟨n, hlt⟩], rfl, ?_, ?_⟩
      · simp [digitsValue]
      · rcases Nat.eq_zero_or_pos n with rfl | hpos
        · exact Or.inl rfl
        · exact Or.inr ⟨⟨n, hlt⟩, [], rfl, Nat.ne_of_gt hpos⟩
    · next hge =>
      obtain ⟨ds, htext, hvalue, hds⟩ := ih (n / 10) (by omega)
      have hlead : Leading ds := by
        refine hds.resolve_left fun h => ?_
        rw [h] at hvalue
        have hzero : digitsValue [0] = 0 := rfl
        omega
      refine ⟨ds ++ [⟨n % 10, Nat.mod_lt n (by decide)⟩], ?_, ?_, Or.inr (hlead.append _)⟩
      · rw [htext, List.map_append]
        rfl
      · rw [digitsValue_append, hvalue]
        simp [digitsValue]
        omega

/-- An integer is written as its digits, behind a minus if it is negative. -/
theorem exists_toString (n : Int) : ∃ ds, (toString n).toList =
    minusText (decide (n < 0)) ++ ds.map digitChar ∧ digitsValue ds = n.natAbs ∧
      (ds = [0] ∨ Leading ds) := by
  cases n with
  | ofNat m =>
    obtain ⟨ds, htext, hvalue, hds⟩ := toDigits_digits m
    refine ⟨ds, ?_, hvalue, hds⟩
    rw [← htext]
    exact String.toList_ofList
  | negSucc m =>
    obtain ⟨ds, htext, hvalue, hds⟩ := toDigits_digits (m + 1)
    refine ⟨ds, ?_, hvalue, hds⟩
    rw [← htext]
    show ("-" ++ String.ofList (Nat.toDigits 10 (m + 1))).toList = _
    rw [decide_eq_true (Int.negSucc_lt_zero m), String.toList_append]
    exact congrArg (List.cons '-') String.toList_ofList

theorem notMem_toString {c : Char} (hminus : c ≠ '-') (hdigit : isDigit c = false) (n : Int) :
    c ∉ (toString n).toList := by
  obtain ⟨ds, htext, -, -⟩ := exists_toString n
  rw [htext]
  intro hmem
  rcases List.mem_append.mp hmem with hmem | hmem
  · unfold minusText at hmem
    split at hmem
    · exact hminus (List.mem_singleton.mp hmem)
    · cases hmem
  · obtain ⟨d, -, hd⟩ := List.mem_map.mp hmem
    exact NumberText.digitChar_ne hdigit d hd

theorem writes_toString (n : Int) : Writes n (toString n).toList := by
  obtain ⟨ds, htext, hvalue, hds⟩ := exists_toString n
  refine ⟨⟨decide (n < 0), ds, [], [], hds, Or.inl rfl⟩, ?_, ?_⟩
  · rw [htext]
    simp [NumberText.text, pointText]
  · have hzero : readInt ([].drop 1) = 0 := rfl
    rw [NumberText.value, List.append_nil, hvalue, hzero, unit]
    by_cases hneg : n < 0
    · rw [if_pos (decide_eq_true hneg)]
      have habs : ((n.natAbs : Int) : ℚ) = -n := by
        rw [Int.ofNat_natAbs_of_nonpos (Int.le_of_lt hneg), Int.cast_neg]
      rw [Int.cast_natCast] at habs
      rw [habs]
      simp
    · rw [if_neg (by simpa using hneg)]
      have habs : ((n.natAbs : Int) : ℚ) = n := by
        rw [Int.natAbs_of_nonneg (Int.not_lt.mp hneg)]
      rw [Int.cast_natCast] at habs
      rw [habs]
      simp

theorem readNat_digitChars {ds : List (Fin 10)} (h : ds = [0] ∨ Leading ds) :
    readInt (ds.map digitChar) = digitsValue ds := by
  have hminus : ∀ d : Fin 10, digitChar d ≠ '-' := by decide
  cases ds with
  | nil =>
    rcases h with h | ⟨d, rest, h, -⟩
    · cases h
    · cases h
  | cons d rest =>
    rw [List.map_cons, readInt.eq_def]
    split
    · next heq => exact absurd (List.cons.inj heq).1 (hminus d)
    · rw [← List.map_cons, readNat_digitChar]

/-- An integer is read as it was written. -/
theorem readInt_toString (n : Int) : readInt (toString n).toList = n := by
  obtain ⟨ds, htext, hvalue, hds⟩ := exists_toString n
  rw [htext]
  by_cases hneg : n < 0
  · rw [decide_eq_true hneg, minusText, if_pos rfl, List.singleton_append, readInt,
      readNat_digitChar, hvalue]
    omega
  · rw [decide_eq_false hneg, minusText, if_neg Bool.false_ne_true, List.nil_append,
      readNat_digitChars hds, hvalue]
    omega

/-! ## Characters -/

/-- The characters of a number. -/
def isNumberChar (c : Char) : Bool := isDigit c || c == '-' || c == '+' || c == '.' || c == 'e'

theorem NumberText.isNumberChar_of_mem (x : NumberText) {c : Char} (h : c ∈ x.text) :
    isNumberChar c = true := by
  have hdigit : ∀ d : Fin 10, isNumberChar (digitChar d) = true := by decide
  rw [text_eq] at h
  rcases List.mem_append.mp h with h | h
  · rcases x.mem_mantissa h with rfl | rfl | ⟨d, rfl⟩
    · rfl
    · rfl
    · exact hdigit d
  · rcases x.exponent_ok with hexp | ⟨sgn, ds, hexp, hsgn, -⟩
    · rw [hexp] at h
      cases h
    · rw [hexp] at h
      rcases List.mem_cons.mp h with rfl | h
      · rfl
      · rcases List.mem_append.mp h with h | h
        · rcases hsgn with rfl | rfl | rfl
          · cases h
          · rw [List.mem_singleton.mp h]
            rfl
          · rw [List.mem_singleton.mp h]
            rfl
        · exact all_digitChar (p := fun c => isNumberChar c = true) hdigit ds c h

theorem Writes.reads {q : ℚ} {w : List Char} (h : Writes q w) : Reads (.number w) w := by
  obtain ⟨y, rfl, -⟩ := h
  exact y.reads

theorem Writes.numberChars {q : ℚ} {w : List Char} (h : Writes q w) :
    ∀ c ∈ w, isNumberChar c = true := by
  obtain ⟨y, rfl, -⟩ := h
  exact fun c hc => y.isNumberChar_of_mem hc

end Util
end Eds
