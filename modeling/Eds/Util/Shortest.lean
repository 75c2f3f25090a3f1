import Eds.Util.Numbers

/-!
# The shapes of a double

`repr` prints the shortest digits of a double, in plain notation or behind an exponent.  The three
formatters print these digits in shapes of their own, and each of them is worth what the digits are
worth (`formats_exact`).

What they print is a `NumberText`, so that no zero stands in front of another digit of the integer
and no dot is left without digits; `Tidy` is that the fraction does not end in a zero.
-/

namespace Eds
namespace Util

/-! ## Doubles -/

/-- The shortest digits of a finite double other than zero, and the exponent of the first one. -/
structure Shortest where
  neg : Bool
  first : Fin 10
  rest : List (Fin 10)
  exponent : Int
  first_ne : first.val ≠ 0
  last_ne : (first :: rest).getLast? ≠ some 0

namespace Shortest

variable (x : Shortest)

def value : ℚ := unit x.neg * digitsValue (x.first :: x.rest) * 10 ^ (x.exponent - x.rest.length)

/-- `repr`: exponential below `-4` and from `16` on, and with a point otherwise. -/
def repr : String :=
  sign x.neg ++
    if x.exponent < -4 ∨ 16 ≤ x.exponent then
      (if x.rest = [] then digitText [x.first] else digitText [x.first] ++ "." ++ digitText x.rest) ++
        "e" ++ exponentText x.exponent
    else if x.exponent < 0 then "0." ++ digitText (zeros (-(x.exponent + 1)).toNat ++ x.first :: x.rest)
    else if x.rest.length ≤ x.exponent.toNat then
      digitText (x.first :: x.rest ++ zeros (x.exponent.toNat - x.rest.length)) ++ ".0"
    else
      digitText (x.first :: x.rest.take x.exponent.toNat) ++ "." ++
        digitText (x.rest.drop x.exponent.toNat)

end Shortest

/-! ## Exponents -/

theorem exponentText_digits (e : Int) : ∃ ds, (exponentText e).toList =
    (if 0 ≤ e then '+' else '-') :: ds.map digitChar ∧ ds ≠ [] ∧ digitsValue ds = e.natAbs := by
  obtain ⟨ds, htext, hvalue, hds⟩ := toDigits_digits e.natAbs
  have hne : ds ≠ [] := by
    rcases hds with rfl | hds
    · exact List.cons_ne_nil _ _
    · exact hds.ne_nil
  have hrepr : (toString e.natAbs).toList = ds.map digitChar := by
    rw [← htext]
    exact String.toList_ofList
  have hsign : (if 0 ≤ e then "+" else "-").toList = [if 0 ≤ e then '+' else '-'] := by
    split <;> rfl
  have hpad : (if e.natAbs < 10 then "0" else "").toList =
      (if e.natAbs < 10 then [0] else []).map digitChar := by
    split <;> rfl
  refine ⟨(if e.natAbs < 10 then [0] else []) ++ ds, ?_, List.append_ne_nil_of_right_ne_nil _ hne, ?_⟩
  · rw [exponentText, String.toList_append, String.toList_append, hsign, hpad, hrepr, List.map_append,
      List.append_assoc]
    rfl
  · rw [digitsValue_append, hvalue]
    split <;> simp [digitsValue]

theorem readInt_exponentText (e : Int) : readInt (exponentText e).toList = e := by
  obtain ⟨ds, htext, -, hvalue⟩ := exponentText_digits e
  have hread : readNat (ds.map digitChar) = e.natAbs := (readNat_digitChar ds).trans hvalue
  rw [htext]
  split
  · have hplus : readInt ('+' :: ds.map digitChar) = readNat (ds.map digitChar) := rfl
    rw [hplus, hread]
    omega
  · have hminus : readInt ('-' :: ds.map digitChar) = -(readNat (ds.map digitChar) : Int) := rfl
    rw [hminus, hread]
    omega

theorem isExponentText (e : Int) : IsExponentText ('e' :: (exponentText e).toList) := by
  obtain ⟨ds, htext, hne, -⟩ := exponentText_digits e
  refine Or.inr ⟨[if 0 ≤ e then '+' else '-'], ds, ?_, ?_, hne⟩
  · rw [htext]
    rfl
  · split
    · exact Or.inr (Or.inl rfl)
    · exact Or.inr (Or.inr rfl)

/-! ## The four shapes -/

namespace Shortest

variable (x : Shortest)

theorem leading : Leading (x.first :: x.rest) := ⟨x.first, x.rest, rfl, x.first_ne⟩

theorem whole_scientific : [x.first] = [0] ∨ Leading [x.first] := Or.inr ⟨x.first, [], rfl, x.first_ne⟩

theorem exponent_scientific : IsExponentText ('e' :: (exponentText x.exponent).toList) :=
  isExponentText x.exponent

theorem whole_large : x.first :: x.rest ++ zeros (x.exponent.toNat - x.rest.length) = [0] ∨
    Leading (x.first :: x.rest ++ zeros (x.exponent.toNat - x.rest.length)) :=
  Or.inr (x.leading.append _)

theorem whole_middle : x.first :: x.rest.take x.exponent.toNat = [0] ∨
    Leading (x.first :: x.rest.take x.exponent.toNat) :=
  Or.inr ⟨x.first, _, rfl, x.first_ne⟩

/-- `d.ddde+xx` -/
def scientific : NumberText where
  neg := x.neg
  whole := [x.first]
  fraction := x.rest
  exponent := 'e' :: (exponentText x.exponent).toList
  whole_ok := x.whole_scientific
  exponent_ok := x.exponent_scientific

/-- `0.000ddd` -/
def small : NumberText where
  neg := x.neg
  whole := zeros 1
  fraction := zeros (-(x.exponent + 1)).toNat ++ x.first :: x.rest
  exponent := []
  whole_ok := whole_zero
  exponent_ok := isExponentText_nil

/-- `ddd000`, perhaps with a fraction of zeros. -/
def large (fraction : Nat) : NumberText where
  neg := x.neg
  whole := x.first :: x.rest ++ zeros (x.exponent.toNat - x.rest.length)
  fraction := zeros fraction
  exponent := []
  whole_ok := x.whole_large
  exponent_ok := isExponentText_nil

/-- `dd.dd` -/
def middle : NumberText where
  neg := x.neg
  whole := x.first :: x.rest.take x.exponent.toNat
  fraction := x.rest.drop x.exponent.toNat
  exponent := []
  whole_ok := x.whole_middle
  exponent_ok := isExponentText_nil

theorem value_scientific : x.scientific.value = x.value := by
  have hread : readInt (x.scientific.exponent.drop 1) = x.exponent := readInt_exponentText x.exponent
  rw [NumberText.value, hread]
  rfl

theorem value_small (h : x.exponent < 0) : x.small.value = x.value := by
  have hdigits : digitsValue (x.small.whole ++ x.small.fraction) = digitsValue (x.first :: x.rest) := by
    show digitsValue ([0] ++ (zeros _ ++ x.first :: x.rest)) = _
    rw [digitsValue_append, digitsValue_append, digitsValue_zeros]
    simp [digitsValue]
  have hexponent : (readInt (x.small.exponent.drop 1) - x.small.fraction.length : ℤ) =
      x.exponent - x.rest.length := by
    show (0 - ((zeros (-(x.exponent + 1)).toNat ++ x.first :: x.rest).length : ℤ)) = _
    rw [List.length_append, zeros, List.length_replicate, List.length_cons]
    omega
  rw [NumberText.value, hdigits, hexponent]
  rfl

theorem value_large (hnonneg : 0 ≤ x.exponent) (h : x.rest.length ≤ x.exponent.toNat) (fraction : Nat) :
    (x.large fraction).value = x.value := by
  have hdigits : digitsValue ((x.large fraction).whole ++ (x.large fraction).fraction) =
      digitsValue (x.first :: x.rest) * 10 ^ (x.exponent.toNat - x.rest.length + fraction) := by
    show digitsValue ((x.first :: x.rest ++ zeros _) ++ zeros fraction) = _
    rw [digitsValue_append, digitsValue_append, digitsValue_zeros, digitsValue_zeros, zeros, zeros,
      List.length_replicate, List.length_replicate, pow_add]
    ring
  have hexponent : (readInt ((x.large fraction).exponent.drop 1) -
      (x.large fraction).fraction.length : ℤ) = -fraction := by
    show (0 - ((zeros fraction).length : ℤ)) = _
    rw [zeros, List.length_replicate]
    omega
  have hsplit : x.exponent - x.rest.length =
      ((x.exponent.toNat - x.rest.length + fraction : ℕ) : ℤ) + -fraction := by
    push_cast
    omega
  rw [NumberText.value, hdigits, hexponent, value, hsplit, zpow_add₀ (by norm_num), zpow_natCast]
  push_cast
  rw [mul_assoc, mul_assoc, mul_assoc]
  rfl

theorem value_middle (hnonneg : 0 ≤ x.exponent) (h : x.exponent.toNat < x.rest.length) :
    x.middle.value = x.value := by
  have hdigits : x.middle.whole ++ x.middle.fraction = x.first :: x.rest :=
    congrArg (List.cons x.first) (List.take_append_drop _ _)
  have hexponent : (readInt (x.middle.exponent.drop 1) - x.middle.fraction.length : ℤ) =
      x.exponent - x.rest.length := by
    show (0 - ((x.rest.drop x.exponent.toNat).length : ℤ)) = _
    rw [List.length_drop]
    omega
  rw [NumberText.value, hdigits, hexponent]
  rfl

/-! ## Their texts -/

theorem pointText_of_ne_nil {fraction : List (Fin 10)} (h : fraction ≠ []) :
    pointText fraction = '.' :: fraction.map digitChar := if_neg h

theorem scientific_text : (sign x.neg ++
    ((if x.rest = [] then digitText [x.first] else digitText [x.first] ++ "." ++ digitText x.rest) ++
      "e" ++ exponentText x.exponent)).toList = x.scientific.text := by
  have hmantissa : (if x.rest = [] then digitText [x.first]
      else digitText [x.first] ++ "." ++ digitText x.rest).toList =
      [x.first].map digitChar ++ pointText x.rest := by
    unfold pointText
    split
    · rw [toList_digitText, List.append_nil]
    · rw [String.toList_append, String.toList_append, toList_digitText, toList_digitText,
        List.append_assoc]
      rfl
  rw [String.toList_append, String.toList_append, String.toList_append, toList_sign, hmantissa]
  show _ = minusText x.neg ++ [x.first].map digitChar ++ pointText x.rest ++
    'e' :: (exponentText x.exponent).toList
  simp

theorem small_text : (sign x.neg ++
    ("0." ++ digitText (zeros (-(x.exponent + 1)).toNat ++ x.first :: x.rest))).toList =
      x.small.text := by
  rw [String.toList_append, String.toList_append, toList_sign, toList_digitText]
  show _ = minusText x.neg ++ [0].map digitChar ++
    pointText (zeros (-(x.exponent + 1)).toNat ++ x.first :: x.rest) ++ []
  rw [pointText_of_ne_nil (List.append_ne_nil_of_right_ne_nil _ (List.cons_ne_nil _ _)),
    List.append_nil, List.append_assoc]
  rfl

theorem large_text : (sign x.neg ++
    digitText (x.first :: x.rest ++ zeros (x.exponent.toNat - x.rest.length))).toList =
      (x.large 0).text := by
  rw [String.toList_append, toList_sign, toList_digitText]
  show _ = minusText x.neg ++ _ ++ [] ++ []
  rw [List.append_nil, List.append_nil]
  rfl

theorem dotted_text : (sign x.neg ++
    (digitText (x.first :: x.rest ++ zeros (x.exponent.toNat - x.rest.length)) ++ ".0")).toList =
      (x.large 1).text := by
  rw [String.toList_append, String.toList_append, toList_sign, toList_digitText]
  show _ = minusText x.neg ++ _ ++ ['.', '0'] ++ []
  rw [List.append_nil, List.append_assoc]
  rfl

theorem middle_text (h : x.exponent.toNat < x.rest.length) : (sign x.neg ++
    (digitText (x.first :: x.rest.take x.exponent.toNat) ++ "." ++
      digitText (x.rest.drop x.exponent.toNat))).toList = x.middle.text := by
  have hne : x.rest.drop x.exponent.toNat ≠ [] := fun hnil => by
    have hle := List.drop_eq_nil_iff.mp hnil
    omega
  rw [String.toList_append, String.toList_append, String.toList_append, toList_sign,
    toList_digitText, toList_digitText]
  show _ = minusText x.neg ++ _ ++ pointText (x.rest.drop x.exponent.toNat) ++ []
  rw [pointText_of_ne_nil hne, List.append_nil, List.append_assoc, List.append_assoc]
  rfl

/-! ## What the formatters read of `repr` -/

/-- The shape that `repr` prints. -/
def printed : NumberText :=
  if x.exponent < -4 ∨ 16 ≤ x.exponent then x.scientific
  else if x.exponent < 0 then x.small
  else if x.rest.length ≤ x.exponent.toNat then x.large 1
  else x.middle

theorem repr_eq : x.repr = String.ofList x.printed.text := by
  refine String.toList_inj.mp ?_
  rw [String.toList_ofList]
  unfold repr printed
  split
  · exact x.scientific_text
  · split
    · exact x.small_text
    · split
      · exact x.dotted_text
      · next h => exact x.middle_text (Nat.lt_of_not_le h)

theorem value_printed : x.printed.value = x.value := by
  unfold printed
  split
  · exact x.value_scientific
  · split
    · next h => exact x.value_small h
    · next h =>
      have hnonneg : 0 ≤ x.exponent := Int.not_lt.mp h
      split
      · next hle => exact x.value_large hnonneg hle 1
      · next hlt => exact x.value_middle hnonneg (Nat.lt_of_not_le hlt)

theorem dropWhile_zeros (n : Nat) (ds : List (Fin 10)) :
    (zeros n ++ ds).dropWhile (· = 0) = ds.dropWhile (· = 0) := by
  induction n with
  | zero => rfl
  | succ n ih => exact ih

theorem first_ne_zero : x.first ≠ 0 := fun h => x.first_ne (congrArg Fin.val h)

/-- A shape is read as its digits and its exponent, without zeros in front. -/
theorem ofRepr_of_digits {y : NumberText} (hneg : y.neg = x.neg) (front n : Nat)
    (hdigits : y.whole ++ y.fraction = zeros front ++ (x.first :: x.rest ++ zeros n))
    (hexponent : readInt (y.exponent.drop 1) - y.fraction.length = x.exponent - x.rest.length - n) :
    Decimal.ofRepr (String.ofList y.text) =
      ⟨x.neg, x.first :: x.rest ++ zeros n, x.exponent - x.rest.length - n⟩ := by
  have hdrop : (x.first :: x.rest ++ zeros n).dropWhile (· = 0) = x.first :: x.rest ++ zeros n :=
    List.dropWhile_cons_of_neg (by simpa using x.first_ne_zero)
  rw [y.ofRepr_text, hneg, hdigits, dropWhile_zeros, hdrop, hexponent]

/-- What stands behind the digits are zeros. -/
theorem ofRepr_repr : ∃ n : Nat, Decimal.ofRepr x.repr =
    ⟨x.neg, x.first :: x.rest ++ zeros n, x.exponent - x.rest.length - n⟩ := by
  have hnone : x.first :: x.rest ++ zeros 0 = x.first :: x.rest := List.append_nil _
  rw [repr_eq]
  unfold printed
  split
  · have hread : readInt (x.scientific.exponent.drop 1) = x.exponent := readInt_exponentText x.exponent
    refine ⟨0, x.ofRepr_of_digits rfl 0 0 (hnone.symm ▸ rfl) ?_⟩
    rw [hread, Nat.cast_zero, sub_zero]
    rfl
  · split
    · next hneg =>
      refine ⟨0, x.ofRepr_of_digits rfl ((-(x.exponent + 1)).toNat + 1) 0 (hnone.symm ▸ rfl) ?_⟩
      show (0 - ((zeros (-(x.exponent + 1)).toNat ++ x.first :: x.rest).length : ℤ)) = _
      rw [List.length_append, zeros, List.length_replicate, List.length_cons]
      omega
    · next hneg =>
      split
      · next hle =>
        refine ⟨x.exponent.toNat - x.rest.length + 1, x.ofRepr_of_digits rfl 0 _ ?_ ?_⟩
        · show (x.first :: x.rest ++ zeros _) ++ zeros 1 = _
          rw [zeros, zeros, zeros, zeros, List.append_assoc, List.replicate_append_replicate]
          rfl
        · show (0 - ((zeros 1).length : ℤ)) = _
          rw [zeros, List.length_replicate]
          omega
      · next hlt =>
        refine ⟨0, x.ofRepr_of_digits rfl 0 0 ?_ ?_⟩
        · rw [hnone]
          exact congrArg (List.cons x.first) (List.take_append_drop _ _)
        · show (0 - ((x.rest.drop x.exponent.toNat).length : ℤ)) = _
          rw [List.length_drop]
          omega

theorem not_special_repr : isNan x.repr = false ∧ isInf x.repr = false := by
  have hletter : 'n' ∉ x.repr.toList := by
    rw [repr_eq, String.toList_ofList]
    exact fun hmem => absurd (x.printed.isNumberChar_of_mem hmem) (by decide)
  have hne : ∀ text : String, 'n' ∈ text.toList → (x.repr == text) = false := by
    intro text hmem
    rw [beq_eq_false_iff_ne]
    rintro rfl
    exact hletter hmem
  refine ⟨hne "nan" (by decide), ?_⟩
  rw [isInf, hne "inf" (by decide), hne "-inf" (by decide)]
  rfl

theorem exponent_digits (n : Nat) :
    x.exponent - x.rest.length - n + ((x.first :: x.rest ++ zeros n).length : ℤ) - 1 = x.exponent := by
  rw [List.length_append, zeros, List.length_replicate, List.length_cons]
  push_cast
  omega

theorem isFinite_repr : isFinite x.repr = true := by
  rw [isFinite, x.not_special_repr.1, x.not_special_repr.2]
  rfl

theorem tidy_rest : x.rest.getLast? ≠ some 0 := by
  intro h
  have hne : x.rest ≠ [] := fun hnil => by
    rw [hnil] at h
    cases h
  refine x.last_ne ?_
  rw [← h]
  exact List.getLast?_append_of_ne_nil [x.first] hne

theorem rdropWhile_digits (n : Nat) :
    (x.first :: x.rest ++ zeros n).rdropWhile (· = 0) = x.first :: x.rest := by
  induction n with
  | zero =>
    rw [zeros, List.replicate_zero, List.append_nil, List.rdropWhile_eq_self_iff]
    intro hne hlast
    exact x.last_ne ((List.getLast?_eq_some_getLast hne).trans (congrArg some (of_decide_eq_true hlast)))
  | succ n ih =>
    rw [zeros, List.replicate_succ', ← List.append_assoc, List.rdropWhile_concat_pos _ _ _ (by decide)]
    exact ih

end Shortest

/-! ## The formatters -/

/-- The text is the one of a number that is worth `q`, without a zero at the end of the fraction. -/
def WritesTidy (q : ℚ) (text : List Char) : Prop :=
  ∃ y : NumberText, text = y.text ∧ y.value = q ∧ y.Tidy

theorem NumberText.mem_text_iff (y : NumberText) : 'e' ∈ y.text ↔ y.exponent ≠ [] := by
  have hmantissa : 'e' ∉ y.mantissa := fun hmem => by
    rcases y.mem_mantissa hmem with h | h | ⟨d, h⟩
    · cases h
    · cases h
    · exact digitChar_ne rfl d h.symm
  rw [text_eq, List.mem_append]
  rcases y.exponent_ok with hexp | ⟨sgn, ds, hexp, -, -⟩
  · rw [hexp]
    exact iff_of_false (fun h => h.elim hmantissa List.not_mem_nil) fun h => h rfl
  · rw [hexp]
    exact iff_of_true (Or.inr List.mem_cons_self) (List.cons_ne_nil _ _)

namespace Shortest

variable (x : Shortest)

theorem writes_formatF : WritesPlain x.value (formatF x.repr).toList := by
  obtain ⟨n, hread⟩ := x.ofRepr_repr
  have hne : (Decimal.ofRepr x.repr).digits ≠ [] := by
    rw [hread]
    exact List.cons_ne_nil _ _
  have hvalue : (Decimal.ofRepr x.repr).value = x.value := by
    rw [repr_eq, NumberText.value_ofRepr, value_printed]
  exact hvalue ▸ Util.writes_formatF x.isFinite_repr hne

theorem formatG_repr : formatG x.repr = sign x.neg ++ shortest x.first x.rest x.exponent := by
  obtain ⟨n, hread⟩ := x.ofRepr_repr
  rw [formatG, x.not_special_repr.1, x.not_special_repr.2, if_neg Bool.false_ne_true,
    if_neg Bool.false_ne_true, hread]
  dsimp only
  rw [exponent_digits, rdropWhile_digits]

theorem writes_formatG : WritesTidy x.value (formatG x.repr).toList ∧
    ('e' ∈ (formatG x.repr).toList ↔ x.exponent < -4 ∨ 21 ≤ x.exponent) := by
  rw [formatG_repr, shortest]
  by_cases hexp : x.exponent < -4 ∨ 21 ≤ x.exponent
  · rw [if_pos hexp, x.scientific_text, NumberText.mem_text_iff]
    exact ⟨⟨x.scientific, rfl, x.value_scientific, NumberText.tidy_of_ne x.tidy_rest⟩,
      iff_of_true (List.cons_ne_nil _ _) hexp⟩
  · have hplain : ∀ y : NumberText, y.exponent = [] → y.Tidy → y.value = x.value →
        WritesTidy x.value y.text ∧ ('e' ∈ y.text ↔ x.exponent < -4 ∨ 21 ≤ x.exponent) :=
      fun y hnil htidy hvalue =>
        ⟨⟨y, rfl, hvalue, htidy⟩, iff_of_false (fun h => y.mem_text_iff.mp h hnil) hexp⟩
    rw [if_neg hexp]
    split
    · next hneg =>
      rw [x.small_text]
      refine hplain x.small rfl (NumberText.tidy_of_ne ?_) (x.value_small hneg)
      show (zeros _ ++ x.first :: x.rest).getLast? ≠ some 0
      rw [List.getLast?_append_of_ne_nil _ (List.cons_ne_nil _ _)]
      exact x.last_ne
    · next hneg =>
      have hnonneg : 0 ≤ x.exponent := Int.not_lt.mp hneg
      split
      · next hle =>
        rw [x.large_text]
        exact hplain (x.large 0) rfl nofun (x.value_large hnonneg hle 0)
      · next hlt =>
        have hless : x.exponent.toNat < x.rest.length := Nat.lt_of_not_le hlt
        rw [x.middle_text hless]
        refine hplain x.middle rfl (NumberText.tidy_of_ne ?_) (x.value_middle hnonneg hless)
        show (x.rest.drop x.exponent.toNat).getLast? ≠ some 0
        rw [List.getLast?_drop, if_neg hlt]
        exact x.tidy_rest

theorem writes_formatJson : ∃ text, formatJson x.repr = .ok text ∧ WritesTidy x.value text.toList := by
  obtain ⟨n, hread⟩ := x.ofRepr_repr
  have hne : x.first :: x.rest ++ zeros n ≠ [] := List.cons_ne_nil _ _
  rw [formatJson, if_pos x.isFinite_repr, hread]
  dsimp only
  rw [exponent_digits, if_neg hne]
  split
  · next hexp =>
    have hprinted : x.printed = x.scientific := if_pos (by omega)
    obtain ⟨y, htext, hvalue, hfraction⟩ := writes_trimExponent x.scientific
    refine ⟨_, rfl, y, ?_, hvalue.trans x.value_scientific, ?_⟩
    · rw [repr_eq, hprinted, htext]
    · rw [NumberText.Tidy, hfraction]
      exact NumberText.tidy_of_ne (y := x.scientific) x.tidy_rest
  · obtain ⟨y, htext, hvalue, htidy, -⟩ := x.writes_formatF
    exact ⟨_, rfl, y, htext, hvalue, htidy⟩

end Shortest

/-- The texts of the three formatters. -/
theorem formats_exact (x : Shortest) :
    (WritesTidy x.value (formatF x.repr).toList ∧ 'e' ∉ (formatF x.repr).toList) ∧
    (WritesTidy x.value (formatG x.repr).toList ∧
      ('e' ∈ (formatG x.repr).toList ↔ x.exponent < -4 ∨ 21 ≤ x.exponent)) ∧
    ∃ text, formatJson x.repr = .ok text ∧ WritesTidy x.value text.toList := by
  obtain ⟨y, htext, hvalue, htidy, hplain⟩ := x.writes_formatF
  refine ⟨⟨⟨y, htext, hvalue, htidy⟩, fun hmem => ?_⟩, x.writes_formatG, x.writes_formatJson⟩
  rw [htext] at hmem
  exact y.mem_text_iff.mp hmem hplain

end Util
end Eds
