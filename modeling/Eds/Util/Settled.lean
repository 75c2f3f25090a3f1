import Eds.Drivers.Values
import Eds.Util.Compact

/-!
# Values, written and read once

A double that is written without a point and without an exponent is read back as an integer;
every other value is read back as it is.  `settled` is what is read back, up to the order of the
keys.  A settled value has the text of the value itself, unless there is a negative zero in it:
it is written `-0`, and read back as the integer zero.
-/

namespace Eds
namespace Util

open Collections Lexing.Json

/-- `-0.0` -/
def isNegativeZero (text : String) : Bool :=
  (Decimal.ofRepr text).neg && (Decimal.ofRepr text).digits.isEmpty

/-- No negative zero. -/
def signless : Json → Prop
  | .float text => isNegativeZero text = false
  | _ => True

mutual

def settled : Json → Json
  | .float text =>
    if isIntegral (floatText text) then .int (readInt (floatText text)) else .float text
  | .arr vs => .arr (settledItems vs)
  | .obj fields => .obj (settledFields fields)
  | .null => .null
  | .bool b => .bool b
  | .int n => .int n
  | .str s => .str s

def settledItems : List Json → List Json
  | [] => []
  | v :: rest => settled v :: settledItems rest

def settledFields : List (String × Json) → List (String × Json)
  | [] => []
  | (name, v) :: rest => (name, settled v) :: settledFields rest

end

theorem settledItems_eq_map (vs : List Json) : settledItems vs = vs.map settled := by
  induction vs with
  | nil => rfl
  | cons v rest ih => rw [settledItems, ih, List.map_cons]

theorem settledFields_eq_map (fields : List (String × Json)) :
    settledFields fields = fields.map fun f => (f.1, settled f.2) := by
  induction fields with
  | nil => rfl
  | cons f rest ih =>
    obtain ⟨name, v⟩ := f
    rw [settledFields, ih, List.map_cons]

theorem keys_settledFields (fields : List (String × Json)) :
    (settledFields fields).map Prod.fst = fields.map Prod.fst := by
  rw [settledFields_eq_map, List.map_map]
  rfl

mutual

theorem sortKeys_settled : ∀ v, sortKeys (settled v) = settled (sortKeys v)
  | .null => rfl
  | .bool _ => rfl
  | .int _ => rfl
  | .float text => by
    show sortKeys (settled (.float text)) = settled (.float text)
    rw [settled]
    split <;> rfl
  | .str _ => rfl
  | .arr vs => by rw [settled, sortKeys, sortKeys, settled, sortItems_settledItems vs]
  | .obj fields => by
    rw [settled, sortKeys, sortKeys, settled, sortFields_settledFields fields, settledFields_eq_map,
      settledFields_eq_map, byKey_map]

theorem sortItems_settledItems : ∀ vs, sortItems (settledItems vs) = settledItems (sortItems vs)
  | [] => rfl
  | v :: rest => by
    rw [settledItems, sortItems, sortItems, settledItems, sortKeys_settled v,
      sortItems_settledItems rest]

theorem sortFields_settledFields :
    ∀ fields, sortFields (settledFields fields) = settledFields (sortFields fields)
  | [] => rfl
  | (_, v) :: rest => by
    rw [settledFields, sortFields, sortFields, settledFields, sortKeys_settled v,
      sortFields_settledFields rest]

end

section

variable {leaf : Json → Prop} {key : String → Prop}

mutual

theorem each_settled (h : ∀ n, leaf (.int n)) : ∀ v, Each leaf key v → Each leaf key (settled v)
  | .null, hv => hv
  | .bool _, hv => hv
  | .int _, hv => hv
  | .float text, hv => by
    rw [settled]
    split
    · exact h _
    · exact hv
  | .str _, hv => hv
  | .arr vs, hv => each_settledItems h vs hv
  | .obj fields, hv => each_settledFields h fields hv

theorem each_settledItems (h : ∀ n, leaf (.int n)) :
    ∀ vs, EachItem leaf key vs → EachItem leaf key (settledItems vs)
  | [], _ => trivial
  | v :: rest, hvs => ⟨each_settled h v hvs.1, each_settledItems h rest hvs.2⟩

theorem each_settledFields (h : ∀ n, leaf (.int n)) :
    ∀ fields, EachField leaf key fields → EachField leaf key (settledFields fields)
  | [], _ => trivial
  | (_, v) :: rest, hfields =>
    ⟨hfields.1, each_settled h v hfields.2.1, each_settledFields h rest hfields.2.2⟩

end

end

section

variable {leaf : Json → Prop} {key : String → Prop}

mutual

theorem each_of_sortKeys : ∀ v, Each leaf key (sortKeys v) → Each leaf key v
  | .null, h => h
  | .bool _, h => h
  | .int _, h => h
  | .float _, h => h
  | .str _, h => h
  | .arr vs, h => each_of_sortItems vs h
  | .obj fields, h => by
    rw [sortKeys, Each, eachField_iff] at h
    exact each_of_sortFields fields fun f hf => h f ((byKey_perm _).mem_iff.mpr hf)

theorem each_of_sortItems : ∀ vs, EachItem leaf key (sortItems vs) → EachItem leaf key vs
  | [], _ => trivial
  | v :: rest, h => ⟨each_of_sortKeys v h.1, each_of_sortItems rest h.2⟩

theorem each_of_sortFields : ∀ fields, (∀ f ∈ sortFields fields, key f.1 ∧ Each leaf key f.2) →
    EachField leaf key fields
  | [], _ => trivial
  | (_, v) :: rest, h =>
    have ⟨hfirst, hrest⟩ := List.forall_mem_cons.mp h
    ⟨hfirst.1, each_of_sortKeys v hfirst.2, each_of_sortFields rest hrest⟩

end

end

/-! ## Integers among the texts of numbers -/

theorem Leading.digitsValue_pos {ds : List (Fin 10)} (h : Leading ds) : 0 < digitsValue ds := by
  obtain ⟨d, rest, rfl, hd⟩ := h
  have hsplit := digitsValue_append [d] rest
  have hsingle : digitsValue [d] = d := by simp [digitsValue]
  rw [List.singleton_append, hsingle] at hsplit
  rw [hsplit]
  exact Nat.lt_of_lt_of_le (Nat.mul_pos (Nat.pos_of_ne_zero hd) (Nat.pow_pos (by decide)))
    (Nat.le_add_right _ _)

theorem toDigits_digitsValue {ds : List (Fin 10)} (h : ds = [0] ∨ Leading ds) :
    Nat.toDigits 10 (digitsValue ds) = ds.map digitChar := by
  induction ds using List.reverseRecOn with
  | nil => exact h.elim nofun fun h => absurd rfl h.ne_nil
  | append_singleton ds d ih =>
    have hvalue : digitsValue (ds ++ [d]) = digitsValue ds * 10 + d := by
      rw [digitsValue_append]
      simp [digitsValue]
    have hd := d.isLt
    cases ds with
    | nil =>
      rw [hvalue, show digitsValue [] = 0 from rfl, Nat.zero_mul, Nat.zero_add,
        Nat.toDigits_of_lt_base hd]
      rfl
    | cons e ds =>
      have hleading : Leading (e :: ds) := by
        rcases h with h | ⟨e', rest, h, he⟩
        · cases ds <;> cases h
        · exact ⟨e, ds, rfl, by rw [(List.cons.inj h).1]; exact he⟩
      have hpos := hleading.digitsValue_pos
      rw [hvalue, Nat.toDigits_eq_if (by decide), if_neg (by omega),
        show (digitsValue (e :: ds) * 10 + d) / 10 = digitsValue (e :: ds) by omega,
        show (digitsValue (e :: ds) * 10 + d) % 10 = d by omega, ih (Or.inr hleading),
        List.map_append]
      rfl

/-- Without a point and an exponent there are only digits behind the sign. -/
theorem NumberText.integral {y : NumberText} (h : isIntegral y.text = true) :
    y.text = minusText y.neg ++ y.whole.map digitChar ∧ y.fraction = [] ∧ y.exponent = [] := by
  have hall := List.all_eq_true.mp h
  have hpoint : ¬ (isDigit '.' || '.' == '-') = true := by decide
  have he : ¬ (isDigit 'e' || 'e' == '-') = true := by decide
  have hexponent : y.exponent = [] := by
    rcases y.exponent_ok with hexp | ⟨sgn, ds, hexp, -⟩
    · exact hexp
    · refine absurd (hall 'e' ?_) he
      rw [text_eq, hexp]
      exact List.mem_append_right _ List.mem_cons_self
  have hfraction : y.fraction = [] := by
    by_contra hne
    refine hpoint (hall '.' ?_)
    rw [text_eq, mantissa, pointText, if_neg hne]
    exact List.mem_append_left _ (List.mem_append_right _ List.mem_cons_self)
  refine ⟨?_, hfraction, hexponent⟩
  rw [text, hexponent, hfraction, pointText, if_pos rfl, List.append_nil, List.append_nil]

theorem readInt_minusText {ds : List (Fin 10)} (neg : Bool) (h : ds = [0] ∨ Leading ds) :
    readInt (minusText neg ++ ds.map digitChar) =
      if neg then -(digitsValue ds : Int) else digitsValue ds := by
  cases neg with
  | true =>
    show -((readNat (ds.map digitChar) : Nat) : Int) = _
    rw [readNat_digitChar]
    rfl
  | false => exact readNat_digitChars h

/-- The integer that is read is the number that the text stands for. -/
theorem NumberText.cast_readInt {y : NumberText} (h : isIntegral y.text = true) :
    (readInt y.text : ℚ) = y.value := by
  obtain ⟨htext, hfraction, hexponent⟩ := y.integral h
  have hzero : readInt ([].drop 1) = 0 := rfl
  rw [htext, readInt_minusText y.neg y.whole_ok, value, hfraction, hexponent, hzero, unit,
    List.append_nil]
  cases y.neg <;> simp

/-- It is written with the same text, unless that is `-0`. -/
theorem NumberText.toString_readInt {y : NumberText} (h : isIntegral y.text = true)
    (hzero : y.text ≠ ['-', '0']) : (toString (readInt y.text)).toList = y.text := by
  obtain ⟨htext, -, -⟩ := y.integral h
  have hdigits := toDigits_digitsValue y.whole_ok
  rw [htext, readInt_minusText y.neg y.whole_ok]
  rw [htext] at hzero
  generalize y.neg = neg at hzero
  cases neg with
  | false =>
    show (toString (digitsValue y.whole : Int)).toList = y.whole.map digitChar
    rw [← hdigits]
    exact String.toList_ofList
  | true =>
    have hpos : digitsValue y.whole ≠ 0 := by
      intro hvalue
      rw [hvalue] at hdigits
      refine hzero ?_
      rw [← hdigits]
      rfl
    obtain ⟨n, hn⟩ := Nat.exists_eq_succ_of_ne_zero hpos
    rw [if_pos rfl]
    show _ = '-' :: y.whole.map digitChar
    rw [← hdigits, hn]
    show ("-" ++ String.ofList (Nat.toDigits 10 (n + 1))).toList = _
    rw [String.toList_append]
    exact congrArg (List.cons '-') String.toList_ofList

/-! ## Doubles -/

/-- What is relied on in `repr`: the text of a finite double is a decimal number, `0.0` or `-0.0` if
it is zero, and a double that is not written as an integer is read back. -/
structure PrintsBack (repr : List Char → String) : Prop where
  number : ∀ w, isFinite (repr w) = true → ∃ x : NumberText, repr w = String.ofList x.text
  zero : ∀ w, isFinite (repr w) = true → (Decimal.ofRepr (repr w)).digits = [] →
    repr w = "0.0" ∨ repr w = "-0.0"
  inverse : ∀ w out, formatJson (repr w) = .ok out → isIntegral out.toList = false →
    repr out.toList = repr w

section

variable (repr : List Char → String)

def fromRepr : Json → Prop
  | .float text => ∃ w, text = repr w
  | _ => True

/-- Every double is known by its `repr`. -/
def Doubles (v : Json) : Prop := Each (fromRepr repr) (fun _ => True) v

end

variable {repr : List Char → String}

theorem PrintsBack.printed (h : PrintsBack repr) {v : Json} (hv : Doubles repr v) : Printed v := by
  refine Each.imp (fun v hv => ?_) v hv
  cases v with
  | float text =>
    obtain ⟨w, rfl⟩ := hv
    exact h.number w
  | _ => trivial

/-- A finite double is written as a number that is worth the double. -/
theorem exists_floatText {text : String} (hprinted : printed (.float text))
    (hfinite : isFinite text = true) :
    ∃ y : NumberText, floatText text = y.text ∧ y.value = (Decimal.ofRepr text).value ∧
      formatJson text = .ok (String.ofList y.text) := by
  obtain ⟨x, rfl⟩ := hprinted hfinite
  obtain ⟨out, hout, y, htext, hvalue⟩ := writes_formatJson hfinite
  have hout' : out = String.ofList y.text := by rw [← htext, String.ofList_toList]
  refine ⟨y, ?_, ?_, hout' ▸ hout⟩
  · rw [floatText, hout]
    exact htext
  · rw [hvalue, x.value_ofRepr]

theorem floatText_of_zero {text : String} (hfinite : isFinite text = true)
    (hzero : (Decimal.ofRepr text).digits = []) :
    floatText text = minusText (Decimal.ofRepr text).neg ++ ['0'] := by
  have hout : formatJson text = .ok (sign (Decimal.ofRepr text).neg ++ "0") := by
    rw [formatJson, if_pos hfinite]
    exact if_pos hzero
  rw [floatText, hout]
  show (sign _ ++ "0").toList = _
  rw [String.toList_append, toList_sign]
  rfl

theorem digits_of_value {text : String} (h : (Decimal.ofRepr text).value = 0) :
    (Decimal.ofRepr text).digits = [] := by
  by_contra hne
  have hpos := (leading_ofRepr text hne).digitsValue_pos
  have hunit : unit (Decimal.ofRepr text).neg ≠ 0 := by
    rw [unit]
    split <;> decide
  rw [Decimal.value] at h
  refine mul_ne_zero (mul_ne_zero hunit ?_) (zpow_ne_zero _ (by decide)) h
  exact Nat.cast_ne_zero.mpr hpos.ne'

/-- The negative zero is written `-0`, and no other double is. -/
theorem floatText_eq_minus_zero {text : String} (hprinted : printed (.float text))
    (hfinite : isFinite text = true) : floatText text = ['-', '0'] ↔ isNegativeZero text = true := by
  rw [isNegativeZero, Bool.and_eq_true, List.isEmpty_iff]
  constructor
  · intro htext
    obtain ⟨y, hy, hvalue, -⟩ := exists_floatText hprinted hfinite
    rw [htext] at hy
    have hintegral : isIntegral y.text = true := by rw [← hy]; rfl
    have hread : readInt ['-', '0'] = 0 := rfl
    have hcast := y.cast_readInt hintegral
    rw [← hy, hread, hvalue, Int.cast_zero] at hcast
    have hdigits := digits_of_value hcast.symm
    rw [floatText_of_zero hfinite hdigits] at htext
    refine ⟨?_, hdigits⟩
    cases hneg : (Decimal.ofRepr text).neg with
    | true => rfl
    | false =>
      rw [hneg] at htext
      cases htext
  · intro h
    rw [floatText_of_zero hfinite h.2, h.1]
    rfl

/-- A double that is read back as an integer is written with the text of the integer. -/
theorem marshal_readInt {text : String} (hprinted : printed (.float text))
    (hfinite : isFinite text = true) (hintegral : isIntegral (floatText text) = true)
    (hsignless : isNegativeZero text = false) :
    formatJson text = .ok (toString (readInt (floatText text))) := by
  have hzero : floatText text ≠ ['-', '0'] := fun h => by
    rw [(floatText_eq_minus_zero hprinted hfinite).mp h] at hsignless
    cases hsignless
  obtain ⟨y, hy, -, hout⟩ := exists_floatText hprinted hfinite
  rw [hy] at hintegral hzero ⊢
  have htext := congrArg String.ofList (y.toString_readInt hintegral hzero)
  rw [String.ofList_toList] at htext
  rw [hout, htext]

/-! ## Settled values -/

mutual

/-- Without a negative zero, the settled value is written as the value. -/
theorem marshalWith_settled (sort : Bool) : ∀ v, Printed v → Finite v →
    Each signless (fun _ => True) v → marshalWith sort (settled v) = marshalWith sort v
  | .null, _, _, _ => rfl
  | .bool _, _, _, _ => rfl
  | .int _, _, _, _ => rfl
  | .float text, hprinted, hfinite, hsignless => by
    rw [settled]
    split
    · next hintegral => exact (marshal_readInt hprinted hfinite hintegral hsignless).symm
    · rfl
  | .str _, _, _, _ => rfl
  | .arr vs, hprinted, hfinite, hsignless => by
    rw [settled, marshalWith, marshalWith, marshalItemsWith_settled sort vs hprinted hfinite hsignless]
  | .obj fields, hprinted, hfinite, hsignless => by
    rw [settled, marshalWith, marshalWith,
      marshalFieldsWith_settled sort fields hprinted hfinite hsignless]

theorem marshalItemsWith_settled (sort : Bool) : ∀ vs, EachItem printed (fun _ => True) vs →
    EachItem finite (fun _ => True) vs → EachItem signless (fun _ => True) vs →
    marshalItemsWith sort (settledItems vs) = marshalItemsWith sort vs
  | [], _, _, _ => rfl
  | v :: rest, hprinted, hfinite, hsignless => by
    rw [settledItems, marshalItemsWith, marshalItemsWith,
      marshalWith_settled sort v hprinted.1 hfinite.1 hsignless.1,
      marshalItemsWith_settled sort rest hprinted.2 hfinite.2 hsignless.2]

theorem marshalFieldsWith_settled (sort : Bool) : ∀ fields, EachField printed (fun _ => True) fields →
    EachField finite (fun _ => True) fields → EachField signless (fun _ => True) fields →
    marshalFieldsWith sort (settledFields fields) = marshalFieldsWith sort fields
  | [], _, _, _ => rfl
  | (_, v) :: rest, hprinted, hfinite, hsignless => by
    rw [settledFields, marshalFieldsWith, marshalFieldsWith,
      marshalWith_settled sort v hprinted.2.1 hfinite.2.1 hsignless.2.1,
      marshalFieldsWith_settled sort rest hprinted.2.2 hfinite.2.2 hsignless.2.2]

end

mutual

/-- With a negative zero in it, it is not. -/
theorem signless_of_treeOf : ∀ v, Printed v → Finite v → treeOf (settled v) = treeOf v →
    Each signless (fun _ => True) v
  | .null, _, _, _ => trivial
  | .bool _, _, _, _ => trivial
  | .int _, _, _, _ => trivial
  | .float text, hprinted, hfinite, h => by
    show isNegativeZero text = false
    by_contra hzero
    have htext := (floatText_eq_minus_zero hprinted hfinite).mpr (Bool.eq_true_of_not_eq_false hzero)
    have hintegral : isIntegral ['-', '0'] = true := rfl
    rw [settled, treeOf, htext, if_pos hintegral, treeOf] at h
    cases h
  | .str _, _, _, _ => trivial
  | .arr vs, hprinted, hfinite, h => by
    rw [settled, treeOf, treeOf] at h
    exact signless_of_treeItems vs hprinted hfinite (Tree.arr.inj h)
  | .obj fields, hprinted, hfinite, h => by
    rw [settled, treeOf, treeOf] at h
    exact signless_of_treeFields fields hprinted hfinite (Tree.obj.inj h)

theorem signless_of_treeItems : ∀ vs, EachItem printed (fun _ => True) vs →
    EachItem finite (fun _ => True) vs → treeItems (settledItems vs) = treeItems vs →
    EachItem signless (fun _ => True) vs
  | [], _, _, _ => trivial
  | v :: rest, hprinted, hfinite, h => by
    rw [settledItems, treeItems, treeItems] at h
    obtain ⟨hv, hrest⟩ := List.cons.inj h
    exact ⟨signless_of_treeOf v hprinted.1 hfinite.1 hv,
      signless_of_treeItems rest hprinted.2 hfinite.2 hrest⟩

theorem signless_of_treeFields : ∀ fields, EachField printed (fun _ => True) fields →
    EachField finite (fun _ => True) fields → treeFields (settledFields fields) = treeFields fields →
    EachField signless (fun _ => True) fields
  | [], _, _, _ => trivial
  | (_, v) :: rest, hprinted, hfinite, h => by
    rw [settledFields, treeFields, treeFields] at h
    obtain ⟨hv, hrest⟩ := List.cons.inj h
    exact ⟨trivial, signless_of_treeOf v hprinted.2.1 hfinite.2.1 (Prod.mk.inj hv).2,
      signless_of_treeFields rest hprinted.2.2 hfinite.2.2 hrest⟩

end

mutual

/-- What is read back is the settled value. -/
theorem ofTree_settled (h : PrintsBack repr) : ∀ v, Doubles repr v → Finite v → Distinct v →
    ofTree repr (treeOf v) = settled v
  | .null, _, _, _ => rfl
  | .bool _, _, _, _ => rfl
  | .int n, _, _, _ => by
    rw [treeOf, ofTree, if_pos (isIntegral_toString n), readInt_toString, settled]
  | .float text, hdoubles, hfinite, _ => by
    rw [treeOf, ofTree, settled]
    split
    · rfl
    · next hintegral =>
      obtain ⟨w, rfl⟩ := hdoubles
      obtain ⟨y, hy, -, hout⟩ := exists_floatText (h.number w) hfinite
      rw [hy] at hintegral ⊢
      have hread := h.inverse w _ hout
      rw [String.toList_ofList] at hread
      rw [hread (Bool.eq_false_of_not_eq_true hintegral)]
  | .str _, _, _, _ => congrArg Json.str String.ofList_toList
  | .arr vs, hdoubles, hfinite, hdistinct => by
    rw [treeOf, ofTree, settled, ofItems_settled h vs hdoubles hfinite hdistinct]
  | .obj fields, hdoubles, hfinite, hdistinct => by
    have hkeys : ((settledFields fields).map Prod.fst).Nodup := by
      rw [keys_settledFields]
      exact hdistinct.1
    rw [treeOf, ofTree, settled, ofFields_settled h fields hdoubles hfinite hdistinct.2,
      Dict.items_ofList hkeys]

theorem ofItems_settled (h : PrintsBack repr) : ∀ vs, EachItem (fromRepr repr) (fun _ => True) vs →
    EachItem finite (fun _ => True) vs → DistinctItems vs →
    ofItems repr (treeItems vs) = settledItems vs
  | [], _, _, _ => rfl
  | v :: rest, hdoubles, hfinite, hdistinct => by
    rw [treeItems, ofItems, settledItems, ofTree_settled h v hdoubles.1 hfinite.1 hdistinct.1,
      ofItems_settled h rest hdoubles.2 hfinite.2 hdistinct.2]

theorem ofFields_settled (h : PrintsBack repr) :
    ∀ fields, EachField (fromRepr repr) (fun _ => True) fields →
    EachField finite (fun _ => True) fields → DistinctFields fields →
    ofFields repr (treeFields fields) = settledFields fields
  | [], _, _, _ => rfl
  | (name, v) :: rest, hdoubles, hfinite, hdistinct => by
    rw [treeFields, ofFields, settledFields, String.ofList_toList,
      ofTree_settled h v hdoubles.2.1 hfinite.2.1 hdistinct.1,
      ofFields_settled h rest hdoubles.2.2 hfinite.2.2 hdistinct.2]

end

/-! ## What a text is read as -/

mutual

theorem distinct_ofTree : ∀ t, Distinct (ofTree repr t)
  | .null => trivial
  | .bool _ => trivial
  | .number w => by
    rw [ofTree]
    split <;> trivial
  | .str _ => trivial
  | .arr items => distinct_ofItems items
  | .obj fields => by
    rw [ofTree]
    refine ⟨(Dict.ofList (ofFields repr fields)).nodup, distinctFields_iff.mpr fun f hf => ?_⟩
    exact distinct_ofFields fields f (Dict.mem_of_mem_ofList hf)

theorem distinct_ofItems : ∀ items, DistinctItems (ofItems repr items)
  | [] => trivial
  | t :: rest => ⟨distinct_ofTree t, distinct_ofItems rest⟩

theorem distinct_ofFields : ∀ fields, ∀ f ∈ ofFields repr fields, Distinct f.2
  | [] => nofun
  | (_, t) :: rest => List.forall_mem_cons.mpr ⟨distinct_ofTree t, distinct_ofFields rest⟩

end

mutual

theorem doubles_ofTree : ∀ t, Doubles repr (ofTree repr t)
  | .null => trivial
  | .bool _ => trivial
  | .number w => by
    rw [ofTree]
    split
    · trivial
    · exact ⟨w, rfl⟩
  | .str _ => trivial
  | .arr items => doubles_ofItems items
  | .obj fields => by
    rw [ofTree, Doubles, Each, eachField_iff]
    exact fun f hf => ⟨trivial, doubles_ofFields fields f (Dict.mem_of_mem_ofList hf)⟩

theorem doubles_ofItems : ∀ items, EachItem (fromRepr repr) (fun _ => True) (ofItems repr items)
  | [] => trivial
  | t :: rest => ⟨doubles_ofTree t, doubles_ofItems rest⟩

theorem doubles_ofFields : ∀ fields, ∀ f ∈ ofFields repr fields, Doubles repr f.2
  | [] => nofun
  | (_, t) :: rest => List.forall_mem_cons.mpr ⟨doubles_ofTree t, doubles_ofFields rest⟩

end

/-! ## Truth -/

theorem isFalsy_sortKeys (v : Json) : Drivers.isFalsy (sortKeys v) = Drivers.isFalsy v := by
  cases v with
  | arr vs =>
    rw [sortKeys, sortItems_eq_map, Drivers.isFalsy, Drivers.isFalsy, List.isEmpty_map]
  | obj fields =>
    rw [sortKeys, Drivers.isFalsy, Drivers.isFalsy, (byKey_perm _).isEmpty_eq, sortFields_eq_map,
      List.isEmpty_map]
  | _ => rfl

/-- Zero is read back as zero, and nothing else is. -/
theorem readInt_floatText {text : String} (hprinted : printed (.float text))
    (hfinite : isFinite text = true) (hintegral : isIntegral (floatText text) = true) :
    (readInt (floatText text) : ℚ) = (Decimal.ofRepr text).value := by
  obtain ⟨y, hy, hvalue, -⟩ := exists_floatText hprinted hfinite
  rw [hy] at hintegral ⊢
  rw [y.cast_readInt hintegral, hvalue]

theorem isFalsy_settled (h : PrintsBack repr) {v : Json} (hdoubles : Doubles repr v)
    (hfinite : Finite v) : Drivers.isFalsy (settled v) = Drivers.isFalsy v := by
  cases v with
  | float text =>
    obtain ⟨w, rfl⟩ := hdoubles
    rw [settled]
    split
    · next hintegral =>
      have hread := readInt_floatText (h.number w) hfinite hintegral
      rw [Drivers.isFalsy, Drivers.isFalsy, Bool.eq_iff_iff, Bool.or_eq_true, beq_iff_eq, beq_iff_eq,
        beq_iff_eq]
      constructor
      · intro hzero
        rw [hzero, Int.cast_zero] at hread
        exact h.zero w hfinite (digits_of_value hread.symm)
      · intro hzero
        have hdigits : (Decimal.ofRepr (repr w)).digits = [] := by rcases hzero with h | h <;> rw [h] <;> rfl
        rw [floatText_of_zero hfinite hdigits]
        cases (Decimal.ofRepr (repr w)).neg <;> rfl
    · rfl
  | arr vs =>
    rw [settled, settledItems_eq_map, Drivers.isFalsy, Drivers.isFalsy, List.isEmpty_map]
  | obj fields =>
    rw [settled, settledFields_eq_map, Drivers.isFalsy, Drivers.isFalsy, List.isEmpty_map]
  | _ => rfl

end Util
end Eds
