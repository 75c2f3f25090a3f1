import Eds.Numeric.Binary64
import Eds.Util.Settled

/-!
# Equal values

`==` compares an integer with a double by what they are worth, and dictionaries whatever the order
of their keys.  A settled value is equal to the value if and only if every double that is written as
an integer is worth that integer (`equal_settled_iff`): the shortest text of a double from `2 ^ 53`
on may end in zeros where the double has other digits.
-/

namespace Eds
namespace Util

open Collections Numeric

/-- What a value counts as in a comparison of numbers. -/
def worth : Json → Option ℚ
  | .bool b => some (if b then 1 else 0)
  | .int n => some n
  | .float text => if isFinite text then some (Binary64.round (Decimal.ofRepr text).value) else none
  | _ => none

def SameNumber (v w : Json) : Prop :=
  (∃ q, worth v = some q ∧ worth w = some q) ∨
    ∃ text, isInf text = true ∧ v = .float text ∧ w = .float text

mutual

/-- `v == w` -/
def Equal : Json → Json → Prop
  | .null, w => w = .null
  | .bool b, w => SameNumber (.bool b) w
  | .int n, w => SameNumber (.int n) w
  | .float text, w => SameNumber (.float text) w
  | .str s, w => w = .str s
  | .arr vs, w => ∃ ws, w = .arr ws ∧ EqualItems vs ws
  | .obj fields, w =>
    ∃ fields', w = .obj fields' ∧ fields.length = fields'.length ∧ EqualFields fields fields'

def EqualItems : List Json → List Json → Prop
  | [], ws => ws = []
  | v :: rest, ws => ∃ w rest', ws = w :: rest' ∧ Equal v w ∧ EqualItems rest rest'

def EqualFields : List (String × Json) → List (String × Json) → Prop
  | [], _ => True
  | (name, v) :: rest, fields' =>
    (∃ w, fields'.lookup name = some w ∧ Equal v w) ∧ EqualFields rest fields'

end

/-- If the double is written as an integer, it is that integer. -/
def exact : Json → Prop
  | .float text => isIntegral (floatText text) = true →
    Binary64.round (Decimal.ofRepr text).value = (Decimal.ofRepr text).value
  | _ => True

theorem sameNumber_refl {v : Json} {q : ℚ} (h : worth v = some q) : SameNumber v v :=
  Or.inl ⟨q, h, h⟩

theorem worth_float {text : String} (hfinite : isFinite text = true) :
    worth (.float text) = some (Binary64.round (Decimal.ofRepr text).value) := if_pos hfinite

/-- A double is equal to the integer that is read back if it is worth its digits. -/
theorem sameNumber_readInt {text : String} (hprinted : printed (.float text))
    (hfinite : isFinite text = true) (hintegral : isIntegral (floatText text) = true) :
    SameNumber (.float text) (.int (readInt (floatText text))) ↔
      Binary64.round (Decimal.ofRepr text).value = (Decimal.ofRepr text).value := by
  have hread := readInt_floatText hprinted hfinite hintegral
  rw [SameNumber, worth_float hfinite, worth, hread]
  constructor
  · rintro (⟨q, hround, hvalue⟩ | ⟨_, -, -, hint⟩)
    · exact Option.some.inj (hround.trans hvalue.symm)
    · cases hint
  · exact fun h => Or.inl ⟨_, congrArg some h, rfl⟩

theorem mem_settled_byKey {fields : List (String × Json)} {f : String × Json} (h : f ∈ fields) :
    (f.1, settled (sortKeys f.2)) ∈ settledFields (byKey (sortFields fields)) := by
  rw [settledFields_eq_map]
  refine List.mem_map.mpr ⟨(f.1, sortKeys f.2), ?_, rfl⟩
  rw [(byKey_perm _).mem_iff, sortFields_eq_map]
  exact List.mem_map_of_mem h

mutual

theorem equal_settled_iff : ∀ v, Printed v → Finite v → Distinct v →
    (Equal v (settled (sortKeys v)) ↔ Each exact (fun _ => True) v)
  | .null, _, _, _ => iff_of_true rfl trivial
  | .bool _, _, _, _ => iff_of_true (sameNumber_refl rfl) trivial
  | .int _, _, _, _ => iff_of_true (sameNumber_refl rfl) trivial
  | .float text, hprinted, hfinite, _ => by
    rw [sortKeys, settled, Equal, Each, exact]
    · split
      · next hintegral =>
        rw [sameNumber_readInt hprinted hfinite hintegral]
        exact ⟨fun h _ => h, fun h => h hintegral⟩
      · next hintegral =>
        exact iff_of_true (sameNumber_refl (worth_float hfinite)) fun h => absurd h hintegral
    all_goals nofun
  | .str _, _, _, _ => iff_of_true rfl trivial
  | .arr vs, hprinted, hfinite, hdistinct => by
    rw [sortKeys, settled, Equal, Each, ← equalItems_settled_iff vs hprinted hfinite hdistinct]
    simp only [Json.arr.injEq, exists_eq_left']
  | .obj fields, hprinted, hfinite, hdistinct => by
    have hkeys : ((settledFields (byKey (sortFields fields))).map Prod.fst).Nodup := by
      rw [keys_settledFields, ((byKey_perm _).map Prod.fst).nodup_iff, keys_sortFields]
      exact hdistinct.1
    have hlength : fields.length = (settledFields (byKey (sortFields fields))).length := by
      rw [settledFields_eq_map, List.length_map, (byKey_perm _).length_eq, sortFields_eq_map,
        List.length_map]
    rw [sortKeys, settled, Equal, Each,
      ← equalFields_settled_iff fields hprinted hfinite hdistinct.2 hkeys fun f => mem_settled_byKey]
    simp only [Json.obj.injEq, exists_eq_left', hlength, true_and]

theorem equalItems_settled_iff : ∀ vs, EachItem printed (fun _ => True) vs →
    EachItem finite (fun _ => True) vs → DistinctItems vs →
    (EqualItems vs (settledItems (sortItems vs)) ↔ EachItem exact (fun _ => True) vs)
  | [], _, _, _ => iff_of_true rfl trivial
  | v :: rest, hprinted, hfinite, hdistinct => by
    rw [sortItems, settledItems, EqualItems, EachItem,
      ← equal_settled_iff v hprinted.1 hfinite.1 hdistinct.1,
      ← equalItems_settled_iff rest hprinted.2 hfinite.2 hdistinct.2]
    constructor
    · rintro ⟨w, rest', heq, hv, hrest⟩
      obtain ⟨rfl, rfl⟩ := List.cons.inj heq
      exact ⟨hv, hrest⟩
    · exact fun h => ⟨_, _, rfl, h.1, h.2⟩

theorem equalFields_settled_iff : ∀ fields, EachField printed (fun _ => True) fields →
    EachField finite (fun _ => True) fields → DistinctFields fields →
    ∀ {fields'}, (fields'.map Prod.fst).Nodup →
    (∀ f ∈ fields, (f.1, settled (sortKeys f.2)) ∈ fields') →
    (EqualFields fields fields' ↔ EachField exact (fun _ => True) fields)
  | [], _, _, _, _, _, _ => iff_of_true trivial trivial
  | (name, v) :: rest, hprinted, hfinite, hdistinct, fields', hkeys, hmem => by
    obtain ⟨hfirst, hrest⟩ := List.forall_mem_cons.mp hmem
    have hlookup := (lookup_eq_some_iff hkeys).mpr hfirst
    rw [EqualFields, EachField, ← equal_settled_iff v hprinted.2.1 hfinite.2.1 hdistinct.1,
      ← equalFields_settled_iff rest hprinted.2.2 hfinite.2.2 hdistinct.2 hkeys hrest, hlookup,
      true_and]
    simp only [Option.some.injEq, exists_eq_left']

end

end Util
end Eds
