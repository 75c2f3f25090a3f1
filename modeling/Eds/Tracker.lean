import Eds.Collections.Dict
import Eds.Collections.Expiring
import Eds.Exceptions
import Eds.Lexing.Utf8Order

/-!
# The tracker

The rows of the table `kv`, and the deletion of the keys from a prefix on and before the text whose
last code point is the next.  It deletes the keys with the prefix and no others, unless the next
code point is a surrogate, which no text has, or there is none.
-/

namespace Eds
namespace Tracker

open Collections Lexing.Percent Lexing.Utf8Order

/-- A value and `expires_at` for each key. -/
abbrev Content := Dict String (Timed String)

/-- The code points of the bound. -/
def prefixUpperBound (keyPrefix : String) : Option (List Nat) :=
  match keyPrefix.toList.getLast? with
  | none => none
  | some last =>
    if 0x10FFFF ≤ last.toNat then none
    else some (keyPrefix.toList.dropLast.map Char.toNat ++ [last.toNat + 1])

/-- A parameter of a statement is bound as UTF-8. -/
def bound (text : List Nat) : Except Exn String :=
  if ∀ n ∈ text, n.isValidChar then .ok (String.ofList (text.map Char.ofNat))
  else .error (.valueError "surrogates not allowed")

/-- `key < text`, by the collation of the column. -/
def Before (key text : String) : Prop := ByteLt (utf8 key.toList) (utf8 text.toList)

instance (key text : String) : Decidable (Before key text) :=
  inferInstanceAs (Decidable (ByteLt _ _))

/-- `DELETE FROM kv WHERE`, with the number of the rows. -/
def deleteWhere (gone : String → Bool) (kv : Content) : Nat × Content :=
  (kv.keys.countP gone, kv.filterKeys fun key => !gone key)

def deleteKeysWithPrefix (keyPrefix : String) (kv : Content) : Except Exn (Nat × Content) :=
  match prefixUpperBound keyPrefix with
  | none => .ok (deleteWhere (fun key => decide ¬ Before key keyPrefix) kv)
  | some text => do
    let upper ← bound text
    .ok (deleteWhere (fun key => decide (¬ Before key keyPrefix ∧ Before key upper)) kv)

/-- The outcome of a deletion of the keys with a prefix. -/
def Exact (keyPrefix : String) (kv : Content) (r : Except Exn (Nat × Content)) : Prop :=
  ∃ kv', r = .ok (kv.keys.countP (fun key => decide (keyPrefix.toList <+: key.toList)), kv') ∧
    ∀ key, kv'.get? key = if keyPrefix.toList <+: key.toList then none else kv.get? key

/-! ## What the statement deletes -/

variable {keyPrefix : String} {kv : Content}

theorem exact_deleteWhere_iff {gone : String → Bool} :
    Exact keyPrefix kv (.ok (deleteWhere gone kv)) ↔
      ∀ key ∈ kv.keys, gone key = true ↔ keyPrefix.toList <+: key.toList := by
  constructor
  · rintro ⟨kv', hsame, hget⟩ key hkey
    obtain ⟨row, hrow⟩ := Dict.mem_keys.mp hkey
    have hkv : kv.get? key = some row := Dict.get?_eq_some.mpr hrow
    have hleft := hget key
    rw [← (Prod.mk.inj (Except.ok.inj hsame)).2, Dict.get?_filterKeys, hkv] at hleft
    by_cases hgone : gone key = true
    · rw [hgone] at hleft
      by_cases hpre : keyPrefix.toList <+: key.toList
      · exact iff_of_true hgone hpre
      · rw [if_neg hpre] at hleft
        cases hleft
    · rw [Bool.eq_false_iff.mpr hgone] at hleft
      by_cases hpre : keyPrefix.toList <+: key.toList
      · rw [if_pos hpre] at hleft
        cases hleft
      · exact iff_of_false hgone hpre
  · intro h
    refine ⟨(deleteWhere gone kv).2, ?_, fun key => ?_⟩
    · refine congrArg (fun n => Except.ok (n, (deleteWhere gone kv).2)) ?_
      exact List.countP_congr fun key hkey => (h key hkey).trans decide_eq_true_iff.symm
    · rw [deleteWhere, Dict.get?_filterKeys]
      by_cases hkey : key ∈ kv.keys
      · by_cases hpre : keyPrefix.toList <+: key.toList
        · rw [(h key hkey).mpr hpre, if_pos hpre]
          rfl
        · rw [Bool.eq_false_iff.mpr fun hgone => hpre ((h key hkey).mp hgone), if_neg hpre]
          rfl
      · have hnone : kv.get? key = none := by
          refine Option.eq_none_iff_forall_ne_some.mpr fun row hrow => hkey ?_
          exact Dict.mem_keys.mpr ⟨row, Dict.get?_eq_some.mp hrow⟩
        rw [hnone, ite_self, ite_self]

theorem before_iff (key text : String) : Before key text ↔ CharLt key.toList text.toList :=
  lex_utf8_iff key.toList text.toList

/-! ## The bound -/

theorem prefixUpperBound_of_toList {front : List Char} {last : Char}
    (h : keyPrefix.toList = front ++ [last]) :
    prefixUpperBound keyPrefix =
      if 0x10FFFF ≤ last.toNat then none
      else some (front.map Char.toNat ++ [last.toNat + 1]) := by
  rw [prefixUpperBound, h, List.getLast?_concat, List.dropLast_concat]

theorem isValidChar_toNat (c : Char) : c.toNat.isValidChar := c.valid

theorem isValidChar_next {c : Char} (h : c.toNat < 0x10FFFF) :
    (c.toNat + 1).isValidChar ↔ c.toNat ≠ 0xD7FF := by
  have hvalid := isValidChar_toNat c
  rw [Nat.isValidChar] at hvalid ⊢
  omega

theorem toNat_ofNat {n : Nat} (h : n.isValidChar) : (Char.ofNat n).toNat = n := by
  rw [Char.ofNat, dif_pos h]
  rfl

theorem map_ofNat (text : List Char) : (text.map Char.toNat).map Char.ofNat = text := by
  rw [List.map_map]
  exact (List.map_congr_left fun c _ => Char.ofNat_toNat c).trans (List.map_id text)

theorem bound_next {front : List Char} {c : Char} (h : c.toNat < 0x10FFFF) :
    bound (front.map Char.toNat ++ [c.toNat + 1]) =
      if c.toNat = 0xD7FF then .error (.valueError "surrogates not allowed")
      else .ok (String.ofList (front ++ [Char.ofNat (c.toNat + 1)])) := by
  have hall : (∀ n ∈ front.map Char.toNat ++ [c.toNat + 1], n.isValidChar) ↔
      c.toNat ≠ 0xD7FF := by
    rw [← isValidChar_next h, List.forall_mem_append, List.forall_mem_singleton]
    refine and_iff_right fun n hn => ?_
    obtain ⟨d, -, rfl⟩ := List.mem_map.mp hn
    exact isValidChar_toNat d
  rw [bound]
  by_cases hc : c.toNat = 0xD7FF
  · rw [if_neg fun h => hall.mp h hc, if_pos hc]
  · rw [if_pos (hall.mpr hc), if_neg hc, List.map_append, map_ofNat]
    rfl

/-! ## The deletion -/

/-- The prefix ends in no code point without a next one, or the keys from it on begin with it. -/
def Bounded (keyPrefix : String) (kv : Content) : Prop :=
  ∀ last, keyPrefix.toList.getLast? = some last →
    last.toNat ≠ 0xD7FF ∧
      (last.toNat = 0x10FFFF →
        ∀ key ∈ kv.keys, CharLt key.toList keyPrefix.toList ∨ keyPrefix.toList <+: key.toList)

theorem deleteKeysWithPrefix_exact_iff (keyPrefix : String) (kv : Content) :
    Exact keyPrefix kv (deleteKeysWithPrefix keyPrefix kv) ↔ Bounded keyPrefix kv := by
  rcases List.eq_nil_or_concat' keyPrefix.toList with hnil | ⟨front, last, htext⟩
  · -- Nothing is before the empty text, and everything begins with it.
    have hbound : Bounded keyPrefix kv := by
      intro last hlast
      rw [hnil] at hlast
      cases hlast
    refine iff_of_true ?_ hbound
    rw [deleteKeysWithPrefix, prefixUpperBound, hnil]
    refine exact_deleteWhere_iff.mpr fun key _ => ?_
    rw [hnil, decide_eq_true_iff]
    refine iff_of_true (fun hlt => ?_) List.nil_prefix
    rw [before_iff, hnil] at hlt
    exact not_charLt_nil hlt
  · have hbounded : Bounded keyPrefix kv ↔ last.toNat ≠ 0xD7FF ∧ (last.toNat = 0x10FFFF →
        ∀ key ∈ kv.keys, CharLt key.toList keyPrefix.toList ∨
          keyPrefix.toList <+: key.toList) := by
      rw [Bounded, htext, List.getLast?_concat]
      exact ⟨fun h => h last rfl, fun h d hd => Option.some.inj hd ▸ h⟩
    rw [hbounded, deleteKeysWithPrefix, prefixUpperBound_of_toList htext]
    by_cases hmax : 0x10FFFF ≤ last.toNat
    · have hlast : last.toNat = 0x10FFFF := by
        have hvalid := isValidChar_toNat last
        rw [Nat.isValidChar] at hvalid
        omega
      rw [if_pos hmax]
      refine exact_deleteWhere_iff.trans ?_
      have hne : last.toNat ≠ 0xD7FF := by omega
      rw [and_iff_right hne, imp_iff_right hlast]
      refine forall₂_congr fun key _ => ?_
      rw [decide_eq_true_iff, before_iff]
      constructor
      · intro h
        exact (Decidable.em _).imp_right h.mp
      · exact fun h => ⟨h.resolve_left, fun hpre => not_lt_of_prefix hpre⟩
    · rw [if_neg hmax]
      have hlast : last.toNat ≠ 0x10FFFF := by omega
      show Exact keyPrefix kv (do
        let upper ← bound (front.map Char.toNat ++ [last.toNat + 1])
        .ok (deleteWhere (fun key => decide (¬ Before key keyPrefix ∧ Before key upper)) kv)) ↔ _
      rw [bound_next (Nat.lt_of_not_le hmax)]
      by_cases hgap : last.toNat = 0xD7FF
      · rw [if_pos hgap]
        exact iff_of_false (fun ⟨_, h, _⟩ => nomatch h) fun h => h.1 hgap
      · rw [if_neg hgap]
        refine iff_of_true ?_ ⟨hgap, fun h => absurd h hlast⟩
        refine exact_deleteWhere_iff.mpr fun key _ => ?_
        have hnext : (Char.ofNat (last.toNat + 1)).toNat = last.toNat + 1 :=
          toNat_ofNat ((isValidChar_next (Nat.lt_of_not_le hmax)).mpr hgap)
        rw [decide_eq_true_iff, before_iff, before_iff, htext, String.toList_ofList]
        exact between_iff hnext front key.toList

def lastPrefix : String := String.ofList ['a', Char.ofNat 0x10FFFF]

def behind : Content := Dict.ofList [("b", ⟨"kept", none⟩)]

/-- A prefix that ends in the last code point, and a key behind all that begin with it. -/
theorem not_exact_last : ¬ Exact lastPrefix behind (deleteKeysWithPrefix lastPrefix behind) := by
  have hrun : deleteKeysWithPrefix lastPrefix behind =
      .ok (deleteWhere (fun key => decide ¬ Before key lastPrefix) behind) := by
    rw [deleteKeysWithPrefix, prefixUpperBound]
    rfl
  rw [hrun, exact_deleteWhere_iff]
  intro h
  have hgone : decide (¬ Before "b" lastPrefix) = true := by decide +kernel
  have hpre : lastPrefix.toList <+: "b".toList := (h "b" (by decide +kernel)).mp hgone
  revert hpre
  decide +kernel

end Tracker
end Eds
