import Mathlib.Data.List.Basic

/-!
# Percent-encoded text

A text is encoded as the bytes of its UTF-8 form, some of them written as `%xy`.  A `Coding`
says what a byte stands for by itself and what two bytes behind a percent sign stand for, and
`Reads` relates encoded bytes to the bytes they stand for.
-/

namespace Eds
namespace Lexing
namespace Percent

/-! ## UTF-8 -/

def utf8 (text : List Char) : List UInt8 := text.flatMap String.utf8EncodeChar

def ofUtf8 (bytes : List UInt8) : Option (List Char) :=
  bytes.toByteArray.utf8Decode?.map Array.toList

theorem ofUtf8_utf8 (text : List Char) : ofUtf8 (utf8 text) = some text := by
  have hencode : (utf8 text).toByteArray = text.utf8Encode := rfl
  rw [ofUtf8, hencode, List.utf8Decode?_utf8Encode]
  rfl

theorem utf8_of_ofUtf8 {bytes : List UInt8} {text : List Char} (h : ofUtf8 bytes = some text) :
    utf8 text = bytes := by
  obtain ⟨chars, hchars, rfl⟩ := Option.map_eq_some_iff.mp h
  have hsome : bytes.toByteArray.utf8Decode?.isSome = true := by rw [hchars]; rfl
  have hget := ByteArray.utf8Encode_get_utf8Decode? (h := hsome)
  simp only [hchars, Option.get_some] at hget
  have hsame : (utf8 chars.toList).toByteArray = bytes.toByteArray := hget
  simpa using congrArg (fun b => b.data.toList) hsame

theorem utf8_injective {s t : List Char} (h : utf8 s = utf8 t) : s = t := by
  have hs := ofUtf8_utf8 s
  rw [h, ofUtf8_utf8] at hs
  exact (Option.some.inj hs).symm

theorem utf8_cons (c : Char) (text : List Char) :
    utf8 (c :: text) = String.utf8EncodeChar c ++ utf8 text := List.flatMap_cons

theorem utf8_append (s t : List Char) : utf8 (s ++ t) = utf8 s ++ utf8 t := List.flatMap_append

theorem utf8EncodeChar_of_lt {c : Char} (h : c.toNat < 128) :
    String.utf8EncodeChar c = [c.toUInt8] := by
  have hsize : c.utf8Size = 1 := by
    rw [Char.utf8Size_eq_one_iff, UInt32.le_iff_toNat_le]
    exact Nat.le_of_lt_succ h
  rw [String.utf8EncodeChar_eq_singleton hsize]
  rfl

/-- The bytes of a character outside ASCII are not ASCII. -/
theorem le_of_mem_utf8EncodeChar {c : Char} (h : 128 ≤ c.toNat) :
    ∀ b ∈ String.utf8EncodeChar c, 128 ≤ b.toNat := by
  have hval : ¬ c.val.toNat ≤ 0x7f := by
    have hsame : c.toNat = c.val.toNat := rfl
    omega
  have htail : ∀ n, 128 ≤ (UInt8.ofNat (n % 64 + 128)).toNat := by
    intro n
    rw [UInt8.toNat_ofNat']
    omega
  have hnone : ∀ b ∈ ([] : List UInt8), 128 ≤ b.toNat := fun _ hb => absurd hb List.not_mem_nil
  unfold String.utf8EncodeChar
  simp only [if_neg hval]
  split
  · refine List.forall_mem_cons.mpr ⟨?_, List.forall_mem_cons.mpr ⟨htail _, hnone⟩⟩
    rw [UInt8.toNat_ofNat']
    omega
  · split
    · refine List.forall_mem_cons.mpr ⟨?_, List.forall_mem_cons.mpr ⟨htail _,
        List.forall_mem_cons.mpr ⟨htail _, hnone⟩⟩⟩
      rw [UInt8.toNat_ofNat']
      omega
    · refine List.forall_mem_cons.mpr ⟨?_, List.forall_mem_cons.mpr ⟨htail _,
        List.forall_mem_cons.mpr ⟨htail _, List.forall_mem_cons.mpr ⟨htail _, hnone⟩⟩⟩⟩
      rw [UInt8.toNat_ofNat']
      omega

theorem toNat_toUInt8 {c : Char} (h : c.toNat < 128) : c.toUInt8.toNat = c.toNat := by
  have hsame : c.toUInt8.toNat = c.toNat % 2 ^ 8 := UInt32.toNat_toUInt8 c.val
  omega

theorem utf8_of_lt {text : List Char} (h : ∀ c ∈ text, c.toNat < 128) :
    utf8 text = text.map Char.toUInt8 := by
  induction text with
  | nil => rfl
  | cons c rest ih =>
    rw [utf8_cons, utf8EncodeChar_of_lt (h c List.mem_cons_self),
      ih fun d hd => h d (List.mem_cons_of_mem c hd)]
    rfl

/-- An ASCII byte in the encoding is a character of the text. -/
theorem utf8_split {b : UInt8} (hb : b.toNat < 128) {text : List Char} {front back : List UInt8}
    (h : utf8 text = front ++ b :: back) :
    ∃ s c t, text = s ++ c :: t ∧ c.toNat = b.toNat ∧ utf8 s = front ∧ utf8 t = back := by
  induction text generalizing front with
  | nil => simp [utf8] at h
  | cons c rest ih =>
    rw [utf8_cons] at h
    by_cases hc : c.toNat < 128
    · rw [utf8EncodeChar_of_lt hc, List.singleton_append] at h
      cases front with
      | nil =>
        obtain ⟨hbyte, hrest⟩ := List.cons.inj h
        exact ⟨[], c, rest, rfl, by rw [← hbyte, toNat_toUInt8 hc], rfl, hrest⟩
      | cons x front =>
        obtain ⟨hbyte, hrest⟩ := List.cons.inj h
        obtain ⟨s, d, t, hsplit, hd, hs, ht⟩ := ih hrest
        refine ⟨c :: s, d, t, by rw [hsplit]; rfl, hd, ?_, ht⟩
        rw [utf8_cons, utf8EncodeChar_of_lt hc, hs, ← hbyte]
        rfl
    · -- The byte stands behind those of the character.
      have hbeyond := le_of_mem_utf8EncodeChar (Nat.le_of_not_lt hc)
      obtain ⟨middle, hfront, hrest⟩ | ⟨middle, hchar, hback⟩ := List.append_eq_append_iff.mp h
      · obtain ⟨s, d, t, hsplit, hd, hs, ht⟩ := ih hrest
        refine ⟨c :: s, d, t, by rw [hsplit]; rfl, hd, ?_, ht⟩
        rw [utf8_cons, hs, hfront]
      · -- Nothing of the character is behind the cut.
        cases middle with
        | nil =>
          have hempty : utf8 rest = [] ++ b :: back := hback.symm
          obtain ⟨s, d, t, hsplit, hd, hs, ht⟩ := ih hempty
          refine ⟨c :: s, d, t, by rw [hsplit]; rfl, hd, ?_, ht⟩
          rw [utf8_cons, hs, hchar, List.append_nil, List.append_nil]
        | cons x middle =>
          have hx : b = x := (List.cons.inj hback).1
          have hlow := hbeyond x (by rw [hchar]; simp)
          rw [← hx] at hlow
          omega

/-- Of two texts in front of one, the one with more bytes is the longer. -/
theorem prefix_of_length_le {s t text : List Char} (hs : s <+: text) (ht : t <+: text)
    (hle : (utf8 s).length ≤ (utf8 t).length) : s <+: t := by
  rcases List.prefix_or_prefix_of_prefix hs ht with h | h
  · exact h
  · obtain ⟨back, rfl⟩ := h
    rw [utf8_append, List.length_append] at hle
    have hnil : back = [] := utf8_injective (List.eq_nil_of_length_eq_zero (by omega))
    exact ⟨[], by rw [hnil, List.append_nil, List.append_nil]⟩

theorem toUInt8_mem_utf8 {c : Char} (hc : c.toNat < 128) {text : List Char} :
    c.toUInt8 ∈ utf8 text ↔ c ∈ text := by
  constructor
  · intro h
    obtain ⟨front, back, hsplit⟩ := List.append_of_mem h
    obtain ⟨s, d, t, rfl, hd, -, -⟩ := utf8_split (by rw [toNat_toUInt8 hc]; exact hc) hsplit
    rw [toNat_toUInt8 hc] at hd
    have hsame : d = c := Char.toNat_inj.mp hd
    simp [hsame]
  · intro h
    exact List.mem_flatMap.mpr ⟨c, h, by rw [utf8EncodeChar_of_lt hc]; exact List.mem_singleton_self _⟩

/-! ## Escapes -/

def percent : UInt8 := 0x25

/-- `raw` is what a byte stands for by itself, `quoted` what two bytes behind a percent sign do. -/
structure Coding where
  raw : UInt8 → Option UInt8
  quoted : UInt8 → UInt8 → Option UInt8
  raw_percent : raw percent = none

inductive Reads (coding : Coding) : List UInt8 → List UInt8 → Prop
  | nil : Reads coding [] []
  | raw {c b : UInt8} {bytes out : List UInt8} (h : coding.raw c = some b)
      (rest : Reads coding bytes out) : Reads coding (c :: bytes) (b :: out)
  | quoted {x y b : UInt8} {bytes out : List UInt8} (h : coding.quoted x y = some b)
      (rest : Reads coding bytes out) : Reads coding (percent :: x :: y :: bytes) (b :: out)

variable {coding : Coding} {bytes bytes' out out' : List UInt8}

theorem Reads.append (h : Reads coding bytes out) (h' : Reads coding bytes' out') :
    Reads coding (bytes ++ bytes') (out ++ out') := by
  induction h with
  | nil => exact h'
  | raw hc _ ih => exact ih.raw hc
  | quoted hxy _ ih => exact ih.quoted hxy

theorem Reads.unique (h : Reads coding bytes out) (h' : Reads coding bytes out') : out = out' := by
  induction h generalizing out' with
  | nil => cases h'; rfl
  | raw hc _ ih =>
    cases h' with
    | raw hc' rest' => rw [Option.some.inj (hc.symm.trans hc'), ih rest']
    | quoted => rw [coding.raw_percent] at hc; cases hc
  | quoted hxy _ ih =>
    cases h' with
    | raw hc' => rw [coding.raw_percent] at hc'; cases hc'
    | quoted hxy' rest' => rw [Option.some.inj (hxy.symm.trans hxy'), ih rest']

theorem reads_nil : Reads coding [] out ↔ out = [] := by
  constructor
  · intro h
    cases h
    rfl
  · intro h
    rw [h]
    exact .nil

theorem reads_cons {c : UInt8} (hc : c ≠ percent) :
    Reads coding (c :: bytes) out ↔
      ∃ b, coding.raw c = some b ∧ ∃ rest, out = b :: rest ∧ Reads coding bytes rest := by
  constructor
  · intro h
    cases h with
    | raw hraw rest => exact ⟨_, hraw, _, rfl, rest⟩
    | quoted => exact absurd rfl hc
  · intro h
    obtain ⟨b, hraw, rest, rfl, hrest⟩ := h
    exact hrest.raw hraw

theorem reads_percent {x y : UInt8} :
    Reads coding (percent :: x :: y :: bytes) out ↔
      ∃ b, coding.quoted x y = some b ∧ ∃ rest, out = b :: rest ∧ Reads coding bytes rest := by
  constructor
  · intro h
    cases h with
    | raw hraw => rw [coding.raw_percent] at hraw; cases hraw
    | quoted hxy rest => exact ⟨_, hxy, _, rfl, rest⟩
  · intro h
    obtain ⟨b, hxy, rest, rfl, hrest⟩ := h
    exact hrest.quoted hxy

theorem Reads.length_le (h : Reads coding bytes out) : out.length ≤ bytes.length := by
  induction h with
  | nil => exact Nat.le_refl 0
  | raw _ _ ih => simp only [List.length_cons]; omega
  | quoted _ _ ih => simp only [List.length_cons]; omega

theorem Reads.length_lt (h : Reads coding bytes out) (hmem : percent ∈ bytes) :
    out.length < bytes.length := by
  induction h with
  | nil => cases hmem
  | @raw c b bytes out hc _ ih =>
    have hne : percent ≠ c := by
      intro heq
      rw [← heq, coding.raw_percent] at hc
      cases hc
    have hrest := ih ((List.mem_cons.mp hmem).resolve_left hne)
    simp only [List.length_cons]
    omega
  | quoted _ rest _ =>
    have hrest := rest.length_le
    simp only [List.length_cons]
    omega

/-- What the bytes of the output are, from what single codes stand for. -/
theorem Reads.forall {P : UInt8 → Prop} (hraw : ∀ c b, coding.raw c = some b → P b)
    (hquoted : ∀ x y b, coding.quoted x y = some b → P b) (h : Reads coding bytes out) :
    ∀ b ∈ out, P b := by
  induction h with
  | nil => exact fun _ hb => absurd hb List.not_mem_nil
  | raw hc _ ih => exact List.forall_mem_cons.mpr ⟨hraw _ _ hc, ih⟩
  | quoted hxy _ ih => exact List.forall_mem_cons.mpr ⟨hquoted _ _ _ hxy, ih⟩

/-- An encoding byte by byte is read back. -/
theorem reads_flatMap {code : UInt8 → List UInt8} (h : ∀ b ∈ out, Reads coding (code b) [b]) :
    Reads coding (out.flatMap code) out := by
  induction out with
  | nil => exact .nil
  | cons b out ih =>
    rw [List.flatMap_cons]
    exact (h b List.mem_cons_self).append (ih fun x hx => h x (List.mem_cons_of_mem b hx))

theorem reads_self (h : ∀ b ∈ bytes, coding.raw b = some b) : Reads coding bytes bytes := by
  induction bytes with
  | nil => exact .nil
  | cons b bytes ih =>
    exact (ih fun x hx => h x (List.mem_cons_of_mem b hx)).raw (h b List.mem_cons_self)

/-! ### Bytes that stand for themselves -/

/-- Nothing else stands for the byte. -/
structure Plain (coding : Coding) (b : UInt8) : Prop where
  self : coding.raw b = some b
  only : ∀ c, coding.raw c = some b → c = b
  unquoted : ∀ x y, coding.quoted x y ≠ some b

/-- A plain byte that is in no escape. -/
structure Stop (coding : Coding) (b : UInt8) : Prop extends Plain coding b where
  first : ∀ y, coding.quoted b y = none
  second : ∀ x, coding.quoted x b = none

theorem Plain.ne_percent {b : UInt8} (h : Plain coding b) : b ≠ percent := by
  intro heq
  have hself := h.self
  rw [heq, coding.raw_percent] at hself
  cases hself

theorem Reads.eq_of_plain (hbytes : ∀ b ∈ bytes, Plain coding b) (h : Reads coding bytes out) :
    out = bytes := h.unique (reads_self fun b hb => (hbytes b hb).self)

theorem Reads.eq_of_plain_out (h : Reads coding bytes out) (hout : ∀ b ∈ out, Plain coding b) :
    bytes = out := by
  induction h with
  | nil => rfl
  | raw hc _ ih =>
    rw [(hout _ List.mem_cons_self).only _ hc, ih fun b hb => hout b (List.mem_cons_of_mem _ hb)]
  | quoted hxy => exact absurd hxy ((hout _ List.mem_cons_self).unquoted _ _)

/-- A stop is read on its own. -/
theorem Reads.split {stop : UInt8} (hstop : Stop coding stop) {front back : List UInt8}
    (h : Reads coding (front ++ stop :: back) out) :
    ∃ out₁ out₂, out = out₁ ++ stop :: out₂ ∧ Reads coding front out₁ ∧ Reads coding back out₂ := by
  generalize hbytes : front ++ stop :: back = bytes at h
  induction h generalizing front with
  | nil => simp at hbytes
  | @raw c b bytes out hc rest ih =>
    cases front with
    | nil =>
      obtain ⟨rfl, rfl⟩ := List.cons.inj hbytes
      have hself : b = stop := Option.some.inj (hc.symm.trans hstop.self)
      exact ⟨[], out, by rw [hself]; rfl, .nil, rest⟩
    | cons x front =>
      obtain ⟨rfl, hrest⟩ := List.cons.inj hbytes
      obtain ⟨out₁, out₂, rfl, hfront, hback⟩ := ih hrest
      exact ⟨b :: out₁, out₂, rfl, hfront.raw hc, hback⟩
  | @quoted x y b bytes out hxy rest ih =>
    match front with
    | [] => exact absurd (List.cons.inj hbytes).1 hstop.ne_percent
    | [_] =>
      have hx : stop = x := (List.cons.inj (List.cons.inj hbytes).2).1
      rw [← hx, hstop.first] at hxy
      cases hxy
    | [_, _] =>
      have hy : stop = y := (List.cons.inj (List.cons.inj (List.cons.inj hbytes).2).2).1
      rw [← hy, hstop.second] at hxy
      cases hxy
    | _ :: x' :: y' :: front =>
      simp only [List.cons_append, List.cons.injEq] at hbytes
      obtain ⟨rfl, rfl, rfl, hrest⟩ := hbytes
      obtain ⟨out₁, out₂, rfl, hfront, hback⟩ := ih hrest
      exact ⟨b :: out₁, out₂, rfl, hfront.quoted hxy, hback⟩

theorem Reads.mem_out {b : UInt8} (hb : Plain coding b) (h : Reads coding bytes out)
    (hmem : b ∈ out) : b ∈ bytes := by
  induction h with
  | nil => cases hmem
  | raw hc _ ih =>
    rcases List.mem_cons.mp hmem with rfl | hmem
    · rw [hb.only _ hc]
      exact List.mem_cons_self
    · exact List.mem_cons_of_mem _ (ih hmem)
  | quoted hxy _ ih =>
    rcases List.mem_cons.mp hmem with rfl | hmem
    · exact absurd hxy (hb.unquoted _ _)
    · exact List.mem_cons_of_mem _ (List.mem_cons_of_mem _ (List.mem_cons_of_mem _ (ih hmem)))

theorem Reads.stop_mem_iff {stop : UInt8} (hstop : Stop coding stop) (h : Reads coding bytes out) :
    stop ∈ out ↔ stop ∈ bytes := by
  constructor
  · exact h.mem_out hstop.toPlain
  · intro hmem
    obtain ⟨front, back, rfl⟩ := List.append_of_mem hmem
    obtain ⟨out₁, out₂, rfl, -, -⟩ := h.split hstop
    simp

end Percent
end Lexing
end Eds
