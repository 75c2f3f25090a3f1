import Eds.Util.Gourl
import Mathlib.Data.Bool.AllAny
import Mathlib.Data.List.Basic

/-!
# Escapes are undone

`unescape` reads a text by the coding of its mode (`unescape_iff`), and what `escape` writes is
read back, except in a host, where most ASCII characters can be written in no way at all.
-/

namespace Eds
namespace Util
namespace Gourl

open Lexing Percent

/-! ## Bytes -/

theorem forall_byte {P : UInt8 → Prop} (h : ∀ n < 256, P (UInt8.ofNat n)) (b : UInt8) : P b := by
  have hb := h b.toNat b.toNat_lt
  rwa [UInt8.ofNat_toNat] at hb

theorem toNat_ofNat_toNat (b : UInt8) : (Char.ofNat b.toNat).toNat = b.toNat := by
  have hlt := b.toNat_lt
  have hvalid : b.toNat.isValidChar := Or.inl (by omega)
  rw [Char.ofNat, dif_pos hvalid]
  rfl

theorem toUInt8_ofNat_toNat (b : UInt8) : (Char.ofNat b.toNat).toUInt8 = b := by
  have hsame : (Char.ofNat b.toNat).toUInt8.toNat = (Char.ofNat b.toNat).toNat % 2 ^ 8 :=
    UInt32.toNat_toUInt8 (Char.ofNat b.toNat).val
  have hlt := b.toNat_lt
  rw [toNat_ofNat_toNat, Nat.mod_eq_of_lt hlt] at hsame
  exact UInt8.toNat_inj.mp hsame

theorem lt_of_isLetter {c : Char} (h : isLetter c = true) : c.toNat < 128 := by
  rw [isLetter, Bool.or_eq_true, Bool.and_eq_true, Bool.and_eq_true, decide_eq_true_iff,
    decide_eq_true_iff, decide_eq_true_iff, decide_eq_true_iff] at h
  rcases h with h | h
  · exact Nat.lt_of_le_of_lt (UInt32.le_iff_toNat_le.mp h.2) (by decide)
  · exact Nat.lt_of_le_of_lt (UInt32.le_iff_toNat_le.mp h.2) (by decide)

theorem lt_of_isDigit {c : Char} (h : isDigit c = true) : c.toNat < 128 := by
  rw [isDigit, Bool.and_eq_true, decide_eq_true_iff, decide_eq_true_iff] at h
  exact Nat.lt_of_le_of_lt (UInt32.le_iff_toNat_le.mp h.2) (by decide)

def isAlphanumeric (c : Char) : Bool := isLetter c || isDigit c

theorem lt_of_isAlphanumeric {c : Char} (h : isAlphanumeric c = true) : c.toNat < 128 := by
  rcases (Bool.or_eq_true _ _).mp h with h | h
  · exact lt_of_isLetter h
  · exact lt_of_isDigit h

/-- What holds of the ASCII characters with a property holds of every character with it. -/
theorem of_ascii {p : Char → Bool} {q : Char → Prop} (hp : ∀ c, p c = true → c.toNat < 128)
    (h : ∀ n < 128, p (Char.ofNat n) = true → q (Char.ofNat n)) {c : Char} (hc : p c = true) :
    q c := by
  have hn := h c.toNat (hp c hc)
  rw [Char.ofNat_toNat] at hn
  exact hn hc

/-! ## What an escape is made of -/

/-- The characters that some part of a URL keeps, letters and digits apart. -/
def marks : List Char := hostKeep ++ ['-', '_', '.', '~'] ++ reserved ++ ['!', '(', ')', '*']

theorem lt_of_mem_marks {c : Char} (h : c ∈ marks) : c.toNat < 128 := by
  have hall : ∀ c ∈ marks, c.toNat < 128 := List.all_iff_forall_prop.mp (by decide)
  exact hall c h

theorem shouldEscape_of_isAlphanumeric {b : UInt8} (mode : Mode)
    (h : isAlphanumeric (Char.ofNat b.toNat) = true) : shouldEscape b mode = false := if_pos h

theorem kept_of_not_shouldEscape {b : UInt8} {mode : Mode} (h : shouldEscape b mode = false) :
    isAlphanumeric (Char.ofNat b.toNat) = true ∨ Char.ofNat b.toNat ∈ marks := by
  simp only [marks, List.mem_append]
  unfold shouldEscape at h
  dsimp only at h
  split at h
  · next halpha => exact Or.inl halpha
  · refine Or.inr ?_
    split at h
    · next hhost =>
      exact Or.inl (Or.inl (Or.inl (List.contains_iff_mem.mp ((Bool.and_eq_true _ _).mp hhost).2)))
    · split at h
      · next hmark => exact Or.inl (Or.inl (Or.inr (List.contains_iff_mem.mp hmark)))
      · split at h
        · next hreserved => exact Or.inl (Or.inr (List.contains_iff_mem.mp hreserved))
        · split at h
          · next hfragment =>
            exact Or.inr (List.contains_iff_mem.mp ((Bool.and_eq_true _ _).mp hfragment).2)
          · cases h

/-- What is not escaped is ASCII. -/
theorem lt_of_not_shouldEscape {b : UInt8} {mode : Mode} (h : shouldEscape b mode = false) :
    b.toNat < 128 := by
  rw [← toNat_ofNat_toNat b]
  rcases kept_of_not_shouldEscape h with h | h
  · exact lt_of_isAlphanumeric h
  · exact lt_of_mem_marks h

theorem shouldEscape_percent (mode : Mode) : shouldEscape 0x25 mode = true := by
  cases mode with
  | _ => decide

theorem ne_percent_of_not_shouldEscape {b : UInt8} {mode : Mode}
    (h : shouldEscape b mode = false) : b ≠ 0x25 := by
  rintro rfl
  rw [shouldEscape_percent] at h
  cases h

theorem isAlphanumeric_hexDigit {n : Nat} (h : n < 16) : isAlphanumeric (hexDigit n) = true := by
  have hall : ∀ n < 16, isAlphanumeric (hexDigit n) = true := by decide
  exact hall n h

/-- Whether no character that can stand in an escape of this mode fails the test. -/
def written (mode : Mode) (p : Char → Bool) : Bool :=
  ('%' :: '+' :: marks.filter fun c => !shouldEscape c.toUInt8 mode).all p &&
    (List.range 128).all fun n => !isAlphanumeric (Char.ofNat n) || p (Char.ofNat n)

theorem forall_mem_escape {mode : Mode} {p : Char → Bool} (h : written mode p = true)
    (s : List Char) : ∀ c ∈ escape s mode, p c = true := by
  rw [written, Bool.and_eq_true, List.all_eq_true, List.all_eq_true] at h
  obtain ⟨hmarks, hascii⟩ := h
  have halpha : ∀ {c}, isAlphanumeric c = true → p c = true := by
    intro c
    refine of_ascii (q := (p · = true)) (fun _ => lt_of_isAlphanumeric) fun n hn halpha => ?_
    have hn' := hascii n (List.mem_range.mpr hn)
    rwa [halpha, Bool.not_true, Bool.false_or] at hn'
  intro c hc
  obtain ⟨b, -, hb⟩ := List.mem_flatMap.mp hc
  have hlt := b.toNat_lt
  unfold escapeByte at hb
  split at hb
  · rw [List.mem_singleton.mp hb]
    exact hmarks '+' (List.mem_cons_of_mem _ List.mem_cons_self)
  · split at hb
    · simp only [List.mem_cons, List.not_mem_nil, or_false] at hb
      rcases hb with rfl | rfl | rfl
      · exact hmarks '%' List.mem_cons_self
      · exact halpha (isAlphanumeric_hexDigit (by omega))
      · exact halpha (isAlphanumeric_hexDigit (by omega))
    · next hkept =>
      have hkept : shouldEscape b mode = false := Bool.not_eq_true _ ▸ hkept
      rw [List.mem_singleton.mp hb]
      rcases kept_of_not_shouldEscape hkept with hchar | hchar
      · exact halpha hchar
      · refine hmarks _ (List.mem_cons_of_mem _ (List.mem_cons_of_mem _
          (List.mem_filter.mpr ⟨hchar, ?_⟩)))
        rw [toUInt8_ofNat_toNat, hkept]
        rfl

theorem escape_append (s t : List Char) (mode : Mode) :
    escape (s ++ t) mode = escape s mode ++ escape t mode := by
  rw [escape, utf8_append, List.flatMap_append]
  rfl

theorem escape_cons (c : Char) (s : List Char) (mode : Mode) :
    escape (c :: s) mode = escape [c] mode ++ escape s mode := escape_append [c] s mode

theorem escapeByte_ne_nil (mode : Mode) (b : UInt8) : escapeByte mode b ≠ [] := by
  unfold escapeByte
  split
  · exact List.cons_ne_nil _ _
  · split
    · exact List.cons_ne_nil _ _
    · exact List.cons_ne_nil _ _

theorem escape_eq_nil {s : List Char} {mode : Mode} : escape s mode = [] ↔ s = [] := by
  constructor
  · intro h
    cases s with
    | nil => rfl
    | cons c s =>
      have hbytes : utf8 (c :: s) = [] := by
        cases hutf : utf8 (c :: s) with
        | nil => rfl
        | cons b bytes =>
          rw [escape, hutf, List.flatMap_cons, List.append_eq_nil_iff] at h
          exact absurd h.1 (escapeByte_ne_nil mode b)
      exact utf8_injective hbytes
  · intro h
    rw [h]
    rfl

/-- What needs no escape is written as it is. -/
theorem escape_eq_self {s : List Char} {mode : Mode}
    (h : ∀ c ∈ s, c.toNat < 128 ∧ shouldEscape c.toUInt8 mode = false) : escape s mode = s := by
  have hspace : ∀ mode, shouldEscape 0x20 mode = true := by
    intro mode
    cases mode with
    | _ => decide
  rw [escape, utf8_of_lt fun c hc => (h c hc).1, List.flatMap_map]
  refine (List.flatMap_congr fun c hc => ?_).trans (List.flatMap_singleton' s)
  obtain ⟨hlt, hescape⟩ := h c hc
  have hplus : ¬ (mode = .queryComponent ∧ c.toUInt8 = 0x20) := by
    intro hplus
    rw [hplus.2, hspace] at hescape
    cases hescape
  rw [escapeByte, if_neg hplus, hescape, if_neg Bool.false_ne_true, toNat_toUInt8 hlt,
    Char.ofNat_toNat]

/-! ## Codings -/

def coding (mode : Mode) : Coding where
  raw c :=
    if c = 0x25 then none
    else if c = 0x2B then some (if mode = .queryComponent then 0x20 else 0x2B)
    else if mode.isHost && c < 0x80 && shouldEscape c mode then none
    else some c
  quoted x y :=
    if !isHex x || !isHex y then none
    else if mode = .host ∧ unhex x < 8 ∧ ¬ (x = 0x32 ∧ y = 0x35) then none
    else some (unhex x <<< 4 ||| unhex y)
  raw_percent := rfl

theorem map_cons_ok_iff {b : UInt8} {r : Except Error (List UInt8)} {out : List UInt8} :
    (b :: ·) <$> r = .ok out ↔ ∃ rest, out = b :: rest ∧ r = .ok rest := by
  cases r with
  | ok rest =>
    constructor
    · intro h
      exact ⟨rest, (Except.ok.inj h).symm, rfl⟩
    · intro h
      obtain ⟨rest', rfl, hrest⟩ := h
      rw [Except.ok.inj hrest]
      rfl
  | error e =>
    constructor
    · intro h
      cases h
    · intro h
      obtain ⟨_, _, hrest⟩ := h
      cases hrest

theorem unescapeBytes_iff {s : List Char} {mode : Mode} {i : Nat} {bytes out : List UInt8} :
    unescapeBytes s mode i bytes = .ok out ↔ Reads (coding mode) bytes out := by
  -- One case for each branch of the loop; those that raise match no rule of the coding.
  fun_induction unescapeBytes s mode i bytes generalizing out with
  | case1 i =>
    rw [reads_nil]
    exact ⟨fun h => (Except.ok.inj h).symm, fun h => congrArg _ h.symm⟩
  | case2 i x y rest hhex =>
    have hnone : (coding mode).quoted x y = none := if_pos hhex
    refine iff_of_false (fun h => by cases h) fun h => ?_
    obtain ⟨_, hsome, -⟩ := reads_percent.mp h
    rw [hnone] at hsome
    cases hsome
  | case3 i x y rest hhex hlow =>
    have hnone : (coding mode).quoted x y = none := (if_neg hhex).trans (if_pos hlow)
    refine iff_of_false (fun h => by cases h) fun h => ?_
    obtain ⟨_, hsome, -⟩ := reads_percent.mp h
    rw [hnone] at hsome
    cases hsome
  | case4 i x y rest hhex hlow ih =>
    have hsome : (coding mode).quoted x y = some (unhex x <<< 4 ||| unhex y) :=
      (if_neg hhex).trans (if_neg hlow)
    rw [map_cons_ok_iff]
    refine Iff.trans ?_ reads_percent.symm
    simp only [hsome, Option.some.injEq, ih, exists_eq_left']
  | case5 i rest hshort =>
    refine iff_of_false (fun h => by cases h) fun h => ?_
    cases h with
    | raw hraw => cases hraw
    | quoted => exact hshort _ _ _ rfl
  | case6 i rest _ ih =>
    have hsome : (coding mode).raw 43 = some (if mode = .queryComponent then 0x20 else 0x2B) := rfl
    rw [map_cons_ok_iff, reads_cons (by decide)]
    simp only [hsome, Option.some.injEq, ih, exists_eq_left']
  | case7 i c rest hpercent hplus hescape =>
    have hnone : (coding mode).raw c = none :=
      (if_neg hpercent).trans ((if_neg hplus).trans (if_pos hescape))
    refine iff_of_false (fun h => by cases h) fun h => ?_
    obtain ⟨_, hsome, -⟩ := (reads_cons hpercent).mp h
    rw [hnone] at hsome
    cases hsome
  | case8 i c rest hpercent hplus hescape ih =>
    have hsome : (coding mode).raw c = some c :=
      (if_neg hpercent).trans ((if_neg hplus).trans (if_neg hescape))
    rw [map_cons_ok_iff, reads_cons hpercent]
    simp only [hsome, Option.some.injEq, ih, exists_eq_left']

/-- A text is unescaped by what its bytes stand for. -/
theorem unescape_iff {s t : List Char} {mode : Mode} :
    unescape s mode = .ok t ↔ Reads (coding mode) (utf8 s) (utf8 t) := by
  rw [unescape]
  cases hbytes : unescapeBytes s mode 0 (utf8 s) with
  | error e =>
    refine iff_of_false (fun h => by cases h) fun h => ?_
    rw [unescapeBytes_iff.mpr h] at hbytes
    cases hbytes
  | ok bytes =>
    have hreads := unescapeBytes_iff.mp hbytes
    dsimp only [bind, Except.bind]
    cases htext : ofUtf8 bytes with
    | none =>
      refine iff_of_false (fun h => by cases h) fun h => ?_
      rw [hreads.unique h, ofUtf8_utf8] at htext
      cases htext
    | some text =>
      have hutf := utf8_of_ofUtf8 htext
      constructor
      · intro h
        rw [← Except.ok.inj h, hutf]
        exact hreads
      · intro h
        exact congrArg _ (utf8_injective (hutf.trans (hreads.unique h)))

/-! ## What is written is read back -/

/-- In a host only the percent sign and bytes outside ASCII have an escape that is accepted. -/
def Writable (mode : Mode) (b : UInt8) : Prop :=
  mode = .host → shouldEscape b .host = true → b = 0x25 ∨ 128 ≤ b.toNat

theorem isHex_hexDigit {n : Nat} (h : n < 16) : isHex (hexDigit n).toUInt8 = true := by
  have hall : ∀ n < 16, isHex (hexDigit n).toUInt8 = true := by decide
  exact hall n h

theorem unhex_hexDigit {n : Nat} (h : n < 16) : unhex (hexDigit n).toUInt8 = UInt8.ofNat n := by
  have hall : ∀ n < 16, unhex (hexDigit n).toUInt8 = UInt8.ofNat n := by decide
  exact hall n h

theorem toNat_join {m n : Nat} (hm : m < 16) (hn : n < 16) :
    (UInt8.ofNat m <<< 4 ||| UInt8.ofNat n).toNat = 16 * m + n := by
  have hshift : (4 : UInt8).toNat % 8 = 4 := rfl
  rw [UInt8.toNat_or, UInt8.toNat_shiftLeft, hshift, UInt8.toNat_ofNat', UInt8.toNat_ofNat',
    Nat.mod_eq_of_lt (a := m) (by omega), Nat.mod_eq_of_lt (a := n) (by omega),
    Nat.shiftLeft_eq, Nat.mod_eq_of_lt (by omega), ← Nat.shiftLeft_eq,
    ← Nat.shiftLeft_add_eq_or_of_lt (by omega), Nat.shiftLeft_eq]
  omega

theorem join_div_mod (b : UInt8) :
    UInt8.ofNat (b.toNat / 16) <<< 4 ||| UInt8.ofNat (b.toNat % 16) = b := by
  have hlt := b.toNat_lt
  rw [← UInt8.toNat_inj, toNat_join (by omega) (by omega)]
  omega

theorem quoted_hexDigit {mode : Mode} {b : UInt8}
    (h : mode = .host → b = 0x25 ∨ 128 ≤ b.toNat) :
    (coding mode).quoted (hexDigit (b.toNat / 16)).toUInt8 (hexDigit (b.toNat % 16)).toUInt8 =
      some b := by
  have hlt := b.toNat_lt
  have hhigh : b.toNat / 16 < 16 := by omega
  have hlow : b.toNat % 16 < 16 := by omega
  have hpermitted : ¬ (mode = .host ∧ unhex (hexDigit (b.toNat / 16)).toUInt8 < 8 ∧
      ¬ ((hexDigit (b.toNat / 16)).toUInt8 = 0x32 ∧ (hexDigit (b.toNat % 16)).toUInt8 = 0x35)) := by
    intro hrefused
    obtain ⟨hmode, hsmall, hother⟩ := hrefused
    rcases h hmode with hb | hb
    · subst hb
      exact hother ⟨by decide, by decide⟩
    · rw [unhex_hexDigit hhigh, UInt8.lt_iff_toNat_lt, UInt8.toNat_ofNat'] at hsmall
      have height : (8 : UInt8).toNat = 8 := rfl
      omega
  have hdigits : ¬ (!isHex (hexDigit (b.toNat / 16)).toUInt8 ||
      !isHex (hexDigit (b.toNat % 16)).toUInt8) = true := by
    rw [isHex_hexDigit hhigh, isHex_hexDigit hlow]
    decide
  refine (if_neg hdigits).trans ((if_neg hpermitted).trans ?_)
  rw [unhex_hexDigit hhigh, unhex_hexDigit hlow, join_div_mod]

/-- What is not escaped is ASCII and stands for itself. -/
theorem raw_of_not_shouldEscape {mode : Mode} {b : UInt8} (h : shouldEscape b mode = false) :
    b.toNat < 128 ∧ (coding mode).raw b = some b := by
  refine ⟨lt_of_not_shouldEscape h, (if_neg (ne_percent_of_not_shouldEscape h)).trans ?_⟩
  by_cases hb : b = 0x2B
  · have hquery : mode ≠ .queryComponent := by
      rintro rfl
      rw [hb] at h
      exact absurd h (by decide)
    rw [if_pos hb, if_neg hquery, hb]
  · rw [if_neg hb, h, Bool.and_false]
    rfl

theorem utf8_percent {b : UInt8} :
    utf8 ['%', hexDigit (b.toNat / 16), hexDigit (b.toNat % 16)] =
      [percent, (hexDigit (b.toNat / 16)).toUInt8, (hexDigit (b.toNat % 16)).toUInt8] := by
  have hlt := b.toNat_lt
  refine utf8_of_lt fun c hc => ?_
  simp only [List.mem_cons, List.not_mem_nil, or_false] at hc
  rcases hc with rfl | rfl | rfl
  · decide
  · exact lt_of_isAlphanumeric (isAlphanumeric_hexDigit (by omega))
  · exact lt_of_isAlphanumeric (isAlphanumeric_hexDigit (by omega))

theorem utf8_ofNat {b : UInt8} (h : b.toNat < 128) : utf8 [Char.ofNat b.toNat] = [b] := by
  have hascii : ∀ c ∈ [Char.ofNat b.toNat], c.toNat < 128 := by
    intro c hc
    rw [List.mem_singleton.mp hc, toNat_ofNat_toNat]
    exact h
  rw [utf8_of_lt hascii, List.map_singleton, toUInt8_ofNat_toNat]

theorem reads_escapeByte {mode : Mode} {b : UInt8} (h : Writable mode b) :
    Reads (coding mode) (utf8 (escapeByte mode b)) [b] := by
  unfold escapeByte
  split
  · next hplus =>
    obtain ⟨rfl, rfl⟩ := hplus
    exact Reads.nil.raw rfl
  · split
    · next hescape =>
      rw [utf8_percent]
      refine Reads.nil.quoted (quoted_hexDigit fun hmode => h hmode ?_)
      rw [← hmode]
      exact hescape
    · next hescape =>
      obtain ⟨hlt, hraw⟩ := raw_of_not_shouldEscape (Bool.not_eq_true _ ▸ hescape)
      rw [utf8_ofNat hlt]
      exact Reads.nil.raw hraw

theorem utf8_escape (s : List Char) (mode : Mode) :
    utf8 (escape s mode) = (utf8 s).flatMap fun b => utf8 (escapeByte mode b) :=
  List.flatMap_assoc

theorem reads_escape {s : List Char} {mode : Mode} (h : ∀ b ∈ utf8 s, Writable mode b) :
    Reads (coding mode) (utf8 (escape s mode)) (utf8 s) := by
  rw [utf8_escape]
  exact reads_flatMap fun b hb => reads_escapeByte (h b hb)

theorem unescape_escape_of_writable {s : List Char} {mode : Mode}
    (h : ∀ b ∈ utf8 s, Writable mode b) : unescape (escape s mode) mode = .ok s :=
  unescape_iff.mpr (reads_escape h)

theorem unescape_escape (s : List Char) {mode : Mode} (h : mode ≠ .host) :
    unescape (escape s mode) mode = .ok s :=
  unescape_escape_of_writable fun _ _ hmode => absurd hmode h

/-! ## Texts without escapes -/

/-- Outside hosts and queries a text without a percent sign stands for itself. -/
theorem unescape_eq_self {s : List Char} {mode : Mode} (hhost : mode.isHost = false)
    (hquery : mode ≠ .queryComponent) (h : '%' ∉ s) : unescape s mode = .ok s := by
  refine unescape_iff.mpr (reads_self fun b hb => ?_)
  have hpercent : b ≠ 0x25 := by
    rintro rfl
    exact h ((toUInt8_mem_utf8 (c := '%') (by decide)).mp hb)
  refine (if_neg hpercent).trans ?_
  by_cases hplus : b = 0x2B
  · rw [if_pos hplus, if_neg hquery, hplus]
  · rw [if_neg hplus, hhost, Bool.false_and, Bool.false_and]
    rfl

/-- A host of characters that a host keeps stands for itself. -/
theorem unescape_host_eq_self {s : List Char}
    (h : ∀ c ∈ s, c.toNat < 128 ∧ shouldEscape c.toUInt8 .host = false) :
    unescape s .host = .ok s := by
  refine unescape_iff.mpr (reads_self fun b hb => ?_)
  rw [utf8_of_lt fun c hc => (h c hc).1] at hb
  obtain ⟨c, hc, rfl⟩ := List.mem_map.mp hb
  exact (raw_of_not_shouldEscape (h c hc).2).2

theorem percent_notMem_of_unescape {s : List Char} {mode : Mode} (h : unescape s mode = .ok s) :
    '%' ∉ s := by
  intro hmem
  have hlt := Reads.length_lt (unescape_iff.mp h) ((toUInt8_mem_utf8 (by decide)).mpr hmem)
  exact Nat.lt_irrefl _ hlt

theorem length_of_unescape {s t : List Char} {mode : Mode} (h : unescape s mode = .ok t) :
    (utf8 t).length ≤ (utf8 s).length := (unescape_iff.mp h).length_le

end Gourl
end Util
end Eds
