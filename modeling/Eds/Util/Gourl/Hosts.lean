import Eds.Util.Gourl.Escapes

/-!
# Hosts

A host is read in two steps, a test of its brackets and its port and the decoding of its escapes.
Decoding moves neither brackets nor colons nor the digits behind them (`validHost_congr`), so that
the decoded host passes the test as well, and so does the host that is printed from it.
-/

namespace Eds
namespace Util
namespace Gourl

open Lexing Percent

/-! ## The test -/

/-- What `parseHost` wants of the brackets and of the port. -/
def validHost (host : List Char) : Bool :=
  if host.head? = some '[' then
    match rpartition ']' host with
    | (_, false, _) => false
    | (_, true, colonPort) => validOptionalPort colonPort
  else
    match rpartition ':' host with
    | (_, true, port) => validOptionalPort (':' :: port)
    | (_, false, _) => true

theorem parseHost_iff {r h : List Char} :
    parseHost r = .ok h ↔ validHost r = true ∧ unescape r .host = .ok h := by
  have htest : ∀ (valid : Bool) (colonPort : List Char),
      (if valid = true then unescape r .host else .error (invalidPort colonPort)) = .ok h ↔
        valid = true ∧ unescape r .host = .ok h := by
    intro valid colonPort
    cases valid with
    | true => simp
    | false => simp
  unfold parseHost validHost
  by_cases hhead : r.head? = some '['
  · rw [if_pos hhead, if_pos hhead]
    rcases rpartition ']' r with ⟨a, found, colonPort⟩
    cases found with
    | true => exact htest _ _
    | false => simp
  · rw [if_neg hhead, if_neg hhead]
    rcases rpartition ':' r with ⟨a, found, port⟩
    cases found with
    | true => exact htest _ _
    | false => simp

/-! ## Characters that stay -/

/-- `r` is a host as it is written, `h` what it stands for. -/
abbrev Decodes (r h : List Char) : Prop := Reads (coding .host) (utf8 r) (utf8 h)

theorem isHex_of_quoted {mode : Mode} {x y b : UInt8} (h : (coding mode).quoted x y = some b) :
    isHex x = true ∧ isHex y = true ∧ b = (unhex x <<< 4 ||| unhex y) := by
  have hquoted : (if !isHex x || !isHex y then none
      else if mode = .host ∧ unhex x < 8 ∧ ¬ (x = 0x32 ∧ y = 0x35) then none
      else some (unhex x <<< 4 ||| unhex y)) = some b := h
  split at hquoted
  · cases hquoted
  · next hhex =>
    simp only [Bool.or_eq_true, Bool.not_eq_true', not_or, Bool.not_eq_false] at hhex
    split at hquoted
    · cases hquoted
    · exact ⟨hhex.1, hhex.2, (Option.some.inj hquoted).symm⟩

theorem unhex_lt {x : UInt8} (h : isHex x = true) : (unhex x).toNat < 16 := by
  have hall : ∀ x, isHex x = true → (unhex x).toNat < 16 := forall_byte (by decide +kernel)
  exact hall x h

theorem quoted_host {x y b : UInt8} (h : (coding .host).quoted x y = some b) :
    b = 0x25 ∨ 128 ≤ b.toNat := by
  obtain ⟨hx, hy, rfl⟩ := isHex_of_quoted h
  by_cases hpercent : x = 0x32 ∧ y = 0x35
  · rw [hpercent.1, hpercent.2]
    exact Or.inl (by decide)
  · -- The first digit is at least 8, and below 16.
    have hlarge : ¬ unhex x < 8 := by
      intro hsmall
      have hrefused : (coding .host).quoted x y = none :=
        (if_neg (by simp [hx, hy])).trans (if_pos ⟨rfl, hsmall, hpercent⟩)
      rw [hrefused] at h
      cases h
    have hjoin := toNat_join (unhex_lt hx) (unhex_lt hy)
    rw [UInt8.ofNat_toNat, UInt8.ofNat_toNat] at hjoin
    have height : (8 : UInt8).toNat = 8 := rfl
    rw [UInt8.lt_iff_toNat_lt, height] at hlarge
    omega

theorem raw_host {c b : UInt8} (h : (coding .host).raw c = some b) : c = b ∧ Writable .host b := by
  have hraw : (if c = 0x25 then none
      else if c = 0x2B then some (if Mode.host = .queryComponent then 0x20 else 0x2B)
      else if Mode.host.isHost && c < 0x80 && shouldEscape c .host then none
      else some c) = some b := h
  split at hraw
  · cases hraw
  · split at hraw
    · next hplus =>
      have hb : b = 0x2B := (Option.some.inj hraw).symm
      refine ⟨hplus.trans hb.symm, fun _ hescape => ?_⟩
      rw [hb] at hescape
      exact absurd hescape (by decide)
    · split at hraw
      · cases hraw
      · next hkept =>
        have hb := Option.some.inj hraw
        refine ⟨hb, fun _ hescape => Or.inr (Nat.le_of_not_lt fun hlt => hkept ?_)⟩
        have hsmall : b < 0x80 := UInt8.lt_iff_toNat_lt.mpr hlt
        rw [hb]
        simp [hsmall, hescape, Mode.isHost]

/-- What a host keeps is plain. -/
theorem plain_of_not_shouldEscape {b : UInt8} (h : shouldEscape b .host = false) :
    Plain (coding .host) b where
  self := (raw_of_not_shouldEscape h).2
  only c hc := (raw_host hc).1
  unquoted x y hxy := by
    rcases quoted_host hxy with rfl | hb
    · exact absurd h (by decide)
    · have hlt := (raw_of_not_shouldEscape h).1
      omega

theorem stop_of_not_isHex {b : UInt8} (h : shouldEscape b .host = false) (hhex : isHex b = false) :
    Stop (coding .host) b where
  toPlain := plain_of_not_shouldEscape h
  first y := if_pos (by rw [hhex]; rfl)
  second x := if_pos (by rw [hhex]; simp)

/-- A bracket or a colon. -/
def isMark (c : Char) : Bool := c == '[' || c == ']' || c == ':'

theorem isMark_stop {c : Char} (h : isMark c = true) :
    c.toNat < 128 ∧ Stop (coding .host) c.toUInt8 := by
  simp only [isMark, Bool.or_eq_true, beq_iff_eq] at h
  rcases h with (rfl | rfl) | rfl
  · exact ⟨by decide, stop_of_not_isHex (by decide) (by decide)⟩
  · exact ⟨by decide, stop_of_not_isHex (by decide) (by decide)⟩
  · exact ⟨by decide, stop_of_not_isHex (by decide) (by decide)⟩

variable {r h : List Char}

theorem Decodes.mem_iff (hread : Decodes r h) {c : Char} (hc : isMark c = true) : c ∈ h ↔ c ∈ r := by
  obtain ⟨hlt, hstop⟩ := isMark_stop hc
  rw [← toUInt8_mem_utf8 hlt, ← toUInt8_mem_utf8 hlt]
  exact Reads.stop_mem_iff hstop hread

theorem Decodes.split {a b : List Char} {c : Char} (hc : isMark c = true)
    (hread : Decodes (a ++ c :: b) h) :
    ∃ a' b', h = a' ++ c :: b' ∧ Decodes a a' ∧ Decodes b b' := by
  obtain ⟨hlt, hstop⟩ := isMark_stop hc
  rw [Decodes, utf8_append, utf8_cons, utf8EncodeChar_of_lt hlt] at hread
  obtain ⟨out₁, out₂, hout, hfront, hback⟩ := Reads.split hstop hread
  obtain ⟨s, d, t, rfl, hd, rfl, rfl⟩ := utf8_split (by rw [toNat_toUInt8 hlt]; exact hlt) hout
  rw [toNat_toUInt8 hlt] at hd
  rw [Char.toNat_inj.mp hd]
  exact ⟨s, t, rfl, hfront, hback⟩

theorem Decodes.nil_iff (hread : Decodes r h) : h = [] ↔ r = [] := by
  constructor
  · intro hh
    rw [hh] at hread
    cases hr : utf8 r with
    | nil => exact utf8_injective hr
    | cons b bytes =>
      rw [Decodes, hr] at hread
      cases hread
  · intro hr
    rw [hr] at hread
    exact utf8_injective (reads_nil.mp hread)

/-! ## The port -/

theorem plain_of_validOptionalPort {port : List Char} (h : validOptionalPort port = true) :
    ∀ b ∈ utf8 port, Plain (coding .host) b := by
  have hchar : ∀ c ∈ port, c.toNat < 128 ∧ shouldEscape c.toUInt8 .host = false := by
    cases port with
    | nil => exact fun c hc => absurd hc List.not_mem_nil
    | cons colon digits =>
      rw [validOptionalPort, Bool.and_eq_true, beq_iff_eq, List.all_eq_true] at h
      obtain ⟨rfl, hdigits⟩ := h
      refine List.forall_mem_cons.mpr ⟨by decide, fun c hc => ?_⟩
      have hdigit := hdigits c hc
      have hlt := lt_of_isDigit hdigit
      refine ⟨hlt, shouldEscape_of_isAlphanumeric .host ?_⟩
      rw [toNat_toUInt8 hlt, Char.ofNat_toNat, isAlphanumeric, hdigit, Bool.or_true]
  intro b hb
  rw [utf8_of_lt fun c hc => (hchar c hc).1] at hb
  obtain ⟨c, hc, rfl⟩ := List.mem_map.mp hb
  exact plain_of_not_shouldEscape (hchar c hc).2

theorem Decodes.eq_of_port (hread : Decodes r h)
    (hport : validOptionalPort r = true ∨ validOptionalPort h = true) : r = h := by
  rcases hport with hport | hport
  · exact (utf8_injective (Reads.eq_of_plain (plain_of_validOptionalPort hport) hread)).symm
  · exact utf8_injective (Reads.eq_of_plain_out hread (plain_of_validOptionalPort hport))

theorem Decodes.validOptionalPort (hread : Decodes r h) :
    validOptionalPort r = validOptionalPort h := by
  rw [Bool.eq_iff_iff]
  constructor
  · intro hr
    rw [← hread.eq_of_port (Or.inl hr)]
    exact hr
  · intro hh
    rw [hread.eq_of_port (Or.inr hh)]
    exact hh

/-! ## Decoding keeps the test -/

theorem Decodes.head_iff (hread : Decodes r h) : h.head? = some '[' ↔ r.head? = some '[' := by
  constructor
  · intro hhead
    obtain ⟨t, rfl⟩ := List.head?_eq_some_iff.mp hhead
    obtain ⟨a, b, rfl, ha⟩ := List.eq_append_cons_of_mem ((hread.mem_iff rfl).mp List.mem_cons_self)
    obtain ⟨a', b', hsplit, hfront, -⟩ := hread.split rfl
    -- The first bracket stays the first.
    have ha' : '[' ∉ a' := fun hmem => ha ((hfront.mem_iff rfl).mp hmem)
    cases a' with
    | nil => rw [hfront.nil_iff.mp rfl]; rfl
    | cons c a' =>
      rw [List.cons_append] at hsplit
      exact absurd (List.mem_cons.mpr (Or.inl (List.cons.inj hsplit).1)) ha'
  · intro hhead
    obtain ⟨t, rfl⟩ := List.head?_eq_some_iff.mp hhead
    obtain ⟨a', b', rfl, hfront, -⟩ := Decodes.split (a := []) rfl hread
    rw [hfront.nil_iff.mpr rfl]
    rfl

/-- Cut at its last mark, a host is decoded in both parts. -/
theorem Decodes.rpartition (hread : Decodes r h) {c : Char} (hc : isMark c = true) :
    (c ∉ r ∧ Lexing.rpartition c r = ([], false, r) ∧ Lexing.rpartition c h = ([], false, h)) ∨
      ∃ a b a' b', Lexing.rpartition c r = (a, true, b) ∧ Lexing.rpartition c h = (a', true, b') ∧
        Decodes b b' := by
  by_cases hmem : c ∈ r
  · obtain ⟨a, b, rfl, hb⟩ := exists_last hmem
    obtain ⟨a', b', rfl, -, hback⟩ := hread.split hc
    have hb' : c ∉ b' := fun hmem' => hb ((hback.mem_iff hc).mp hmem')
    exact Or.inr ⟨a, b, a', b', rpartition_append hb a, rpartition_append hb' a', hback⟩
  · have hmem' : c ∉ h := fun hmem' => hmem ((hread.mem_iff hc).mp hmem')
    exact Or.inl ⟨hmem, rpartition_of_notMem hmem, rpartition_of_notMem hmem'⟩

theorem Decodes.colon (hread : Decodes r h) : Decodes (':' :: r) (':' :: h) :=
  Reads.append (Reads.nil.raw rfl) hread

theorem validHost_congr (hread : Decodes r h) : validHost r = validHost h := by
  unfold validHost
  by_cases hhead : r.head? = some '['
  · rw [if_pos hhead, if_pos (hread.head_iff.mpr hhead)]
    rcases hread.rpartition (c := ']') rfl with ⟨-, hr, hh⟩ | ⟨a, b, a', b', hr, hh, hback⟩
    · rw [hr, hh]
    · rw [hr, hh]
      exact hback.validOptionalPort
  · rw [if_neg hhead, if_neg fun hh => hhead (hread.head_iff.mp hh)]
    rcases hread.rpartition (c := ':') rfl with ⟨-, hr, hh⟩ | ⟨a, b, a', b', hr, hh, hback⟩
    · rw [hr, hh]
    · rw [hr, hh]
      exact hback.colon.validOptionalPort

/-! ## Hosts that are printed and read -/

/-- A character of a host that is read back when it is printed. -/
def isHostChar (c : Char) : Bool :=
  c == '%' || 128 ≤ c.toNat || !shouldEscape c.toUInt8 .host

structure HostOk (h : List Char) : Prop where
  chars : ∀ c ∈ h, isHostChar c = true
  valid : validHost h = true

theorem isHostChar_of_lt {c : Char} (hlt : c.toNat < 128) :
    isHostChar c = true ↔ Writable .host c.toUInt8 := by
  have hpercent : c = '%' ↔ c.toUInt8 = 0x25 := by
    constructor
    · intro hc
      rw [hc]
      rfl
    · intro hc
      have hnat := congrArg UInt8.toNat hc
      rw [toNat_toUInt8 hlt] at hnat
      exact Char.toNat_inj.mp hnat
  have hbelow : ¬ 128 ≤ c.toNat := Nat.not_le.mpr hlt
  have hbelow' : ¬ 128 ≤ c.toUInt8.toNat := by rwa [toNat_toUInt8 hlt]
  simp only [isHostChar, Writable, Bool.or_eq_true, beq_iff_eq, decide_eq_true_iff, hpercent, hbelow,
    hbelow', or_false, Bool.not_eq_true', forall_true_left]
  cases shouldEscape c.toUInt8 .host with
  | true => simp
  | false => simp

theorem writable_iff : (∀ b ∈ utf8 h, Writable .host b) ↔ ∀ c ∈ h, isHostChar c = true := by
  constructor
  · intro hbytes c hc
    by_cases hlt : c.toNat < 128
    · exact (isHostChar_of_lt hlt).mpr (hbytes _ ((toUInt8_mem_utf8 hlt).mpr hc))
    · simp [isHostChar, Nat.le_of_not_lt hlt]
  · intro hchars b hb
    obtain ⟨c, hc, hb⟩ := List.mem_flatMap.mp hb
    by_cases hlt : c.toNat < 128
    · rw [utf8EncodeChar_of_lt hlt] at hb
      rw [List.mem_singleton.mp hb]
      exact (isHostChar_of_lt hlt).mp (hchars c hc)
    · exact fun _ _ => Or.inr (le_of_mem_utf8EncodeChar (Nat.le_of_not_lt hlt) b hb)

/-- A byte whose escape is refused is nowhere in a host that is read. -/
theorem writable_of_reads {bytes out : List UInt8}
    (hread : Reads (coding .host) (bytes.flatMap fun b => utf8 (escapeByte .host b)) out) :
    ∀ b ∈ bytes, Writable .host b := by
  induction bytes generalizing out with
  | nil => exact fun b hb => absurd hb List.not_mem_nil
  | cons b bytes ih =>
    rw [List.flatMap_cons] at hread
    cases hescape : shouldEscape b .host with
    | false =>
      have hwritable : Writable .host b := fun _ htrue => by rw [hescape] at htrue; cases htrue
      obtain ⟨hlt, hraw⟩ := raw_of_not_shouldEscape hescape
      have hcode : utf8 (escapeByte .host b) = [b] := by
        rw [escapeByte, if_neg (by simp), hescape]
        exact utf8_ofNat hlt
      have hne : b ≠ percent := (plain_of_not_shouldEscape hescape).ne_percent
      rw [hcode, List.singleton_append, reads_cons hne] at hread
      obtain ⟨_, -, rest, -, hrest⟩ := hread
      exact List.forall_mem_cons.mpr ⟨hwritable, ih hrest⟩
    | true =>
      rw [escapeByte, if_neg (by simp), if_pos hescape, utf8_percent] at hread
      obtain ⟨b', hquoted, rest, -, hrest⟩ := reads_percent.mp hread
      have hsame := (isHex_of_quoted hquoted).2.2
      have hlt := b.toNat_lt
      have hhigh : b.toNat / 16 < 16 := by omega
      have hlow : b.toNat % 16 < 16 := by omega
      rw [unhex_hexDigit hhigh, unhex_hexDigit hlow, join_div_mod] at hsame
      exact List.forall_mem_cons.mpr ⟨fun _ _ => hsame ▸ quoted_host hquoted, ih hrest⟩

theorem parseHost_escape_iff {x : List Char} :
    parseHost (escape h .host) = .ok x ↔ x = h ∧ HostOk h := by
  rw [parseHost_iff]
  constructor
  · intro hread
    obtain ⟨hvalid, hunescape⟩ := hread
    have hreads := unescape_iff.mp hunescape
    rw [utf8_escape] at hreads
    have hwritable := writable_of_reads hreads
    rw [unescape_escape_of_writable hwritable] at hunescape
    refine ⟨(Except.ok.inj hunescape).symm, writable_iff.mp hwritable, ?_⟩
    rw [← validHost_congr (reads_escape hwritable)]
    exact hvalid
  · intro hok
    obtain ⟨rfl, hchars, hvalid⟩ := hok
    have hwritable := writable_iff.mpr hchars
    rw [validHost_congr (reads_escape hwritable)]
    exact ⟨hvalid, unescape_escape_of_writable hwritable⟩

theorem hostOk_of_parseHost (hparse : parseHost r = .ok h) : HostOk h := by
  obtain ⟨hvalid, hunescape⟩ := parseHost_iff.mp hparse
  have hread : Decodes r h := unescape_iff.mp hunescape
  refine ⟨writable_iff.mp (Reads.forall (fun c b hraw => ?_) (fun x y b hquoted => ?_) hread), ?_⟩
  · exact (raw_host hraw).2
  · exact fun _ _ => quoted_host hquoted
  · rw [← validHost_congr hread]
    exact hvalid

/-! ## Escapes in a host -/

/-- The text with the digits of its escapes in upper case. -/
def upperEscapes : List Char → List Char
  | '%' :: x :: y :: rest => '%' :: x.toUpper :: y.toUpper :: upperEscapes rest
  | c :: rest => c :: upperEscapes rest
  | [] => []

theorem upperEscapes_cons {c : Char} (hc : c ≠ '%') (rest : List Char) :
    upperEscapes (c :: rest) = c :: upperEscapes rest := by
  rw [upperEscapes]
  intro x y rest' hpercent
  exact absurd hpercent hc

theorem escapeByte_host_of_escaped {b : UInt8} (h : b = 0x25 ∨ 128 ≤ b.toNat) :
    escapeByte .host b = ['%', hexDigit (b.toNat / 16), hexDigit (b.toNat % 16)] := by
  have hescape : shouldEscape b .host = true := by
    rw [← Bool.not_eq_false]
    intro hkept
    rcases h with hb | hb
    · exact ne_percent_of_not_shouldEscape hkept hb
    · exact absurd (lt_of_not_shouldEscape hkept) (Nat.not_lt.mpr hb)
  rw [escapeByte, if_neg (by simp), if_pos hescape]

theorem hexDigit_unhex {x y : UInt8} (hx : isHex x = true) (hy : isHex y = true) :
    hexDigit ((unhex x <<< 4 ||| unhex y).toNat / 16) = (Char.ofNat x.toNat).toUpper ∧
      hexDigit ((unhex x <<< 4 ||| unhex y).toNat % 16) = (Char.ofNat y.toNat).toUpper := by
  have hupper : ∀ x : UInt8, isHex x = true → hexDigit (unhex x).toNat =
      (Char.ofNat x.toNat).toUpper := forall_byte (by decide +kernel)
  have hltx := unhex_lt hx
  have hlty := unhex_lt hy
  have hvalue := toNat_join hltx hlty
  rw [UInt8.ofNat_toNat, UInt8.ofNat_toNat] at hvalue
  rw [hvalue, ← hupper x hx, ← hupper y hy]
  constructor
  · congr 1
    omega
  · congr 1
    omega

/-- An ASCII host is printed as it was read, but for the case of its escapes. -/
theorem flatMap_escapeByte_of_reads {bytes out : List UInt8} (h : Reads (coding .host) bytes out)
    (hascii : ∀ b ∈ bytes, b.toNat < 128) :
    out.flatMap (escapeByte .host) = upperEscapes (bytes.map fun b => Char.ofNat b.toNat) := by
  induction h with
  | nil => rfl
  | @raw c b bytes out hraw _ ih =>
    obtain ⟨rfl, hwritable⟩ := raw_host hraw
    have hlt := hascii c List.mem_cons_self
    have hescape : shouldEscape c .host = false := by
      rw [← Bool.not_eq_true]
      intro hescape
      rcases hwritable rfl hescape with rfl | hle
      · cases hraw
      · omega
    have hne : Char.ofNat c.toNat ≠ '%' := by
      intro hpercent
      refine ne_percent_of_not_shouldEscape hescape ?_
      rw [← toUInt8_ofNat_toNat c, hpercent]
      rfl
    rw [List.flatMap_cons, List.map_cons, upperEscapes_cons hne,
      ih fun b hb => hascii b (List.mem_cons_of_mem c hb), escapeByte, if_neg (by simp), hescape]
    rfl
  | @quoted x y b bytes out hquoted _ ih =>
    obtain ⟨hx, hy, rfl⟩ := isHex_of_quoted hquoted
    obtain ⟨hhigh, hlow⟩ := hexDigit_unhex hx hy
    have hrest := ih fun b hb => hascii b (by simp [hb])
    rw [List.flatMap_cons, hrest, escapeByte_host_of_escaped (quoted_host hquoted), hhigh, hlow]
    rfl

theorem escape_host_of_unescape (hread : unescape r .host = .ok h) (hascii : ∀ c ∈ r, c.toNat < 128) :
    escape h .host = upperEscapes r := by
  have hreads := unescape_iff.mp hread
  rw [utf8_of_lt hascii] at hreads
  refine (flatMap_escapeByte_of_reads hreads ?_).trans (congrArg upperEscapes ?_)
  · intro b hb
    obtain ⟨c, hc, rfl⟩ := List.mem_map.mp hb
    rw [toNat_toUInt8 (hascii c hc)]
    exact hascii c hc
  · rw [List.map_map]
    refine (List.map_congr_left fun c hc => ?_).trans (List.map_id r)
    show Char.ofNat c.toUInt8.toNat = c
    rw [toNat_toUInt8 (hascii c hc), Char.ofNat_toNat]

end Gourl
end Util
end Eds
