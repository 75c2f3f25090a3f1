import Eds.Lexing.Cut
import Eds.Lexing.Json
import Eds.Collections.Dict
import Eds.Util.Sql

/-!
# URLs, as they are read

`urlsplit`, `unquote` and `parse_qs` on texts as lists of characters.  `urlsplit` cuts and
checks nothing: that it drops tabs and newlines and refuses some hosts is left out.
-/

namespace Eds
namespace Util
namespace Urls

open Collections Lexing

/-! ## The parts of a URL -/

structure SplitResult where
  scheme : List Char
  netloc : List Char
  path : List Char
  query : List Char
  fragment : List Char
  deriving DecidableEq

def isSchemeChar (c : Char) : Bool := c.isAlphanum || c == '+' || c == '-' || c == '.'

def isScheme : List Char → Bool
  | c :: name => c.isAlpha && (c :: name).all isSchemeChar
  | [] => false

def splitScheme (url : List Char) : List Char × List Char :=
  match partition ':' url with
  | (scheme, true, rest) => if isScheme scheme then (scheme.map Char.toLower, rest) else ([], url)
  | _ => ([], url)

def inNetloc (c : Char) : Bool := !(c == '/' || c == '?' || c == '#')

def splitNetloc : List Char → List Char × List Char
  | '/' :: '/' :: rest => (rest.takeWhile inNetloc, rest.dropWhile inNetloc)
  | rest => ([], rest)

def urlsplit (url : List Char) : SplitResult :=
  let (scheme, rest) := splitScheme url
  let (netloc, rest) := splitNetloc rest
  let (rest, _, fragment) := partition '#' rest
  let (path, _, query) := partition '?' rest
  ⟨scheme, netloc, path, query, fragment⟩

/-! ## Percent escapes -/

/-- Between characters that are not ASCII stand bytes, to be decoded. -/
inductive Symbol
  | byte (b : Nat)
  | char (c : Char)

def Symbol.ofChar (c : Char) : Symbol := if c.toNat < 128 then .byte c.toNat else .char c

def symbols : List Char → List Symbol
  | '%' :: x :: y :: rest =>
    match Lexing.Json.hexValue x, Lexing.Json.hexValue y with
    | some i, some j => .byte (16 * i + j) :: symbols rest
    | _, _ => Symbol.ofChar '%' :: symbols (x :: y :: rest)
  | c :: rest => Symbol.ofChar c :: symbols rest
  | [] => []

/-- In the middle of a character: its bits so far, how many bytes are missing, and the bounds of
the next one, which is never ASCII. -/
structure Pending where
  bits : Nat
  missing : Nat
  low : Nat
  high : Nat
  beyond : 128 ≤ low

def replacement : Char := Char.ofNat 0xFFFD

def lead (b : Nat) : Option Pending × List Char :=
  if b < 0x80 then (none, [Char.ofNat b])
  else if b < 0xC2 then (none, [replacement])
  else if b < 0xE0 then (some ⟨b % 32, 1, 0x80, 0xBF, by decide⟩, [])
  else if b < 0xF0 then
    (some ⟨b % 16, 2, if b = 0xE0 then 0xA0 else 0x80, if b = 0xED then 0x9F else 0xBF,
      by split <;> decide⟩, [])
  else if b < 0xF5 then
    (some ⟨b % 8, 3, if b = 0xF0 then 0x90 else 0x80, if b = 0xF4 then 0x8F else 0xBF,
      by split <;> decide⟩, [])
  else (none, [replacement])

/-- A character that was begun is replaced when it ends too early. -/
def flush : Option Pending → List Char
  | none => []
  | some _ => [replacement]

def decodeStep : Option Pending → Symbol → Option Pending × List Char
  | pending, .char c => (none, flush pending ++ [c])
  | none, .byte b => lead b
  | some p, .byte b =>
    if p.low ≤ b ∧ b ≤ p.high then
      if p.missing = 1 then (none, [Char.ofNat (64 * p.bits + b % 64)])
      else (some ⟨64 * p.bits + b % 64, p.missing - 1, 0x80, 0xBF, by decide⟩, [])
    else ((lead b).1, replacement :: (lead b).2)

/-- UTF-8, with `errors='replace'`. -/
def decode : Option Pending → List Symbol → List Char
  | pending, [] => flush pending
  | pending, s :: rest => (decodeStep pending s).2 ++ decode (decodeStep pending s).1 rest

def unquote (text : List Char) : List Char :=
  if '%' ∈ text then decode none (symbols text) else text

def unquotePlus (text : List Char) : List Char :=
  unquote (text.map fun c => if c = '+' then ' ' else c)

/-! ## Queries -/

/-- `keep_blank_values=True` -/
def parseQsl (query : List Char) : List (List Char × List Char) :=
  (query.splitOn '&').filterMap fun nameValue =>
    if nameValue = [] then none
    else
      let (name, _, value) := partition '=' nameValue
      some (unquotePlus name, unquotePlus value)

abbrev Query := Dict (List Char) (List (List Char))

def addValue (parsed : Query) (item : List Char × List Char) : Query :=
  parsed.insert item.1 ((parsed.get? item.1).getD [] ++ [item.2])

def parseQs (query : List Char) : Query := (parseQsl query).foldl addValue Dict.empty

/-! ## Texts without escapes -/

theorem symbols_cons {c : Char} (h : c ≠ '%') (rest : List Char) :
    symbols (c :: rest) = Symbol.ofChar c :: symbols rest := by
  rw [symbols.eq_def]
  split
  · next heq => exact absurd (List.cons.inj heq).1 h
  · next heq => rw [(List.cons.inj heq).1, (List.cons.inj heq).2]
  · next heq => cases heq

theorem symbols_of_notMem {text : List Char} (h : '%' ∉ text) :
    symbols text = text.map Symbol.ofChar := by
  induction text with
  | nil => rfl
  | cons c text ih =>
    have hne : c ≠ '%' := fun hc => h (hc ▸ List.mem_cons_self)
    rw [symbols_cons hne, ih fun hmem => h (List.mem_cons_of_mem c hmem), List.map_cons]

/-- A `%` with two hexadecimal digits behind it. -/
def hasEscape : List Char → Bool
  | '%' :: x :: y :: rest =>
    (Lexing.Json.hexValue x).isSome && (Lexing.Json.hexValue y).isSome || hasEscape (x :: y :: rest)
  | _ :: rest => hasEscape rest
  | [] => false

theorem hasEscape_cons {c : Char} (h : c ≠ '%') (rest : List Char) :
    hasEscape (c :: rest) = hasEscape rest := by
  rw [hasEscape.eq_def]
  split
  · next heq => exact absurd (List.cons.inj heq).1 h
  · next heq => rw [(List.cons.inj heq).2]
  · next heq => cases heq

theorem symbols_of_noEscape {text : List Char} (h : hasEscape text = false) :
    symbols text = text.map Symbol.ofChar := by
  induction text using symbols.induct with
  | case1 x y text i j hx hy ih =>
    rw [hasEscape, hx, hy] at h
    cases h
  | case2 x y text hnot ih =>
    rw [hasEscape, Bool.or_eq_false_iff] at h
    rw [symbols]
    split
    · next i j hx hy => exact absurd hy (hnot i j hx)
    · rw [ih h.2]
      rfl
  | case3 c text hshort ih =>
    by_cases hc : c = '%'
    · subst hc
      match text, hshort, ih with
      | [], _, _ => rfl
      | [x], _, ih => exact congrArg _ (ih h)
      | x :: y :: text, hshort, _ => exact absurd rfl (hshort x y text rfl)
    · rw [hasEscape_cons hc] at h
      rw [symbols_cons hc, ih h, List.map_cons]
  | case4 => rfl

/-- No escape reaches over a colon. -/
theorem symbols_colon (text rest : List Char) :
    symbols (text ++ ':' :: rest) = symbols text ++ Symbol.ofChar ':' :: symbols rest := by
  have hcolon := symbols_cons (show ':' ≠ '%' by decide) rest
  induction text using symbols.induct with
  | case1 x y text i j hx hy ih =>
    rw [List.cons_append, List.cons_append, List.cons_append, symbols, symbols]
    simp only [hx, hy, ih, List.cons_append]
  | case2 x y text hnot ih =>
    rw [List.cons_append, List.cons_append, List.cons_append, symbols, symbols]
    split
    · next i j hx hy => exact absurd hy (hnot i j hx)
    · rw [← List.cons_append, ← List.cons_append, ih]
      rfl
  | case3 c text hshort ih =>
    by_cases hc : c = '%'
    · subst hc
      match text, hshort, ih with
      | [], _, _ =>
        cases rest with
        | nil => rfl
        | cons y rest =>
          rw [List.cons_append, List.nil_append, symbols, hcolon]
          rfl
      | [x], _, ih =>
        rw [List.cons_append, List.cons_append, List.nil_append, symbols]
        have hnone : Lexing.Json.hexValue ':' = none := rfl
        rw [hnone]
        split
        · next heq => cases heq
        · exact congrArg _ ih
      | x :: y :: text, hshort, _ => exact absurd rfl (hshort x y text rfl)
    · rw [List.cons_append, symbols_cons hc, symbols_cons hc, ih, List.cons_append]
  | case4 => exact hcolon

theorem decode_ofChar (c : Char) (rest : List Symbol) :
    decode none (Symbol.ofChar c :: rest) = c :: decode none rest := by
  by_cases hc : c.toNat < 128
  · rw [Symbol.ofChar, if_pos hc, decode, decodeStep, lead, if_pos hc, Char.ofNat_toNat]
    rfl
  · rw [Symbol.ofChar, if_neg hc, decode, decodeStep]
    rfl

theorem decode_map_ofChar (text : List Char) :
    decode none (text.map Symbol.ofChar) = text := by
  induction text with
  | nil => rfl
  | cons c text ih => rw [List.map_cons, decode_ofChar, ih]

/-- A colon ends every character that was begun. -/
theorem decode_colon (pending : Option Pending) (text rest : List Symbol) :
    decode pending (text ++ Symbol.ofChar ':' :: rest) =
      decode pending text ++ ':' :: decode none rest := by
  induction text generalizing pending with
  | nil =>
    cases pending with
    | none => exact decode_ofChar ':' rest
    | some p =>
      have hbeyond := p.beyond
      have hout : ¬ (p.low ≤ 58 ∧ 58 ≤ p.high) := by omega
      have hstep : decodeStep (some p) (Symbol.ofChar ':') = (none, [replacement, ':']) :=
        if_neg hout
      show (decodeStep (some p) (Symbol.ofChar ':')).2 ++
        decode (decodeStep (some p) (Symbol.ofChar ':')).1 rest = _
      rw [hstep]
      rfl
  | cons s text ih => rw [List.cons_append, decode, ih, decode, List.append_assoc]

theorem unquote_of_notMem {text : List Char} (h : '%' ∉ text) : unquote text = text := if_neg h

theorem unquote_eq_decode (text : List Char) : unquote text = decode none (symbols text) := by
  by_cases h : '%' ∈ text
  · exact if_pos h
  · rw [unquote_of_notMem h, symbols_of_notMem h, decode_map_ofChar]

theorem unquote_of_noEscape {text : List Char} (h : hasEscape text = false) : unquote text = text := by
  rw [unquote_eq_decode, symbols_of_noEscape h, decode_map_ofChar]

/-- What follows a colon and has no escape stands as it is at the end. -/
theorem unquote_colon (text : List Char) {rest : List Char} (h : hasEscape rest = false) :
    unquote (text ++ ':' :: rest) = unquote text ++ ':' :: rest := by
  rw [unquote_eq_decode, unquote_eq_decode, symbols_colon, decode_colon, symbols_of_noEscape h,
    decode_map_ofChar]

/-! ## What a stop does to the parts -/

theorem splitScheme_of_isScheme {scheme : List Char} (h : isScheme scheme = true)
    (rest : List Char) :
    splitScheme (scheme ++ ':' :: rest) = (scheme.map Char.toLower, rest) := by
  have hcolon : ':' ∉ scheme := by
    intro hmem
    cases scheme with
    | nil => cases hmem
    | cons c name =>
      have hall := (Bool.and_eq_true_iff.mp h).2
      exact absurd (List.all_eq_true.mp hall _ hmem) (by decide)
  rw [splitScheme, partition_append hcolon]
  exact if_pos h

/-- Behind the scheme: the text is cut at the first `/`, `?` or `#`, then at the first `#`, then
at the first `?`. -/
def splitRest (scheme rest : List Char) : SplitResult :=
  let (rest', _, fragment) := partition '#' (rest.dropWhile inNetloc)
  let (path, _, query) := partition '?' rest'
  ⟨scheme, rest.takeWhile inNetloc, path, query, fragment⟩

theorem urlsplit_of_isScheme {scheme : List Char} (h : isScheme scheme = true)
    (rest : List Char) :
    urlsplit (scheme ++ ':' :: '/' :: '/' :: rest) = splitRest (scheme.map Char.toLower) rest := by
  rw [urlsplit, splitScheme_of_isScheme h]
  rfl

theorem notMem_dropWhile {sep : Char} {a : List Char} (h : sep ∉ a) (p : Char → Bool) :
    sep ∉ a.dropWhile p := fun hmem => h ((List.dropWhile_sublist p).subset hmem)

/-- What follows a `#` is the fragment and nothing else. -/
theorem splitRest_hash {a : List Char} (h : '#' ∉ a) (scheme rest : List Char) :
    splitRest scheme (a ++ '#' :: rest) = { splitRest scheme a with fragment := rest } := by
  have hstop : inNetloc '#' = false := rfl
  simp only [splitRest, takeWhile_append_stop hstop, dropWhile_append_stop hstop,
    partition_append (notMem_dropWhile h inNetloc), partition_of_notMem (notMem_dropWhile h inNetloc)]

/-- What follows the first `?` is the query, up to a `#`. -/
theorem splitRest_question {a : List Char} (h : '#' ∉ a) (h' : '?' ∉ a)
    (scheme rest : List Char) :
    splitRest scheme (a ++ '?' :: rest) =
      { splitRest scheme a with
        query := (partition '#' rest).1, fragment := (partition '#' rest).2.2 } := by
  have hstop : inNetloc '?' = false := rfl
  have hhash := notMem_dropWhile h inNetloc
  have hcut : partition '#' ('?' :: rest) =
      ('?' :: (partition '#' rest).1, (partition '#' rest).2) := rfl
  have hpath := notMem_dropWhile h' inNetloc
  simp only [splitRest, takeWhile_append_stop hstop, dropWhile_append_stop hstop,
    partition_append_of_notMem hhash, hcut, partition_append hpath, partition_of_notMem hhash,
    partition_of_notMem hpath]

end Urls
end Util
end Eds
