import Eds.Lexing.JsonText

/-!
# Flat TOML documents

The part of TOML 1.0 that has one key on a line: a bare key and a basic string, a boolean or a
decimal integer without underscores.  `Document` says which entries a text has, and
`read_document` that `read` finds them.
-/

namespace Eds
namespace Lexing
namespace Toml

open Eds.Lexing.Json

inductive Scalar where
  | str (s : List Char)
  | bool (b : Bool)
  | int (n : Int)

/-! ## The grammar -/

def isBare (c : Char) : Bool := c.isAlphanum || c == '_' || c == '-'

def BareKey (key : List Char) : Prop := key ≠ [] ∧ ∀ c ∈ key, isBare c = true

instance (key : List Char) : Decidable (BareKey key) :=
  have : Decidable (∀ c ∈ key, isBare c = true) := List.decidableBAll _ _
  inferInstanceAs (Decidable (key ≠ [] ∧ ∀ c ∈ key, isBare c = true))

/-- `basic-unescaped`: of the control characters only the tab. -/
def isPlain (c : Char) : Bool :=
  c == '\t' || decide (0x20 ≤ c.toNat ∧ c ≠ '"' ∧ c ≠ '\\' ∧ c.toNat ≠ 0x7F)

def unescape : Char → Option Char
  | '"' => some '"'
  | '\\' => some '\\'
  | 'b' => some (Char.ofNat 8)
  | 't' => some '\t'
  | 'n' => some '\n'
  | 'f' => some (Char.ofNat 12)
  | 'r' => some '\r'
  | _ => none

/-- A character as it is, behind a backslash, or by its number. -/
inductive SpelledChar (c : Char) : List Char → Prop where
  | plain (h : isPlain c = true) : SpelledChar c [c]
  | escape {e : Char} (h : unescape e = some c) : SpelledChar c ['\\', e]
  | unicode {a b d e : Char} (h : hex4 a b d e = some c.toNat) : SpelledChar c ['\\', 'u', a, b, d, e]

inductive SpelledString : List Char → List Char → Prop where
  | nil : SpelledString [] []
  | cons {c : Char} {s w v : List Char} (hc : SpelledChar c w) (hs : SpelledString s v) :
      SpelledString (c :: s) (w ++ v)

inductive Spelled : Scalar → List Char → Prop where
  | str {s w : List Char} (h : SpelledString s w) : Spelled (.str s) ('"' :: (w ++ ['"']))
  | true : Spelled (.bool true) ['t', 'r', 'u', 'e']
  | false : Spelled (.bool false) ['f', 'a', 'l', 's', 'e']
  | int {ds : List Char} (h : IsWhole ds) : Spelled (.int (Nat.ofDigitChars 10 ds 0)) ds
  | negative {ds : List Char} (h : IsWhole ds) : Spelled (.int (-Nat.ofDigitChars 10 ds 0)) ('-' :: ds)

/-- One entry on a line. -/
inductive Document : List (List Char × Scalar) → List Char → Prop where
  | nil : Document [] []
  | cons {key w text : List Char} {v : Scalar} {entries : List (List Char × Scalar)} (hkey : BareKey key)
      (hv : Spelled v w) (h : Document entries text) :
      Document ((key, v) :: entries) (key ++ ' ' :: '=' :: ' ' :: (w ++ '\n' :: text))

/-! ## A reader -/

/-- Up to the closing quote. -/
def readChars : List Char → Option (List Char × List Char)
  | '"' :: rest => some ([], rest)
  | '\\' :: 'u' :: a :: b :: c :: d :: rest =>
    match hex4 a b c d with
    | some n => if n.isValidChar then push (Char.ofNat n) (readChars rest) else none
    | none => none
  | '\\' :: e :: rest =>
    match unescape e with
    | some c => push c (readChars rest)
    | none => none
  | c :: rest => if isPlain c then push c (readChars rest) else none
  | [] => none

def readScalar : List Char → Option (Scalar × List Char)
  | '"' :: rest => (readChars rest).map fun r => (.str r.1, r.2)
  | 't' :: 'r' :: 'u' :: 'e' :: rest => some (.bool true, rest)
  | 'f' :: 'a' :: 'l' :: 's' :: 'e' :: rest => some (.bool false, rest)
  | '-' :: rest => (readWhole rest).map fun r => (.int (-Nat.ofDigitChars 10 r.1 0), r.2)
  | text => (readWhole text).map fun r => (.int (Nat.ofDigitChars 10 r.1 0), r.2)

/-- The number bounds the lines. -/
def readLines : Nat → List Char → Option (List (List Char × Scalar))
  | _, [] => some []
  | 0, _ => none
  | n + 1, text =>
    match text.dropWhile isBare with
    | ' ' :: '=' :: ' ' :: rest =>
      match readScalar rest with
      | some (v, '\n' :: rest) => (readLines n rest).map fun entries => (text.takeWhile isBare, v) :: entries
      | _ => none
    | _ => none

def read (text : List Char) : Option (List (List Char × Scalar)) := readLines text.length text

theorem readChars_plain {c : Char} (h : isPlain c = true) (rest : List Char) :
    readChars (c :: rest) = push c (readChars rest) := by
  have hquote : c ≠ '"' := by
    rintro rfl
    cases h
  have hslash : c ≠ '\\' := by
    rintro rfl
    cases h
  rw [readChars.eq_def]
  split
  · next heq => exact absurd (List.cons.inj heq).1 hquote
  · next heq => exact absurd (List.cons.inj heq).1 hslash
  · next heq => exact absurd (List.cons.inj heq).1 hslash
  · next heq =>
    obtain ⟨rfl, rfl⟩ := List.cons.inj heq
    rw [if_pos h]
  · next heq => cases heq

theorem readChars_escape {e c : Char} (h : unescape e = some c) (rest : List Char) :
    readChars ('\\' :: e :: rest) = push c (readChars rest) := by
  have hu : e ≠ 'u' := by
    rintro rfl
    cases h
  rw [readChars.eq_def]
  split
  · next heq => exact absurd (List.cons.inj heq).1 (by decide)
  · next heq => exact absurd (List.cons.inj (List.cons.inj heq).2).1 hu
  · next heq =>
    obtain ⟨rfl, rfl⟩ := List.cons.inj (List.cons.inj heq).2
    rw [h]
  · next hnone heq =>
    obtain ⟨rfl, rfl⟩ := List.cons.inj heq
    exact absurd rfl (hnone e rest rfl)
  · next heq => cases heq

theorem readChars_unicode {a b d e c : Char} (h : hex4 a b d e = some c.toNat) (rest : List Char) :
    readChars ('\\' :: 'u' :: a :: b :: d :: e :: rest) = push c (readChars rest) := by
  have hvalid : c.toNat.isValidChar := c.valid
  rw [readChars, h]
  dsimp only
  rw [if_pos hvalid, Char.ofNat_toNat]

theorem readChars_append {s w : List Char} (h : SpelledString s w) (rest : List Char) :
    readChars (w ++ '"' :: rest) = some (s, rest) := by
  induction h with
  | nil => rfl
  | cons hc _ ih =>
    rw [List.append_assoc]
    cases hc with
    | plain hplain =>
      rw [List.singleton_append, readChars_plain hplain, ih]
      rfl
    | escape h =>
      rw [List.cons_append, List.singleton_append, readChars_escape h, ih]
      rfl
    | unicode h =>
      refine (readChars_unicode h _).trans ?_
      rw [List.append_eq, List.nil_append, ih]
      rfl

theorem readScalar_whole {ds rest : List Char} (h : IsWhole ds) (hrest : Stops Json.isDigit rest) :
    readScalar (ds ++ rest) = some (.int (Nat.ofDigitChars 10 ds 0), rest) := by
  obtain ⟨c, text, htext, hc⟩ := h.digits.cons
  have hread := readWhole_append h hrest
  have hne : ∀ d, Json.isDigit d = false → c ≠ d := fun d hd => ne_of_isDigit hc hd
  rw [htext, List.cons_append] at hread ⊢
  rw [readScalar.eq_def]
  split
  · next heq => exact absurd (List.cons.inj heq).1 (hne '"' rfl)
  · next heq => exact absurd (List.cons.inj heq).1 (hne 't' rfl)
  · next heq => exact absurd (List.cons.inj heq).1 (hne 'f' rfl)
  · next heq => exact absurd (List.cons.inj heq).1 (hne '-' rfl)
  · rw [hread]
    rfl

theorem readScalar_append {v : Scalar} {w rest : List Char} (h : Spelled v w)
    (hrest : Stops Json.isDigit rest) : readScalar (w ++ rest) = some (v, rest) := by
  cases h with
  | str h =>
    rw [List.cons_append, List.append_assoc, List.singleton_append, readScalar, readChars_append h]
    rfl
  | true => rfl
  | false => rfl
  | int h => exact readScalar_whole h hrest
  | negative h =>
    rw [List.cons_append, readScalar, readWhole_append h hrest]
    rfl

theorem length_le_of_document {entries : List (List Char × Scalar)} {text : List Char}
    (h : Document entries text) : entries.length ≤ text.length := by
  induction h with
  | nil => exact Nat.le_refl 0
  | cons _ _ _ ih =>
    simp only [List.length_append, List.length_cons]
    omega

theorem readLines_document {entries : List (List Char × Scalar)} {text : List Char}
    (h : Document entries text) {n : Nat} (hn : entries.length ≤ n) :
    readLines n text = some entries := by
  induction h generalizing n with
  | nil => cases n <;> rfl
  | @cons key w text v entries hkey hv _ ih =>
    obtain ⟨n, rfl⟩ : ∃ m, n = m + 1 := ⟨n - 1, by rw [List.length_cons] at hn; omega⟩
    have hspace : ∀ c ∈ (' ' :: '=' :: ' ' :: (w ++ '\n' :: text)).head?, isBare c = false := by
      intro c hc
      cases hc
      rfl
    obtain ⟨htake, hdrop⟩ := span_append hkey.2 hspace
    have hstop : Stops Json.isDigit ('\n' :: text) := stops_cons rfl
    have hread := readScalar_append hv hstop
    have hrest := ih (Nat.le_of_succ_le_succ hn)
    obtain ⟨c, key', hkeys⟩ := List.exists_cons_of_ne_nil hkey.1
    have hlines : readLines (n + 1) (key ++ ' ' :: '=' :: ' ' :: (w ++ '\n' :: text)) =
        match (key ++ ' ' :: '=' :: ' ' :: (w ++ '\n' :: text)).dropWhile isBare with
        | ' ' :: '=' :: ' ' :: rest =>
          match readScalar rest with
          | some (v, '\n' :: rest) => (readLines n rest).map fun entries =>
              ((key ++ ' ' :: '=' :: ' ' :: (w ++ '\n' :: text)).takeWhile isBare, v) :: entries
          | _ => none
        | _ => none := by
      rw [hkeys]
      rfl
    rw [hlines, hdrop, htake]
    show (match readScalar (w ++ '\n' :: text) with
      | some (v, '\n' :: rest) => (readLines n rest).map fun entries => (key, v) :: entries
      | _ => none) = _
    rw [hread]
    show (readLines n text).map (fun entries => (key, v) :: entries) = _
    rw [hrest]
    rfl

/-- The entries of a document are read. -/
theorem read_document {entries : List (List Char × Scalar)} {text : List Char}
    (h : Document entries text) : read text = some entries :=
  readLines_document h (length_le_of_document h)

end Toml
end Lexing
end Eds
