import Mathlib.Data.List.Basic
import Eds.Lexing.Cut

/-!
# Reading JSON

A parser for JSON texts, with the numbers kept as they are written and the fields of an object
in their order.  It accepts what the decoders of most languages accept: white space between
tokens, every escape, and the three words for numbers that are not finite.  A lone surrogate
is no character and is refused.

`Reads t w` says that `w` stands for `t` wherever it stands; the rules put the texts of values
together.
-/

namespace Eds
namespace Lexing
namespace Json

inductive Tree where
  | null
  | bool (b : Bool)
  | number (text : List Char)
  | str (s : List Char)
  | arr (items : List Tree)
  | obj (fields : List (List Char × Tree))

def skip (text : List Char) : List Char := text.dropWhile isSpace

/-! ## Strings -/

def hexValue (c : Char) : Option Nat :=
  if '0' ≤ c ∧ c ≤ '9' then some (c.toNat - '0'.toNat)
  else if 'a' ≤ c ∧ c ≤ 'f' then some (c.toNat - 'a'.toNat + 10)
  else if 'A' ≤ c ∧ c ≤ 'F' then some (c.toNat - 'A'.toNat + 10)
  else none

def hex4 (a b c d : Char) : Option Nat := do
  let a ← hexValue a
  let b ← hexValue b
  let c ← hexValue c
  let d ← hexValue d
  pure (4096 * a + 256 * b + 16 * c + d)

def unescape : Char → Option Char
  | '"' => some '"'
  | '\\' => some '\\'
  | '/' => some '/'
  | 'b' => some (Char.ofNat 8)
  | 'f' => some (Char.ofNat 12)
  | 'n' => some '\n'
  | 'r' => some '\r'
  | 't' => some '\t'
  | _ => none

def isHigh (u : Nat) : Bool := decide (0xD800 ≤ u ∧ u < 0xDC00)

def isLow (u : Nat) : Bool := decide (0xDC00 ≤ u ∧ u < 0xE000)

/-- The value of a surrogate pair. -/
def combine (u v : Nat) : Nat := 0x10000 + 0x400 * (u - 0xD800) + (v - 0xDC00)

/-- In front of what has been read. -/
def push (c : Char) (r : Option (List Char × List Char)) : Option (List Char × List Char) :=
  r.map fun r => (c :: r.1, r.2)

/-- Up to the closing quote. -/
def readString : List Char → Option (List Char × List Char)
  | '"' :: rest => some ([], rest)
  | '\\' :: 'u' :: a :: b :: c :: d :: rest =>
    match hex4 a b c d with
    | none => none
    | some u =>
      if isHigh u then
        match rest with
        | '\\' :: 'u' :: a :: b :: c :: d :: rest =>
          match hex4 a b c d with
          | none => none
          | some v => if isLow v then push (Char.ofNat (combine u v)) (readString rest) else none
        | _ => none
      else if isLow u then none
      else push (Char.ofNat u) (readString rest)
  | '\\' :: c :: rest =>
    match unescape c with
    | some c => push c (readString rest)
    | none => none
  | c :: rest => if c.toNat < 0x20 then none else push c (readString rest)
  | [] => none

/-! ## Numbers -/

def isDigit (c : Char) : Bool := decide ('0' ≤ c ∧ c ≤ '9')

/-- `0`, or digits that do not start with `0`. -/
def readWhole : List Char → Option (List Char × List Char)
  | '0' :: rest => some (['0'], rest)
  | text =>
    if text.takeWhile isDigit = [] then none
    else some (text.takeWhile isDigit, text.dropWhile isDigit)

/-- Without a digit after it, the point is not part of the number. -/
def readFraction : List Char → List Char × List Char
  | '.' :: rest =>
    if rest.takeWhile isDigit = [] then ([], '.' :: rest)
    else ('.' :: rest.takeWhile isDigit, rest.dropWhile isDigit)
  | text => ([], text)

def readSign : List Char → List Char × List Char
  | '+' :: rest => (['+'], rest)
  | '-' :: rest => (['-'], rest)
  | text => ([], text)

def readExponent : List Char → List Char × List Char
  | [] => ([], [])
  | e :: rest =>
    if (e = 'e' ∨ e = 'E') ∧ (readSign rest).2.takeWhile isDigit ≠ [] then
      (e :: (readSign rest).1 ++ (readSign rest).2.takeWhile isDigit,
        (readSign rest).2.dropWhile isDigit)
    else ([], e :: rest)

def readMinus : List Char → List Char × List Char
  | '-' :: rest => (['-'], rest)
  | text => ([], text)

def readNumber (text : List Char) : Option (List Char × List Char) := do
  let (whole, rest) ← readWhole (readMinus text).2
  let (fraction, rest) := readFraction rest
  let (exponent, rest) := readExponent rest
  pure ((readMinus text).1 ++ whole ++ fraction ++ exponent, rest)

/-! ## Values -/

def literals : List (List Char × Tree) :=
  [(['n', 'u', 'l', 'l'], .null), (['t', 'r', 'u', 'e'], .bool true),
    (['f', 'a', 'l', 's', 'e'], .bool false), (['N', 'a', 'N'], .number ['N', 'a', 'N']),
    (['I', 'n', 'f', 'i', 'n', 'i', 't', 'y'], .number ['I', 'n', 'f', 'i', 'n', 'i', 't', 'y']),
    (['-', 'I', 'n', 'f', 'i', 'n', 'i', 't', 'y'],
      .number ['-', 'I', 'n', 'f', 'i', 'n', 'i', 't', 'y'])]

def dropPrefix : List Char → List Char → Option (List Char)
  | [], text => some text
  | c :: word, d :: text => if c = d then dropPrefix word text else none
  | _ :: _, [] => none

def readLiteral (text : List Char) : Option (Tree × List Char) :=
  literals.findSome? fun literal => (dropPrefix literal.1 text).map fun rest => (literal.2, rest)

/-- A literal or a number. -/
def readScalar (text : List Char) : Option (Tree × List Char) :=
  match readLiteral text with
  | some r => some r
  | none => (readNumber text).map fun r => (.number r.1, r.2)

mutual

/-- The number bounds the depth of the calls; the length of the text is enough. -/
def readValue : Nat → List Char → Option (Tree × List Char)
  | 0, _ => none
  | _ + 1, '"' :: rest => (readString rest).map fun r => (.str r.1, r.2)
  | n + 1, '[' :: rest =>
    match skip rest with
    | ']' :: rest => some (.arr [], rest)
    | rest => (readItems n rest).map fun r => (.arr r.1, r.2)
  | n + 1, '\x7b' :: rest =>
    match skip rest with
    | '\x7d' :: rest => some (.obj [], rest)
    | rest => (readFields n rest).map fun r => (.obj r.1, r.2)
  | _ + 1, text => readScalar text

/-- One value or more, up to the closing bracket. -/
def readItems : Nat → List Char → Option (List Tree × List Char)
  | 0, _ => none
  | n + 1, text =>
    match readValue n text with
    | none => none
    | some (t, rest) =>
      match skip rest with
      | ']' :: rest => some ([t], rest)
      | ',' :: rest => (readItems n (skip rest)).map fun r => (t :: r.1, r.2)
      | _ => none

def readFields : Nat → List Char → Option (List (List Char × Tree) × List Char)
  | 0, _ => none
  | n + 1, '"' :: text =>
    match readString text with
    | none => none
    | some (key, rest) =>
      match skip rest with
      | ':' :: rest =>
        match readValue n (skip rest) with
        | none => none
        | some (t, rest) =>
          match skip rest with
          | '\x7d' :: rest => some ([(key, t)], rest)
          | ',' :: rest => (readFields n (skip rest)).map fun r => ((key, t) :: r.1, r.2)
          | _ => none
      | _ => none
  | _ + 1, _ => none

end

def parse (text : List Char) : Option Tree :=
  match readValue (text.length + 1) (skip text) with
  | some (t, rest) => if skip rest = [] then some t else none
  | none => none

/-! ## Texts of values -/

/-- What can follow a value. -/
def isEnd (c : Char) : Bool := isSpace c || c == ',' || c == ']' || c == '\x7d'

def Ends (rest : List Char) : Prop := ∀ c ∈ rest.head?, isEnd c = true

def Reads (t : Tree) (w : List Char) : Prop :=
  ∀ n rest, w.length ≤ n → Ends rest → readValue n (w ++ rest) = some (t, rest)

def ReadsChar (c : Char) (w : List Char) : Prop :=
  ∀ rest, readString (w ++ rest) = push c (readString rest)

def ReadsString (s w : List Char) : Prop := ∀ rest, readString (w ++ '"' :: rest) = some (s, rest)

variable {t : Tree} {w : List Char}

theorem ends_nil : Ends [] := fun _ hc => nomatch hc

theorem ends_cons {c : Char} (h : isEnd c = true) (rest : List Char) : Ends (c :: rest) := by
  intro d hd
  cases hd
  exact h

theorem skip_cons {c : Char} (h : isSpace c = false) (rest : List Char) :
    skip (c :: rest) = c :: rest := by
  rw [skip, List.dropWhile_cons, h]
  rfl

/-- No value begins with a character that ends one. -/
theorem readValue_isEnd {c : Char} (h : isEnd c = true) (n : Nat) (rest : List Char) :
    readValue n (c :: rest) = none := by
  have hc : c = ' ' ∨ c = '\t' ∨ c = '\n' ∨ c = '\r' ∨ c = ',' ∨ c = ']' ∨ c = '\x7d' := by
    simpa [isEnd, isSpace, or_assoc] using h
  cases n with
  | zero => rfl
  | succ n => rcases hc with rfl | rfl | rfl | rfl | rfl | rfl | rfl <;> rfl

theorem readValue_nil (n : Nat) : readValue n [] = none := by
  cases n <;> rfl

theorem Reads.cons (h : Reads t w) : ∃ c v, w = c :: v ∧ isEnd c = false := by
  have hread := h w.length [] (Nat.le_refl _) ends_nil
  rw [List.append_nil] at hread
  cases w with
  | nil => rw [readValue_nil] at hread; cases hread
  | cons c v =>
    refine ⟨c, v, rfl, ?_⟩
    cases hc : isEnd c with
    | false => rfl
    | true => rw [readValue_isEnd hc] at hread; cases hread

theorem isSpace_of_isEnd {c : Char} (h : isEnd c = false) : isSpace c = false := by
  simp only [isEnd, Bool.or_eq_false_iff] at h
  exact h.1.1.1

theorem Reads.skip (h : Reads t w) (rest : List Char) : skip (w ++ rest) = w ++ rest := by
  obtain ⟨c, v, rfl, hc⟩ := h.cons
  exact skip_cons (isSpace_of_isEnd hc) (v ++ rest)

/-! ### Scalars -/

theorem reads_null : Reads .null ['n', 'u', 'l', 'l'] := by
  intro n rest hn _
  cases n with
  | zero => cases hn
  | succ n => rfl

theorem reads_true : Reads (.bool true) ['t', 'r', 'u', 'e'] := by
  intro n rest hn _
  cases n with
  | zero => cases hn
  | succ n => rfl

theorem reads_false : Reads (.bool false) ['f', 'a', 'l', 's', 'e'] := by
  intro n rest hn _
  cases n with
  | zero => cases hn
  | succ n => rfl

/-! ### Strings -/

theorem ReadsChar.plain {c : Char} (hquote : c ≠ '"') (hslash : c ≠ '\\') (hspace : 0x20 ≤ c.toNat) :
    ReadsChar c [c] := by
  intro rest
  rw [List.singleton_append, readString.eq_def]
  split
  · next heq => exact absurd (List.cons.inj heq).1 hquote
  · next heq => exact absurd (List.cons.inj heq).1 hslash
  · next heq => exact absurd (List.cons.inj heq).1 hslash
  · next heq =>
    obtain ⟨rfl, rfl⟩ := List.cons.inj heq
    exact if_neg (by omega)
  · next heq => cases heq

theorem ReadsChar.escape {e c : Char} (h : unescape e = some c) : ReadsChar c ['\\', e] := by
  intro rest
  have hu : e ≠ 'u' := by
    intro he
    subst he
    cases h
  show readString ('\\' :: e :: rest) = _
  rw [readString.eq_def]
  split
  · next heq => exact absurd (List.cons.inj heq).1 (by decide)
  · next heq => exact absurd (List.cons.inj (List.cons.inj heq).2).1 hu
  · next heq =>
    obtain ⟨rfl, rfl⟩ := List.cons.inj (List.cons.inj heq).2
    rw [h]
  · next hother heq => exact absurd heq.symm (by
      obtain ⟨rfl, rfl⟩ := List.cons.inj heq
      exact fun _ => hother e rest rfl rfl)
  · next heq => cases heq

theorem ReadsChar.unicode {a b c d : Char} {u : Nat} (h : hex4 a b c d = some u)
    (hhigh : isHigh u = false) (hlow : isLow u = false) :
    ReadsChar (Char.ofNat u) ['\\', 'u', a, b, c, d] := by
  intro rest
  show readString ('\\' :: 'u' :: a :: b :: c :: d :: rest) = _
  rw [readString]
  simp only [h, hhigh, hlow, Bool.false_eq_true, if_false]

theorem readsString_nil : ReadsString [] [] := fun _ => rfl

theorem ReadsChar.append {c : Char} {s v : List Char} (hc : ReadsChar c w) (hs : ReadsString s v) :
    ReadsString (c :: s) (w ++ v) := by
  intro rest
  rw [List.append_assoc, hc, hs]
  rfl

/-- A string is read back if every character is. -/
theorem readsString_flatMap {escape : Char → List Char} {s : List Char}
    (h : ∀ c ∈ s, ReadsChar c (escape c)) : ReadsString s (s.flatMap escape) := by
  induction s with
  | nil => exact readsString_nil
  | cons c s ih =>
    rw [List.flatMap_cons]
    exact (h c List.mem_cons_self).append (ih fun d hd => h d (List.mem_cons_of_mem c hd))

theorem ReadsString.reads {s : List Char} (h : ReadsString s w) :
    Reads (.str s) ('"' :: (w ++ ['"'])) := by
  intro n rest hn _
  cases n with
  | zero => cases hn
  | succ n =>
    rw [List.cons_append, List.append_assoc, readValue, List.singleton_append, h rest]
    rfl

/-! ### Arrays -/

/-- What an array has between its brackets. -/
def joined (texts : List (List Char)) : List Char := List.intercalate [','] texts

theorem joined_cons_cons (w v : List Char) (texts : List (List Char)) :
    joined (w :: v :: texts) = w ++ ',' :: joined (v :: texts) := by
  rw [joined, List.intercalate_cons_cons, List.append_assoc]
  rfl

theorem joined_singleton (w : List Char) : joined [w] = w := by
  simp [joined]

theorem joined_cons (w : List Char) (texts : List (List Char)) :
    ∃ u, joined (w :: texts) = w ++ u := by
  cases texts with
  | nil => exact ⟨[], by rw [joined_singleton, List.append_nil]⟩
  | cons v texts => exact ⟨_, joined_cons_cons w v texts⟩

theorem readItems_reads {parts : List (Tree × List Char)} (h : ∀ p ∈ parts, Reads p.1 p.2)
    (hne : parts ≠ []) {n : Nat} (hn : (joined (parts.map Prod.snd)).length + 1 ≤ n)
    (rest : List Char) :
    readItems n (joined (parts.map Prod.snd) ++ ']' :: rest) = some (parts.map Prod.fst, rest) := by
  induction parts generalizing n with
  | nil => exact absurd rfl hne
  | cons p parts ih =>
    obtain ⟨t, w⟩ := p
    have hp : Reads t w := h _ List.mem_cons_self
    have hparts : ∀ q ∈ parts, Reads q.1 q.2 := fun q hq => h q (List.mem_cons_of_mem _ hq)
    cases n with
    | zero => omega
    | succ n =>
      cases parts with
      | nil =>
        rw [List.map_cons, List.map_nil, joined_singleton] at hn ⊢
        dsimp only at hn ⊢
        rw [readItems, hp n _ (by omega) (ends_cons rfl rest)]
        rfl
      | cons q parts =>
        have hrest := ih hparts (List.cons_ne_nil q parts) (n := n)
        rw [List.map_cons] at hrest
        rw [List.map_cons, List.map_cons, joined_cons_cons] at hn ⊢
        dsimp only at hn ⊢
        rw [List.length_append, List.length_cons] at hn
        obtain ⟨u, hu⟩ := joined_cons q.2 (parts.map Prod.snd)
        have hskip : skip (joined (q.2 :: parts.map Prod.snd) ++ ']' :: rest) =
            joined (q.2 :: parts.map Prod.snd) ++ ']' :: rest := by
          rw [hu, List.append_assoc]
          exact (hparts q List.mem_cons_self).skip _
        rw [List.append_assoc, List.cons_append, readItems,
          hp n _ (by omega) (ends_cons rfl _)]
        dsimp only
        rw [skip_cons rfl]
        show (readItems n (skip (joined (q.2 :: parts.map Prod.snd) ++ ']' :: rest))).map
          (fun r => (t :: r.1, r.2)) = _
        rw [hskip, hrest (by omega)]
        rfl

theorem Reads.arr {parts : List (Tree × List Char)} (h : ∀ p ∈ parts, Reads p.1 p.2) :
    Reads (.arr (parts.map Prod.fst)) ('[' :: (joined (parts.map Prod.snd) ++ [']'])) := by
  intro n rest hn _
  cases n with
  | zero => cases hn
  | succ n =>
    rw [List.length_cons, List.length_append, List.length_singleton] at hn
    rw [List.cons_append, List.append_assoc, List.singleton_append, readValue]
    cases parts with
    | nil => rfl
    | cons p parts =>
      have hitems := readItems_reads h (List.cons_ne_nil p parts) (n := n) (by omega) rest
      obtain ⟨u, hu⟩ := joined_cons p.2 (parts.map Prod.snd)
      obtain ⟨c, v, hw, hc⟩ := (h p List.mem_cons_self).cons
      rw [List.map_cons (f := Prod.snd), hu, hw, List.cons_append, List.cons_append] at hitems ⊢
      rw [skip_cons (isSpace_of_isEnd hc)]
      split
      · next heq =>
        obtain ⟨rfl, -⟩ := List.cons.inj heq
        cases hc
      · rw [hitems]
        rfl

/-! ### Objects -/

/-- A field and its text: the key as it is written, and the value. -/
structure Member where
  key : List Char
  keyText : List Char
  value : Tree
  text : List Char

def Member.Reads (m : Member) : Prop := ReadsString m.key m.keyText ∧ Json.Reads m.value m.text

def Member.written (m : Member) : List Char := '"' :: (m.keyText ++ '"' :: ':' :: m.text)

theorem readFields_reads {members : List Member} (h : ∀ m ∈ members, m.Reads)
    (hne : members ≠ []) {n : Nat} (hn : (joined (members.map Member.written)).length + 1 ≤ n)
    (rest : List Char) :
    readFields n (joined (members.map Member.written) ++ '\x7d' :: rest) =
      some (members.map fun m => (m.key, m.value), rest) := by
  induction members generalizing n with
  | nil => exact absurd rfl hne
  | cons m members ih =>
    obtain ⟨hkey, hvalue⟩ := h m List.mem_cons_self
    have hmembers : ∀ m ∈ members, m.Reads := fun m hm => h m (List.mem_cons_of_mem _ hm)
    cases n with
    | zero => omega
    | succ n =>
      have hfirst : ∀ rest', Ends rest' → m.text.length ≤ n →
          readFields (n + 1) (m.written ++ rest') =
            match skip rest' with
            | '\x7d' :: rest => some ([(m.key, m.value)], rest)
            | ',' :: rest =>
              (readFields n (skip rest)).map fun r => ((m.key, m.value) :: r.1, r.2)
            | _ => none := by
        intro rest' hends hlength
        rw [Member.written, List.cons_append, List.append_assoc, List.cons_append,
          List.cons_append, readFields, hkey]
        dsimp only
        rw [skip_cons rfl]
        simp only [hvalue.skip, hvalue n rest' hlength hends]
      have hwritten : m.written.length = m.keyText.length + m.text.length + 3 := by
        simp only [Member.written, List.length_cons, List.length_append]
        omega
      cases members with
      | nil =>
        rw [List.map_cons, List.map_nil, joined_singleton] at hn ⊢
        rw [hfirst _ (ends_cons rfl rest) (by omega)]
        rfl
      | cons m' members =>
        have hrest := ih hmembers (List.cons_ne_nil m' members) (n := n)
        rw [List.map_cons] at hrest
        rw [List.map_cons, List.map_cons, joined_cons_cons] at hn ⊢
        rw [List.length_append, List.length_cons] at hn
        obtain ⟨u, hu⟩ := joined_cons m'.written (members.map Member.written)
        have hskip : skip (joined (m'.written :: members.map Member.written) ++ '\x7d' :: rest) =
            joined (m'.written :: members.map Member.written) ++ '\x7d' :: rest := by
          rw [hu, List.append_assoc]
          exact skip_cons rfl _
        rw [List.append_assoc, List.cons_append, hfirst _ (ends_cons rfl _) (by omega),
          skip_cons rfl]
        simp only [hskip, hrest (by omega)]
        rfl

theorem Reads.obj {members : List Member} (h : ∀ m ∈ members, m.Reads) :
    Reads (.obj (members.map fun m => (m.key, m.value)))
      ('\x7b' :: (joined (members.map Member.written) ++ ['\x7d'])) := by
  intro n rest hn _
  cases n with
  | zero => cases hn
  | succ n =>
    rw [List.length_cons, List.length_append, List.length_singleton] at hn
    rw [List.cons_append, List.append_assoc, List.singleton_append, readValue]
    cases members with
    | nil => rfl
    | cons m members =>
      have hfields := readFields_reads h (List.cons_ne_nil m members) (n := n) (by omega) rest
      obtain ⟨u, hu⟩ := joined_cons m.written (members.map Member.written)
      rw [List.map_cons (f := Member.written), hu, Member.written, List.cons_append,
        List.cons_append] at hfields ⊢
      rw [skip_cons rfl]
      show (readFields n _).map (fun r => (Tree.obj r.1, r.2)) = _
      rw [hfields]
      rfl

/-! ### Whole texts -/

theorem Reads.parse (h : Reads t w) : parse w = some t := by
  have hskip := h.skip []
  have hread := h (w.length + 1) [] (Nat.le_succ _) ends_nil
  rw [List.append_nil] at hskip hread
  rw [Json.parse, hskip, hread]
  rfl

end Json
end Lexing
end Eds
