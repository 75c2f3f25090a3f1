import Eds.Lexing.JsonText

/-!
# The grammar of JSON

`IsJson t s` says that the text `s` is JSON for the value `t`: number texts and the order of the
keys are part of a value, the white space between tokens is not.  A string is worth its UTF-16
code units, so that an escaped surrogate is a unit like any other.  A text is JSON for one value
at most (`isJson_unique`).
-/

namespace Eds
namespace Lexing
namespace JsonGrammar

open Eds.Lexing.Json

inductive Value where
  | null
  | bool (b : Bool)
  | number (text : List Char)
  | str (units : List Nat)
  | arr (items : List Value)
  | obj (fields : List (List Nat × Value))

/-! ## Strings -/

def utf16 (c : Char) : List Nat :=
  if c.toNat < 0x10000 then [c.toNat]
  else [0xD800 + (c.toNat - 0x10000) / 0x400, 0xDC00 + (c.toNat - 0x10000) % 0x400]

inductive SpelledChar : List Nat → List Char → Prop
  | plain {c : Char} (hquote : c ≠ '"') (hslash : c ≠ '\\') (hcontrol : 0x20 ≤ c.toNat) :
      SpelledChar (utf16 c) [c]
  | escape {e c : Char} (h : unescape e = some c) : SpelledChar [c.toNat] ['\\', e]
  | unicode {a b c d : Char} {u : Nat} (h : hex4 a b c d = some u) :
      SpelledChar [u] ['\\', 'u', a, b, c, d]

inductive SpelledString : List Nat → List Char → Prop
  | nil : SpelledString [] []
  | cons {us vs : List Nat} {w v : List Char} (hchar : SpelledChar us w) (h : SpelledString vs v) :
      SpelledString (us ++ vs) (w ++ v)

def Quoted (us : List Nat) (w : List Char) : Prop := ∃ s, w = '"' :: (s ++ ['"']) ∧ SpelledString us s

/-! ## Values -/

def Blank (w : List Char) : Prop := ∀ c ∈ w, isSpace c = true

/-- With white space around it. -/
def Padded (spelled : List Char → Prop) (v : List Char) : Prop :=
  ∃ a w b, v = a ++ (w ++ b) ∧ Blank a ∧ spelled w ∧ Blank b

def Member (key : List Nat) (spelled : List Char → Prop) (v : List Char) : Prop :=
  ∃ a s b w, v = a ++ (s ++ (b ++ ':' :: w)) ∧ Blank a ∧ Quoted key s ∧ Blank b ∧ Padded spelled w

def IsNumber (w : List Char) : Prop :=
  ∃ minus whole fraction exponent, w = minus ++ whole ++ fraction ++ exponent ∧ IsMinus minus ∧
    IsWhole whole ∧ IsFraction fraction ∧ IsExponent exponent

mutual

def Spelled : Value → List Char → Prop
  | .null, w => w = "null".toList
  | .bool true, w => w = "true".toList
  | .bool false, w => w = "false".toList
  | .number text, w => w = text ∧ IsNumber text
  | .str us, w => Quoted us w
  | .arr items, w => ∃ v, w = '[' :: (v ++ [']']) ∧ SpelledItems items v
  | .obj fields, w => ∃ v, w = '\x7b' :: (v ++ ['\x7d']) ∧ SpelledFields fields v

def SpelledItems : List Value → List Char → Prop
  | [], v => Blank v
  | t :: rest, v => ∃ x y, Padded (fun w => Spelled t w) x ∧
    (rest = [] ∧ v = x ∨ rest ≠ [] ∧ v = x ++ ',' :: y ∧ SpelledItems rest y)

def SpelledFields : List (List Nat × Value) → List Char → Prop
  | [], v => Blank v
  | (key, t) :: rest, v => ∃ x y, Member key (fun w => Spelled t w) x ∧
    (rest = [] ∧ v = x ∨ rest ≠ [] ∧ v = x ++ ',' :: y ∧ SpelledFields rest y)

end

def IsJson (t : Value) (s : List Char) : Prop := Padded (Spelled t) s

/-! ## First characters -/

/-- A character of a literal or of a number. -/
def isWordChar (c : Char) : Bool := c.isAlphanum || c == '-' || c == '+' || c == '.'

theorem isWordChar_of_isDigit {c : Char} (h : isDigit c = true) : isWordChar c = true := by
  have hrange : '0' ≤ c ∧ c ≤ '9' := by simpa [isDigit] using h
  have hdigit : c.isDigit = true := by
    rw [Char.isDigit, Bool.and_eq_true, decide_eq_true_iff, decide_eq_true_iff]
    exact hrange
  rw [isWordChar, Char.isAlphanum, hdigit, Bool.or_true, Bool.true_or, Bool.true_or, Bool.true_or]

theorem Digits.isWordChar {w : List Char} (h : Digits w) : ∀ c ∈ w, isWordChar c = true :=
  fun c hc => isWordChar_of_isDigit (h.2 c hc)

theorem IsNumber.isWordChar {w : List Char} (h : IsNumber w) : ∀ c ∈ w, isWordChar c = true := by
  obtain ⟨minus, whole, fraction, exponent, rfl, hminus, hwhole, hfraction, hexponent⟩ := h
  simp only [List.mem_append]
  rintro c (((hc | hc) | hc) | hc)
  · rcases hminus with rfl | rfl
    · cases hc
    · rw [List.mem_singleton.mp hc]
      rfl
  · exact Digits.isWordChar hwhole.digits c hc
  · rcases hfraction with rfl | ⟨ds, rfl, hds⟩
    · cases hc
    · rcases List.mem_cons.mp hc with rfl | hc
      · rfl
      · exact Digits.isWordChar hds c hc
  · rcases hexponent with rfl | ⟨e, sgn, ds, rfl, he, hsgn, hds⟩
    · cases hc
    · rcases List.mem_cons.mp hc with rfl | hc
      · rcases he with rfl | rfl
        · rfl
        · rfl
      · rcases List.mem_append.mp hc with hc | hc
        · rcases hsgn with rfl | rfl | rfl
          · cases hc
          · rw [List.mem_singleton.mp hc]
            rfl
          · rw [List.mem_singleton.mp hc]
            rfl
        · exact Digits.isWordChar hds c hc

theorem IsNumber.cons {w : List Char} (h : IsNumber w) :
    ∃ c v, w = c :: v ∧ (c = '-' ∨ isDigit c = true) := by
  obtain ⟨minus, whole, fraction, exponent, rfl, hminus, hwhole, -⟩ := h
  obtain ⟨c, ds, rfl, hc⟩ := hwhole.digits.cons
  rcases hminus with rfl | rfl
  · exact ⟨c, _, rfl, Or.inr hc⟩
  · exact ⟨'-', _, rfl, Or.inl rfl⟩

/-- The first character of a value tells of what kind it is. -/
def Opens : Value → Char → Prop
  | .str _, c => c = '"'
  | .arr _, c => c = '['
  | .obj _, c => c = '\x7b'
  | _, c => isWordChar c = true

theorem isEnd_of_isWordChar {c : Char} (h : isWordChar c = true) : isEnd c = false := by
  rw [← Bool.not_eq_true]
  intro hend
  rcases isEnd_cases hend with rfl | rfl | rfl | rfl | rfl | rfl | rfl <;> exact absurd h (by decide)

theorem isEnd_of_opens {t : Value} {c : Char} (h : Opens t c) : isEnd c = false := by
  cases t with
  | str us =>
    rw [h]
    rfl
  | arr items =>
    rw [h]
    rfl
  | obj fields =>
    rw [h]
    rfl
  | _ => exact isEnd_of_isWordChar h

theorem spelled_cons {t : Value} {w : List Char} (h : Spelled t w) : ∃ c v, w = c :: v ∧ Opens t c := by
  cases t with
  | null => exact ⟨'n', _, h, rfl⟩
  | bool b =>
    cases b with
    | true => exact ⟨'t', _, h, rfl⟩
    | false => exact ⟨'f', _, h, rfl⟩
  | number text =>
    obtain ⟨rfl, hnumber⟩ := h
    obtain ⟨c, v, rfl, -⟩ := hnumber.cons
    exact ⟨c, v, rfl, hnumber.isWordChar c List.mem_cons_self⟩
  | str us =>
    obtain ⟨s, rfl, -⟩ := h
    exact ⟨'"', _, rfl, rfl⟩
  | arr items =>
    obtain ⟨v, rfl, -⟩ := h
    exact ⟨'[', _, rfl, rfl⟩
  | obj fields =>
    obtain ⟨v, rfl, -⟩ := h
    exact ⟨'\x7b', _, rfl, rfl⟩

/-! ## One value at most -/

theorem unescape_ne_u {e c : Char} (h : unescape e = some c) : e ≠ 'u' := by
  rintro rfl
  cases h

/-- One character of a string. -/
theorem spelledChar_unique {us us' : List Nat} {w w' r r' : List Char} (h : SpelledChar us w)
    (h' : SpelledChar us' w') (heq : w ++ r = w' ++ r') : us = us' ∧ r = r' := by
  cases h with
  | plain hquote hslash hcontrol =>
    cases h' with
    | plain _ _ _ =>
      obtain ⟨rfl, rfl⟩ := List.cons.inj heq
      exact ⟨rfl, rfl⟩
    | escape _ => exact absurd (List.cons.inj heq).1 hslash
    | unicode _ => exact absurd (List.cons.inj heq).1 hslash
  | escape hescape =>
    cases h' with
    | plain _ hslash _ => exact absurd (List.cons.inj heq).1.symm hslash
    | escape hescape' =>
      obtain ⟨rfl, rfl⟩ := List.cons.inj (List.cons.inj heq).2
      rw [Option.some.inj (hescape.symm.trans hescape')]
      exact ⟨rfl, rfl⟩
    | unicode _ =>
      exact absurd (List.cons.inj (List.cons.inj heq).2).1 (unescape_ne_u hescape)
  | unicode hhex =>
    cases h' with
    | plain _ hslash _ => exact absurd (List.cons.inj heq).1.symm hslash
    | escape hescape' =>
      exact absurd (List.cons.inj (List.cons.inj heq).2).1.symm (unescape_ne_u hescape')
    | unicode hhex' =>
      simp only [List.cons_append, List.nil_append, List.cons.injEq, true_and] at heq
      obtain ⟨rfl, rfl, rfl, rfl, rfl⟩ := heq
      rw [Option.some.inj (hhex.symm.trans hhex')]
      exact ⟨rfl, rfl⟩

theorem spelledChar_cons {us : List Nat} {w : List Char} (h : SpelledChar us w) :
    ∃ c v, w = c :: v ∧ c ≠ '"' := by
  cases h with
  | plain hquote _ _ => exact ⟨_, [], rfl, hquote⟩
  | escape _ => exact ⟨'\\', _, rfl, by decide⟩
  | unicode _ => exact ⟨'\\', _, rfl, by decide⟩

theorem spelledString_unique {us us' : List Nat} {w w' r r' : List Char} (h : SpelledString us w)
    (h' : SpelledString us' w') (heq : w ++ '"' :: r = w' ++ '"' :: r') : us = us' ∧ r = r' := by
  induction h generalizing us' w' with
  | nil =>
    cases h' with
    | nil => exact ⟨rfl, (List.cons.inj heq).2⟩
    | cons hchar _ =>
      obtain ⟨c, v, rfl, hc⟩ := spelledChar_cons hchar
      exact absurd (List.cons.inj heq).1.symm hc
  | cons hchar _ ih =>
    cases h' with
    | nil =>
      obtain ⟨c, v, rfl, hc⟩ := spelledChar_cons hchar
      exact absurd (List.cons.inj heq).1 hc
    | cons hchar' h' =>
      rw [List.append_assoc, List.append_assoc] at heq
      obtain ⟨rfl, hrest⟩ := spelledChar_unique hchar hchar' heq
      obtain ⟨rfl, rfl⟩ := ih h' hrest
      exact ⟨rfl, rfl⟩

theorem quoted_unique {us us' : List Nat} {w w' r r' : List Char} (h : Quoted us w)
    (h' : Quoted us' w') (heq : w ++ r = w' ++ r') : us = us' ∧ r = r' := by
  obtain ⟨s, rfl, hs⟩ := h
  obtain ⟨s', rfl, hs'⟩ := h'
  simp only [List.cons_append, List.append_assoc, List.nil_append, List.cons.injEq,
    true_and] at heq
  exact spelledString_unique hs hs' heq

/-! ### White space -/

theorem skip_append {a : List Char} (h : Blank a) (rest : List Char) : skip (a ++ rest) = skip rest :=
  List.dropWhile_append_of_pos h

/-- What can follow an element and the white space behind it. -/
def Closes (rest : List Char) : Prop := ∀ c ∈ rest.head?, isEnd c = true ∧ isSpace c = false

theorem closes_nil : Closes [] := nofun

theorem closes_cons {c : Char} (hend : isEnd c = true) (hspace : isSpace c = false)
    (rest : List Char) : Closes (c :: rest) := by
  intro d hd
  cases hd
  exact ⟨hend, hspace⟩

theorem Closes.skip {rest : List Char} (h : Closes rest) : skip rest = rest := by
  cases rest with
  | nil => rfl
  | cons c rest => exact skip_cons (h c rfl).2 rest

theorem Closes.ends {b rest : List Char} (h : Closes rest) (hb : Blank b) : Ends (b ++ rest) := by
  cases b with
  | nil => exact fun c hc => (h c hc).1
  | cons c b =>
    refine ends_cons ?_ _
    have hspace := hb c List.mem_cons_self
    rw [isEnd, hspace]
    rfl

theorem skip_spelled {t : Value} {w : List Char} (h : Spelled t w) (rest : List Char) :
    skip (w ++ rest) = w ++ rest := by
  obtain ⟨c, v, rfl, hc⟩ := spelled_cons h
  exact skip_cons (isSpace_of_isEnd (isEnd_of_opens hc)) _

/-! ### Values -/

/-- The text of the value ends where it must, and no other value has it. -/
def Unique (t : Value) : Prop :=
  ∀ t' w w' r r', Spelled t w → Spelled t' w' → w ++ r = w' ++ r' → Ends r → Ends r' →
    t = t' ∧ r = r'

theorem padded_unique {t t' : Value} {v v' r r' : List Char} (ht : Unique t)
    (h : Padded (fun w => Spelled t w) v) (h' : Padded (fun w => Spelled t' w) v')
    (heq : v ++ r = v' ++ r') (hr : Closes r) (hr' : Closes r') : t = t' ∧ r = r' := by
  obtain ⟨a, w, b, rfl, ha, hw, hb⟩ := h
  obtain ⟨a', w', b', rfl, ha', hw', hb'⟩ := h'
  have hskip := congrArg skip heq
  rw [List.append_assoc, List.append_assoc, List.append_assoc, List.append_assoc, skip_append ha,
    skip_append ha', skip_spelled hw, skip_spelled hw'] at hskip
  obtain ⟨rfl, hrest⟩ := ht t' w w' _ _ hw hw' hskip (hr.ends hb) (hr'.ends hb')
  have hclose := congrArg skip hrest
  rw [skip_append hb, skip_append hb', hr.skip, hr'.skip] at hclose
  exact ⟨rfl, hclose⟩

theorem skip_quoted {us : List Nat} {w : List Char} (h : Quoted us w) (rest : List Char) :
    skip (w ++ rest) = w ++ rest := by
  obtain ⟨s, rfl, -⟩ := h
  exact skip_cons rfl _

theorem member_unique {key key' : List Nat} {t t' : Value} {v v' r r' : List Char} (ht : Unique t)
    (h : Member key (fun w => Spelled t w) v) (h' : Member key' (fun w => Spelled t' w) v')
    (heq : v ++ r = v' ++ r') (hr : Closes r) (hr' : Closes r') :
    (key, t) = (key', t') ∧ r = r' := by
  obtain ⟨a, s, b, w, rfl, ha, hs, hb, hw⟩ := h
  obtain ⟨a', s', b', w', rfl, ha', hs', hb', hw'⟩ := h'
  have hskip := congrArg skip heq
  simp only [List.append_assoc, List.cons_append] at hskip
  rw [skip_append ha, skip_append ha', skip_quoted hs, skip_quoted hs'] at hskip
  obtain ⟨rfl, hrest⟩ := quoted_unique hs hs' hskip
  have hcolon := congrArg skip hrest
  rw [skip_append hb, skip_append hb', skip_cons rfl, skip_cons rfl] at hcolon
  obtain ⟨rfl, hclose⟩ := padded_unique ht hw hw' (List.cons.inj hcolon).2 hr hr'
  exact ⟨rfl, hclose⟩

/-- The first token of an element. -/
theorem skip_padded {t : Value} {v : List Char} (h : Padded (fun w => Spelled t w) v)
    (rest : List Char) : ∃ c x, skip (v ++ rest) = c :: x ∧ isEnd c = false := by
  obtain ⟨a, w, b, rfl, ha, hw, -⟩ := h
  obtain ⟨c, x, rfl, hc⟩ := spelled_cons hw
  refine ⟨c, x ++ (b ++ rest), ?_, isEnd_of_opens hc⟩
  rw [List.append_assoc, List.append_assoc, skip_append ha, List.cons_append,
    skip_cons (isSpace_of_isEnd (isEnd_of_opens hc))]

theorem skip_member {key : List Nat} {t : Value} {v : List Char}
    (h : Member key (fun w => Spelled t w) v) (rest : List Char) :
    ∃ c x, skip (v ++ rest) = c :: x ∧ isEnd c = false := by
  obtain ⟨a, s, b, w, rfl, ha, ⟨s', rfl, -⟩, -, -⟩ := h
  refine ⟨'"', (s' ++ ['"']) ++ (b ++ ':' :: w) ++ rest, ?_, rfl⟩
  simp only [List.append_assoc, List.cons_append]
  rw [skip_append ha, skip_cons rfl]

/-! ### Lists of elements -/

section Separated

variable {α : Type} (element : α → List Char → Prop)

/-- Elements with commas between them, or white space. -/
def Separated : List α → List Char → Prop
  | [], v => Blank v
  | a :: rest, v => ∃ x y, element a x ∧
    (rest = [] ∧ v = x ∨ rest ≠ [] ∧ v = x ++ ',' :: y ∧ Separated rest y)

variable {element}

theorem skip_separated (hskip : ∀ a x rest, element a x →
      ∃ c y, skip (x ++ rest) = c :: y ∧ isEnd c = false) {as : List α} {v : List Char}
    (h : Separated element as v) (hne : as ≠ []) (rest : List Char) :
    ∃ c y, skip (v ++ rest) = c :: y ∧ isEnd c = false := by
  cases as with
  | nil => exact absurd rfl hne
  | cons a as =>
    obtain ⟨x, y, hx, ⟨-, rfl⟩ | ⟨-, rfl, -⟩⟩ := h
    · exact hskip a v rest hx
    · rw [List.append_assoc]
      exact hskip a x _ hx

/-- The list and its end are determined if every element and its end are. -/
theorem separated_unique {close : Char} (hend : isEnd close = true) (hspace : isSpace close = false)
    (hcomma : close ≠ ',') (hskip : ∀ a x rest, element a x →
      ∃ c y, skip (x ++ rest) = c :: y ∧ isEnd c = false) {as as' : List α} {v v' r r' : List Char}
    (helement : ∀ a ∈ as, ∀ a' x x' r r', element a x → element a' x' → x ++ r = x' ++ r' →
      Closes r → Closes r' → a = a' ∧ r = r')
    (h : Separated element as v) (h' : Separated element as' v')
    (heq : v ++ close :: r = v' ++ close :: r') : as = as' ∧ r = r' := by
  have hclose : ∀ r, Closes (close :: r) := closes_cons hend hspace
  have hopen : ∀ {as : List α} {v w r r' : List Char}, Separated element as v → as ≠ [] →
      Blank w → v ++ close :: r = w ++ close :: r' → False := by
    intro as v w r r' hv hne hw heq
    obtain ⟨c, y, hfirst, hc⟩ := skip_separated hskip hv hne (close :: r)
    rw [heq, skip_append hw, skip_cons hspace] at hfirst
    rw [← (List.cons.inj hfirst).1, hend] at hc
    cases hc
  induction as generalizing as' v v' with
  | nil =>
    cases as' with
    | nil =>
      have hskip := congrArg skip heq
      rw [skip_append h, skip_append h', skip_cons hspace, skip_cons hspace] at hskip
      exact ⟨rfl, (List.cons.inj hskip).2⟩
    | cons a' as' => exact (hopen h' (List.cons_ne_nil a' as') h heq.symm).elim
  | cons a as ih =>
    cases as' with
    | nil => exact (hopen h (List.cons_ne_nil a as) h' heq).elim
    | cons a' as' =>
      obtain ⟨helem, hrest⟩ := List.forall_mem_cons.mp helement
      obtain ⟨x, y, hx, hv⟩ := h
      obtain ⟨x', y', hx', hv'⟩ := h'
      have hcommas : ∀ y, Closes (',' :: y) := closes_cons rfl rfl
      rcases hv with ⟨rfl, rfl⟩ | ⟨-, rfl, hv⟩
      · rcases hv' with ⟨rfl, rfl⟩ | ⟨-, rfl, -⟩
        · obtain ⟨rfl, hr⟩ := helem a' _ _ _ _ hx hx' heq (hclose r) (hclose r')
          exact ⟨rfl, (List.cons.inj hr).2⟩
        · rw [List.append_assoc] at heq
          obtain ⟨-, hr⟩ := helem a' _ _ _ _ hx hx' heq (hclose r) (hcommas _)
          exact absurd (List.cons.inj hr).1 hcomma
      · rcases hv' with ⟨rfl, rfl⟩ | ⟨-, rfl, hv'⟩
        · rw [List.append_assoc] at heq
          obtain ⟨-, hr⟩ := helem a' _ _ _ _ hx hx' heq (hcommas _) (hclose r')
          exact absurd (List.cons.inj hr).1.symm hcomma
        · rw [List.append_assoc, List.append_assoc] at heq
          obtain ⟨rfl, hr⟩ := helem a' _ _ _ _ hx hx' heq (hcommas _) (hcommas _)
          obtain ⟨rfl, rfl⟩ := ih hrest hv hv' (List.cons.inj hr).2
          exact ⟨rfl, rfl⟩

end Separated

theorem spelledItems_iff {items : List Value} {v : List Char} :
    SpelledItems items v ↔ Separated (fun t x => Padded (fun w => Spelled t w) x) items v := by
  induction items generalizing v with
  | nil => exact Iff.rfl
  | cons t rest ih =>
    rw [SpelledItems, Separated]
    simp only [ih]

theorem spelledFields_iff {fields : List (List Nat × Value)} {v : List Char} :
    SpelledFields fields v ↔
      Separated (fun f x => Member f.1 (fun w => Spelled f.2 w) x) fields v := by
  induction fields generalizing v with
  | nil => exact Iff.rfl
  | cons f rest ih =>
    obtain ⟨key, t⟩ := f
    rw [SpelledFields, Separated]
    simp only [ih]

/-! ### Scalars -/

/-- A literal or a number. -/
def IsScalar : Value → Prop
  | .null => True
  | .bool _ => True
  | .number _ => True
  | _ => False

theorem isWordChar_of_scalar {t : Value} {w : List Char} (ht : IsScalar t) (h : Spelled t w) :
    ∀ c ∈ w, isWordChar c = true := by
  cases t with
  | null =>
    rw [h]
    exact List.all_eq_true.mp rfl
  | bool b =>
    cases b with
    | true =>
      rw [h]
      exact List.all_eq_true.mp rfl
    | false =>
      rw [h]
      exact List.all_eq_true.mp rfl
  | number text =>
    obtain ⟨rfl, hnumber⟩ := h
    exact hnumber.isWordChar
  | _ => exact ht.elim

/-- The scalar that has the text. -/
def scalarOf (w : List Char) : Value :=
  if w = "null".toList then .null
  else if w = "true".toList then .bool true
  else if w = "false".toList then .bool false
  else .number w

theorem eq_scalarOf {t : Value} {w : List Char} (ht : IsScalar t) (h : Spelled t w) :
    t = scalarOf w := by
  cases t with
  | null =>
    rw [h]
    rfl
  | bool b =>
    cases b with
    | true =>
      rw [h]
      rfl
    | false =>
      rw [h]
      rfl
  | number text =>
    obtain ⟨rfl, hnumber⟩ := h
    obtain ⟨c, v, rfl, hc⟩ := hnumber.cons
    have hletter : ∀ {d : Char} {word : List Char}, d ≠ '-' → isDigit d = false →
        c :: v ≠ d :: word := by
      rintro d word hminus hdigit heq
      rw [(List.cons.inj heq).1] at hc
      rcases hc with rfl | hc
      · exact hminus rfl
      · rw [hc] at hdigit
        cases hdigit
    have hnull : c :: v ≠ "null".toList := hletter (by decide) (by decide)
    have htrue : c :: v ≠ "true".toList := hletter (by decide) (by decide)
    have hfalse : c :: v ≠ "false".toList := hletter (by decide) (by decide)
    rw [scalarOf, if_neg hnull, if_neg htrue, if_neg hfalse]
  | _ => exact ht.elim

theorem opens_scalar {t : Value} {c : Char} (ht : IsScalar t) (h : Opens t c) :
    isWordChar c = true := by
  cases t with
  | null => exact h
  | bool b => exact h
  | number text => exact h
  | _ => exact ht.elim

/-- A scalar ends at the first character that can end a value. -/
theorem unique_scalar {t : Value} (ht : IsScalar t) : Unique t := by
  intro t' w w' r r' h h' heq hr hr'
  have hopens : ∀ {c : Char} {v x : List Char}, isWordChar c = false → w ++ x ≠ c :: v := by
    intro c v x hc hcons
    obtain ⟨d, u, rfl, hd⟩ := spelled_cons h
    rw [← (List.cons.inj hcons).1, opens_scalar ht hd] at hc
    cases hc
  have ht' : IsScalar t' := by
    cases t' with
    | str us =>
      obtain ⟨s, rfl, -⟩ := h'
      exact hopens (by decide) heq
    | arr items =>
      obtain ⟨v, rfl, -⟩ := h'
      exact hopens (by decide) heq
    | obj fields =>
      obtain ⟨v, rfl, -⟩ := h'
      exact hopens (by decide) heq
    | _ => exact trivial
  have hspan : ∀ {t : Value} {w r : List Char}, IsScalar t → Spelled t w → Ends r →
      (w ++ r).takeWhile (fun c => !isEnd c) = w ∧ (w ++ r).dropWhile (fun c => !isEnd c) = r := by
    intro t w r ht h hr
    refine span_append (fun c hc => ?_) fun c hc => ?_
    · rw [isEnd_of_isWordChar (isWordChar_of_scalar ht h c hc)]
      rfl
    · rw [hr c hc]
      rfl
  obtain ⟨htake, hdrop⟩ := hspan ht h hr
  obtain ⟨htake', hdrop'⟩ := hspan ht' h' hr'
  rw [heq, htake'] at htake
  rw [heq, hdrop'] at hdrop
  rw [eq_scalarOf ht h, eq_scalarOf ht' h', htake]
  exact ⟨rfl, hdrop.symm⟩

/-! ### All values -/

theorem unique_str (us : List Nat) : Unique (.str us) := by
  intro t' w w' r r' h h' heq hr hr'
  cases t' with
  | str us' =>
    obtain ⟨rfl, hrest⟩ := quoted_unique h h' heq
    exact ⟨rfl, hrest⟩
  | _ =>
    obtain ⟨s, rfl, -⟩ := h
    obtain ⟨c, v, rfl, hc⟩ := spelled_cons h'
    rw [← (List.cons.inj heq).1] at hc
    exact absurd hc (by simp +decide [Opens])

theorem unique_arr {items : List Value} (hitems : ∀ t ∈ items, Unique t) : Unique (.arr items) := by
  intro t' w w' r r' h h' heq hr hr'
  obtain ⟨v, rfl, hv⟩ := h
  cases t' with
  | arr items' =>
    obtain ⟨v', rfl, hv'⟩ := h'
    simp only [List.cons_append, List.append_assoc, List.nil_append, List.cons.injEq,
      true_and] at heq
    obtain ⟨rfl, hrest⟩ := separated_unique rfl rfl (by decide) (fun t x rest hx => skip_padded hx rest)
      (fun t ht t' x x' r r' hx hx' => padded_unique (hitems t ht) hx hx')
      (spelledItems_iff.mp hv) (spelledItems_iff.mp hv') heq
    exact ⟨rfl, hrest⟩
  | _ =>
    obtain ⟨c, v, rfl, hc⟩ := spelled_cons h'
    rw [← (List.cons.inj heq).1] at hc
    exact absurd hc (by simp +decide [Opens])

theorem unique_obj {fields : List (List Nat × Value)} (hfields : ∀ f ∈ fields, Unique f.2) :
    Unique (.obj fields) := by
  intro t' w w' r r' h h' heq hr hr'
  obtain ⟨v, rfl, hv⟩ := h
  cases t' with
  | obj fields' =>
    obtain ⟨v', rfl, hv'⟩ := h'
    simp only [List.cons_append, List.append_assoc, List.nil_append, List.cons.injEq,
      true_and] at heq
    obtain ⟨rfl, hrest⟩ := separated_unique rfl rfl (by decide)
      (fun f x rest hx => skip_member hx rest)
      (fun f hf f' x x' r r' hx hx' => member_unique (hfields f hf) hx hx')
      (spelledFields_iff.mp hv) (spelledFields_iff.mp hv') heq
    exact ⟨rfl, hrest⟩
  | _ =>
    obtain ⟨c, v, rfl, hc⟩ := spelled_cons h'
    rw [← (List.cons.inj heq).1] at hc
    exact absurd hc (by simp +decide [Opens])

mutual

theorem unique : ∀ t, Unique t
  | .null => unique_scalar trivial
  | .bool _ => unique_scalar trivial
  | .number _ => unique_scalar trivial
  | .str us => unique_str us
  | .arr items => unique_arr (uniqueItems items)
  | .obj fields => unique_obj (uniqueFields fields)

theorem uniqueItems : ∀ items : List Value, ∀ t ∈ items, Unique t
  | [] => nofun
  | t :: rest => List.forall_mem_cons.mpr ⟨unique t, uniqueItems rest⟩

theorem uniqueFields : ∀ fields : List (List Nat × Value), ∀ f ∈ fields, Unique f.2
  | [] => nofun
  | (_, t) :: rest => List.forall_mem_cons.mpr ⟨unique t, uniqueFields rest⟩

end

/-- A text is JSON for one value at most. -/
theorem isJson_unique {t t' : Value} {s : List Char} (h : IsJson t s) (h' : IsJson t' s) : t = t' := by
  have hends : s ++ [] = s ++ [] := rfl
  exact (padded_unique (unique t) h h' hends closes_nil closes_nil).1

end JsonGrammar
end Lexing
end Eds
