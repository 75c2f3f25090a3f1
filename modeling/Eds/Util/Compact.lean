import Eds.Lexing.JsonGrammar
import Eds.Lexing.Transducer
import Eds.Util.Encoding

/-!
# Compacted JSON

`compactRaw` drops white space outside strings and escapes five characters.  It goes over a text
once, and what it writes for a character sends it to the state that the character sends it to, so
that it keeps what it wrote (`passes_step`).
-/

namespace Eds
namespace Util

open Lexing Json JsonGrammar

/-- `in_string` and `escaped`, which is set inside a string only. -/
inductive CompactState where
  | outside
  | inside
  | escaped
  deriving DecidableEq

/-- `<`, `>`, `&`, and the two line separators, are written with their number. -/
def escapeHtml (c : Char) : List Char :=
  if c = '<' then "\\u003c".toList
  else if c = '>' then "\\u003e".toList
  else if c = '&' then "\\u0026".toList
  else if c = '\u2028' then "\\u2028".toList
  else if c = '\u2029' then "\\u2029".toList
  else [c]

def compactStep : CompactState → Char → CompactState × List Char
  | .escaped, c => (.inside, [c])
  | .inside, c =>
    if c = '\\' then (.escaped, [c])
    else if c = '"' then (.outside, [c])
    else (.inside, escapeHtml c)
  | .outside, c =>
    if isSpace c then (.outside, [])
    else if c = '"' then (.inside, [c])
    else (.outside, escapeHtml c)

/-- The machine emits the characters of the result. -/
def compacter : Transducer Char CompactState Char where
  start := .outside
  step := compactStep
  finish := fun _ => some []

def compactRaw (s : List Char) : List Char := (compacter.read s).getD []

/-- The characters that stand outside strings, the quotes apart. -/
def outsider : Transducer Char CompactState Char where
  start := .outside
  step := fun s c => ((compactStep s c).1, if s = .outside ∧ c ≠ '"' then [c] else [])
  finish := fun _ => some []

def outside (s : List Char) : List Char := (outsider.read s).getD []

theorem compactRaw_of_passes {s out : List Char} {st : CompactState}
    (h : compacter.Passes .outside s st out) : compactRaw s = out := by
  have hread : compacter.read s = some out := by
    refine h.readFrom_eq.trans ?_
    exact congrArg some (List.append_nil out)
  rw [compactRaw, hread, Option.getD_some]

/-! ## What is written is kept -/

/-- The machine keeps the text, and has no white space of it outside strings. -/
def Kept (st : CompactState) (w : List Char) (st' : CompactState) : Prop :=
  compacter.Passes st w st' w ∧
    ∃ o, outsider.Passes st w st' o ∧ ∀ c ∈ o, isSpace c = false

section

variable {st st' st'' : CompactState} {w v : List Char} {c : Char}

theorem Kept.nil : Kept st [] st :=
  ⟨Transducer.Passes.nil, [], Transducer.Passes.nil, nofun⟩

theorem Kept.append (h : Kept st w st') (h' : Kept st' v st'') : Kept st (w ++ v) st'' := by
  obtain ⟨hpass, o, hout, ho⟩ := h
  obtain ⟨hpass', o', hout', ho'⟩ := h'
  refine ⟨hpass.append hpass', o ++ o', hout.append hout', fun c hc => ?_⟩
  exact (List.mem_append.mp hc).elim (ho c) (ho' c)

theorem Kept.single (h : compactStep st c = (st', [c])) : Kept st [c] st' := by
  have hout : outsider.step st c = (st', if st = .outside ∧ c ≠ '"' then [c] else []) := by
    show ((compactStep st c).1, _) = _
    rw [h]
  refine ⟨Transducer.Passes.single h, _, Transducer.Passes.single hout, fun x hx => ?_⟩
  split at hx
  · next houtside =>
    rw [List.mem_singleton.mp hx, ← Bool.not_eq_true]
    intro hspace
    rw [houtside.1, compactStep, if_pos hspace] at h
    cases h
  · cases hx

theorem Kept.cons (hstep : compactStep st c = (st', [c])) (h : Kept st' w st'') :
    Kept st (c :: w) st'' := (Kept.single hstep).append h

theorem Kept.word (h : ∀ c ∈ w, compactStep st c = (st, [c])) : Kept st w st := by
  induction w with
  | nil => exact Kept.nil
  | cons c w ih =>
    obtain ⟨hc, hw⟩ := List.forall_mem_cons.mp h
    exact Kept.cons hc (ih hw)

end

/-- An escape is six characters with the number of the character. -/
theorem escapeHtml_cases (c : Char) :
    escapeHtml c = [c] ∨ ∃ a b d e, escapeHtml c = ['\\', 'u', a, b, d, e] ∧
      hex4 a b d e = some c.toNat ∧ (∀ x ∈ [a, b, d, e], isWordChar x = true) ∧
        utf16 c = [c.toNat] := by
  have hword : ∀ {a b d e : Char}, [a, b, d, e].all isWordChar = true →
      ∀ x ∈ [a, b, d, e], isWordChar x = true := fun h => List.all_eq_true.mp h
  unfold escapeHtml
  split
  · next h =>
    rw [h]
    exact Or.inr ⟨'0', '0', '3', 'c', rfl, rfl, hword rfl, rfl⟩
  split
  · next h =>
    rw [h]
    exact Or.inr ⟨'0', '0', '3', 'e', rfl, rfl, hword rfl, rfl⟩
  split
  · next h =>
    rw [h]
    exact Or.inr ⟨'0', '0', '2', '6', rfl, rfl, hword rfl, rfl⟩
  split
  · next h =>
    rw [h]
    exact Or.inr ⟨'2', '0', '2', '8', rfl, rfl, hword rfl, rfl⟩
  split
  · next h =>
    rw [h]
    exact Or.inr ⟨'2', '0', '2', '9', rfl, rfl, hword rfl, rfl⟩
  · exact Or.inl rfl

theorem isSpace_of_isWordChar {c : Char} (h : isWordChar c = true) : isSpace c = false :=
  isSpace_of_isEnd (isEnd_of_isWordChar h)

/-- A character of a literal, a number or an escape is kept in a string and outside of it. -/
theorem step_word {c : Char} (h : isWordChar c = true) :
    compactStep .inside c = (.inside, [c]) ∧ compactStep .outside c = (.outside, [c]) := by
  have hne : ∀ {d : Char}, isWordChar d = false → c ≠ d := by
    rintro d hd rfl
    rw [h] at hd
    cases hd
  have hhtml : escapeHtml c = [c] := by
    rw [escapeHtml, if_neg (hne (by decide)), if_neg (hne (by decide)), if_neg (hne (by decide)),
      if_neg (hne (by decide)), if_neg (hne (by decide))]
  constructor
  · rw [compactStep, if_neg (hne (by decide)), if_neg (hne (by decide)), hhtml]
  · rw [compactStep, isSpace_of_isWordChar h, if_neg Bool.false_ne_true, if_neg (hne (by decide)),
      hhtml]

theorem kept_escape (e : Char) : Kept .inside ['\\', e] .inside :=
  Kept.cons rfl (Kept.single rfl)

theorem kept_unicode {a b d e : Char} (h : ∀ x ∈ [a, b, d, e], isWordChar x = true) :
    Kept .inside ['\\', 'u', a, b, d, e] .inside :=
  (kept_escape 'u').append (Kept.word fun x hx => (step_word (h x hx)).1)

/-- What is written for a character is kept. -/
theorem kept_step (st : CompactState) (c : Char) :
    Kept st (compactStep st c).2 (compactStep st c).1 := by
  cases st with
  | escaped => exact Kept.single rfl
  | inside =>
    by_cases hslash : c = '\\'
    · rw [hslash]
      exact Kept.single rfl
    · by_cases hquote : c = '"'
      · rw [hquote]
        exact Kept.single rfl
      · have hstep : compactStep .inside c = (.inside, escapeHtml c) := by
          rw [compactStep, if_neg hslash, if_neg hquote]
        rw [hstep]
        rcases escapeHtml_cases c with hhtml | ⟨a, b, d, e, hhtml, -, hword, -⟩
        · rw [hhtml] at hstep ⊢
          exact Kept.single hstep
        · rw [hhtml]
          exact kept_unicode hword
  | outside =>
    by_cases hspace : isSpace c = true
    · have hstep : compactStep .outside c = (.outside, []) := by rw [compactStep, if_pos hspace]
      rw [hstep]
      exact Kept.nil
    · by_cases hquote : c = '"'
      · rw [hquote]
        exact Kept.single rfl
      · have hstep : compactStep .outside c = (.outside, escapeHtml c) := by
          rw [compactStep, if_neg hspace, if_neg hquote]
        rw [hstep]
        rcases escapeHtml_cases c with hhtml | ⟨a, b, d, e, hhtml, -, hword, -⟩
        · rw [hhtml] at hstep ⊢
          exact Kept.single hstep
        · rw [hhtml]
          exact Kept.cons rfl (Kept.cons rfl (Kept.word fun x hx => (step_word (hword x hx)).2))

/-- A whole run. -/
theorem exists_kept (s : List Char) (st : CompactState) :
    ∃ st' out, compacter.Passes st s st' out ∧ Kept st out st' := by
  induction s generalizing st with
  | nil => exact ⟨st, [], Transducer.Passes.nil, Kept.nil⟩
  | cons c s ih =>
    obtain ⟨st', out, hpass, hkept⟩ := ih (compactStep st c).1
    exact ⟨st', _, Transducer.Passes.cons rfl hpass, (kept_step st c).append hkept⟩

theorem compactRaw_of_kept {s : List Char} {st : CompactState} (h : Kept .outside s st) :
    compactRaw s = s := compactRaw_of_passes h.1

theorem compactRaw_compactRaw (s : List Char) : compactRaw (compactRaw s) = compactRaw s := by
  obtain ⟨st, out, hpass, hkept⟩ := exists_kept s .outside
  rw [compactRaw_of_passes hpass, compactRaw_of_kept hkept]

theorem outside_compactRaw (s : List Char) : ∀ c ∈ outside (compactRaw s), isSpace c = false := by
  obtain ⟨st, out, hpass, hkept⟩ := exists_kept s .outside
  obtain ⟨-, o, hout, ho⟩ := hkept
  have hread : outsider.read out = some o := by
    refine hout.readFrom_eq.trans ?_
    exact congrArg some (List.append_nil o)
  rw [compactRaw_of_passes hpass, outside, hread, Option.getD_some]
  exact ho

/-! ## The value is kept -/

/-- The machine goes over the text and leaves another one of the same kind. -/
def Carried (kind : List Char → Prop) (st st' : CompactState) (w : List Char) : Prop :=
  ∃ w', compacter.Passes st w st' w' ∧ kind w'

theorem carried_blank {a : List Char} (h : Blank a) : Carried Blank .outside .outside a := by
  refine ⟨[], ?_, nofun⟩
  induction a with
  | nil => exact Transducer.Passes.nil
  | cons c a ih =>
    obtain ⟨hc, ha⟩ := List.forall_mem_cons.mp h
    have hstep : compacter.step .outside c = (.outside, []) := if_pos hc
    exact Transducer.Passes.cons hstep (ih ha)

theorem hexValue_isWordChar {c : Char} {n : Nat} (h : hexValue c = some n) : isWordChar c = true := by
  unfold hexValue at h
  split at h
  · next hc =>
    have hdigit : Json.isDigit c = true := decide_eq_true hc
    exact isWordChar_of_isDigit hdigit
  split at h
  · next hc =>
    have hlower : c.isLower = true := by
      show (decide (c.val ≥ 'a'.val) && decide (c.val ≤ 'z'.val)) = true
      rw [Bool.and_eq_true, decide_eq_true_iff, decide_eq_true_iff]
      exact ⟨hc.1, UInt32.le_trans hc.2 (by decide)⟩
    have halpha : c.isAlpha = true := by
      show (c.isUpper || c.isLower) = true
      rw [hlower, Bool.or_true]
    rw [isWordChar, Char.isAlphanum, halpha]
    simp
  split at h
  · next hc =>
    have hupper : c.isUpper = true := by
      show decide (c.val ≥ 'A'.val ∧ c.val ≤ 'Z'.val) = true
      rw [decide_eq_true_iff]
      exact ⟨hc.1, UInt32.le_trans hc.2 (by decide)⟩
    have halpha : c.isAlpha = true := by
      show (c.isUpper || c.isLower) = true
      rw [hupper, Bool.true_or]
    rw [isWordChar, Char.isAlphanum, halpha]
    simp
  · cases h

theorem hex4_isWordChar {a b d e : Char} {n : Nat} (h : hex4 a b d e = some n) :
    ∀ x ∈ [a, b, d, e], isWordChar x = true := by
  simp only [hex4, Option.bind_eq_bind, Option.bind_eq_some_iff] at h
  obtain ⟨_, ha, _, hb, _, hd, _, he, -⟩ := h
  simp only [List.forall_mem_cons]
  exact ⟨hexValue_isWordChar ha, hexValue_isWordChar hb, hexValue_isWordChar hd,
    hexValue_isWordChar he, nofun⟩

theorem carried_char {us : List Nat} {w : List Char} (h : SpelledChar us w) :
    Carried (SpelledChar us) .inside .inside w := by
  cases h with
  | @plain c hquote hslash hcontrol =>
    have hstep : compacter.step .inside c = (.inside, escapeHtml c) := by
      show compactStep .inside c = _
      rw [compactStep, if_neg hslash, if_neg hquote]
    refine ⟨escapeHtml c, Transducer.Passes.single hstep, ?_⟩
    rcases escapeHtml_cases c with hhtml | ⟨a, b, d, e, hhtml, hhex, -, hunits⟩
    · rw [hhtml]
      exact .plain hquote hslash hcontrol
    · rw [hhtml, hunits]
      exact .unicode hhex
  | escape hescape => exact ⟨_, (kept_escape _).1, .escape hescape⟩
  | unicode hhex => exact ⟨_, (kept_unicode (hex4_isWordChar hhex)).1, .unicode hhex⟩

theorem carried_string {us : List Nat} {w : List Char} (h : SpelledString us w) :
    Carried (SpelledString us) .inside .inside w := by
  induction h with
  | nil => exact ⟨[], Transducer.Passes.nil, .nil⟩
  | cons hchar _ ih =>
    obtain ⟨w', hpass, hw'⟩ := carried_char hchar
    obtain ⟨v', hrest, hv'⟩ := ih
    exact ⟨w' ++ v', hpass.append hrest, .cons hw' hv'⟩

theorem carried_quoted {us : List Nat} {w : List Char} (h : Quoted us w) :
    Carried (Quoted us) .outside .outside w := by
  obtain ⟨s, rfl, hs⟩ := h
  obtain ⟨s', hpass, hs'⟩ := carried_string hs
  have hopen : compacter.step .outside '"' = (.inside, ['"']) := rfl
  have hclose : compacter.step .inside '"' = (.outside, ['"']) := rfl
  exact ⟨'"' :: (s' ++ ['"']),
    Transducer.Passes.cons hopen (hpass.append (Transducer.Passes.single hclose)), s', rfl, hs'⟩

/-- A token that is a single character. -/
theorem passes_mark {c : Char} (h : [',', ':', '[', ']', '\x7b', '\x7d'].contains c = true) :
    compacter.Passes .outside [c] .outside [c] := by
  simp only [List.contains_cons, List.contains_nil, Bool.or_false, Bool.or_eq_true,
    beq_iff_eq] at h
  rcases h with rfl | rfl | rfl | rfl | rfl | rfl <;> exact Transducer.Passes.single rfl

section

variable {spelled : List Char → Prop}

theorem carried_padded (hspelled : ∀ w, spelled w → Carried spelled .outside .outside w)
    {v : List Char} (h : Padded spelled v) : Carried (Padded spelled) .outside .outside v := by
  obtain ⟨a, w, b, rfl, ha, hw, hb⟩ := h
  obtain ⟨a', hpassA, ha'⟩ := carried_blank ha
  obtain ⟨w', hpassW, hw'⟩ := hspelled w hw
  obtain ⟨b', hpassB, hb'⟩ := carried_blank hb
  exact ⟨_, hpassA.append (hpassW.append hpassB), a', w', b', rfl, ha', hw', hb'⟩

theorem carried_member {key : List Nat}
    (hspelled : ∀ w, spelled w → Carried spelled .outside .outside w) {v : List Char}
    (h : Member key spelled v) : Carried (Member key spelled) .outside .outside v := by
  obtain ⟨a, s, b, w, rfl, ha, hs, hb, hw⟩ := h
  obtain ⟨a', hpassA, ha'⟩ := carried_blank ha
  obtain ⟨s', hpassS, hs'⟩ := carried_quoted hs
  obtain ⟨b', hpassB, hb'⟩ := carried_blank hb
  obtain ⟨w', hpassW, hw'⟩ := carried_padded hspelled hw
  exact ⟨_, hpassA.append (hpassS.append (hpassB.append ((passes_mark rfl).append hpassW))),
    a', s', b', w', rfl, ha', hs', hb', hw'⟩

end

theorem carried_separated {α : Type} {element : α → List Char → Prop} {as : List α}
    (helement : ∀ a ∈ as, ∀ x, element a x → Carried (element a) .outside .outside x)
    {v : List Char} (h : Separated element as v) :
    Carried (Separated element as) .outside .outside v := by
  induction as generalizing v with
  | nil => exact carried_blank h
  | cons a as ih =>
    obtain ⟨helem, hrest⟩ := List.forall_mem_cons.mp helement
    obtain ⟨x, y, hx, ⟨has, rfl⟩ | ⟨has, rfl, hv⟩⟩ := h
    · obtain ⟨x', hpass, hx'⟩ := helem _ hx
      exact ⟨x', hpass, x', [], hx', Or.inl ⟨has, rfl⟩⟩
    · obtain ⟨x', hpass, hx'⟩ := helem x hx
      obtain ⟨y', hpassY, hy'⟩ := ih hrest hv
      exact ⟨_, hpass.append ((passes_mark rfl).append hpassY), x', y', hx', Or.inr ⟨has, rfl, hy'⟩⟩

/-- Between its brackets. -/
theorem carried_enclosed {kind : List Char → Prop} {l r : Char} {v : List Char}
    (hl : [',', ':', '[', ']', '\x7b', '\x7d'].contains l = true)
    (hr : [',', ':', '[', ']', '\x7b', '\x7d'].contains r = true)
    (h : Carried kind .outside .outside v) :
    Carried (fun w => ∃ v, w = l :: (v ++ [r]) ∧ kind v) .outside .outside (l :: (v ++ [r])) := by
  obtain ⟨v', hpass, hv'⟩ := h
  exact ⟨_, (passes_mark hl).append (hpass.append (passes_mark hr)), v', rfl, hv'⟩

theorem carried_scalar {t : Value} {w : List Char} (ht : IsScalar t) (h : Spelled t w) :
    Carried (Spelled t) .outside .outside w :=
  ⟨w, (Kept.word fun c hc => (step_word (isWordChar_of_scalar ht h c hc)).2).1, h⟩

mutual

/-- A value is left with a text of the same value. -/
theorem carried_spelled : ∀ t w, Spelled t w → Carried (Spelled t) .outside .outside w
  | .null, _, h => carried_scalar trivial h
  | .bool _, _, h => carried_scalar trivial h
  | .number _, _, h => carried_scalar trivial h
  | .str _, _, h => carried_quoted h
  | .arr items, _, h => by
    obtain ⟨v, rfl, hv⟩ := h
    obtain ⟨v', hpass, hv'⟩ := carried_separated (carried_spelledItems items) (spelledItems_iff.mp hv)
    exact carried_enclosed rfl rfl ⟨v', hpass, spelledItems_iff.mpr hv'⟩
  | .obj fields, _, h => by
    obtain ⟨v, rfl, hv⟩ := h
    obtain ⟨v', hpass, hv'⟩ :=
      carried_separated (carried_spelledFields fields) (spelledFields_iff.mp hv)
    exact carried_enclosed rfl rfl ⟨v', hpass, spelledFields_iff.mpr hv'⟩

theorem carried_spelledItems : ∀ items : List Value, ∀ t ∈ items, ∀ x,
    Padded (fun w => Spelled t w) x →
      Carried (Padded fun w => Spelled t w) .outside .outside x
  | [] => nofun
  | t :: rest => List.forall_mem_cons.mpr
    ⟨fun _ hx => carried_padded (carried_spelled t) hx, carried_spelledItems rest⟩

theorem carried_spelledFields : ∀ fields : List (List Nat × Value), ∀ f ∈ fields, ∀ x,
    Member f.1 (fun w => Spelled f.2 w) x →
      Carried (Member f.1 fun w => Spelled f.2 w) .outside .outside x
  | [] => nofun
  | (_, t) :: rest => List.forall_mem_cons.mpr
    ⟨fun _ hx => carried_member (carried_spelled t) hx, carried_spelledFields rest⟩

end

theorem isJson_compactRaw {t : Value} {s : List Char} (h : IsJson t s) : IsJson t (compactRaw s) := by
  obtain ⟨s', hpass, hs'⟩ := carried_padded (carried_spelled t) h
  rw [compactRaw_of_passes hpass]
  exact hs'

/-! ## What is marshalled is kept -/

/-- From outside a string to outside a string. -/
def Whole (text : String) : Prop := Kept .outside text.toList .outside

theorem Whole.append {a b : String} (ha : Whole a) (hb : Whole b) : Whole (a ++ b) := by
  rw [Whole, String.toList_append]
  exact Kept.append ha hb

theorem whole_word {text : String} (h : ∀ c ∈ text.toList, isWordChar c = true) : Whole text :=
  Kept.word fun c hc => (step_word (h c hc)).2

theorem whole_mark {c : Char} (h : [',', ':', '[', ']', '\x7b', '\x7d'].contains c = true) :
    Whole (String.ofList [c]) := by
  rw [Whole, String.toList_ofList]
  refine Kept.single ?_
  simp only [List.contains_cons, List.contains_nil, Bool.or_false, Bool.or_eq_true,
    beq_iff_eq] at h
  rcases h with rfl | rfl | rfl | rfl | rfl | rfl <;> rfl

theorem isWordChar_of_isNumberChar {c : Char} (h : isNumberChar c = true) : isWordChar c = true := by
  simp only [isNumberChar, Bool.or_eq_true, beq_iff_eq] at h
  rcases h with (((h | rfl) | rfl) | rfl) | rfl
  · exact isWordChar_of_isDigit h
  · rfl
  · rfl
  · rfl
  · rfl

theorem Writes.whole {q : ℚ} {text : String} (h : Writes q text.toList) : Whole text :=
  whole_word fun c hc => isWordChar_of_isNumberChar (h.numberChars c hc)

/-- A character as it is written in a string. -/
theorem kept_escapeChar (c : Char) : Kept .inside (escapeChar c).toList .inside := by
  rcases escapeChar_cases c with ⟨e, htext, -⟩ | ⟨a, b, d, e, htext, hhex, -⟩ |
    ⟨htext, hquote, hslash, hplain⟩
  · rw [htext]
    exact kept_escape e
  · rw [htext]
    exact kept_unicode (hex4_isWordChar hhex)
  · have hne : ∀ {d : Char}, isNumbered d.toNat → c ≠ d := by
      rintro d hd rfl
      exact hplain hd
    have hhtml : escapeHtml c = [c] := by
      rw [escapeHtml, if_neg (hne (Or.inr (Or.inl rfl))), if_neg (hne (Or.inr (Or.inr (Or.inl rfl)))),
        if_neg (hne (Or.inr (Or.inr (Or.inr (Or.inl rfl))))),
        if_neg (hne (Or.inr (Or.inr (Or.inr (Or.inr (Or.inl rfl)))))),
        if_neg (hne (Or.inr (Or.inr (Or.inr (Or.inr (Or.inr rfl))))))]
    rw [htext]
    refine Kept.single ?_
    rw [compactStep, if_neg hslash, if_neg hquote, hhtml]

theorem whole_encodeString (s : String) : Whole (encodeString s) := by
  have hchars : ∀ cs : List Char, Kept .inside (cs.flatMap fun c => (escapeChar c).toList) .inside := by
    intro cs
    induction cs with
    | nil => exact Kept.nil
    | cons c cs ih =>
      rw [List.flatMap_cons]
      exact (kept_escapeChar c).append ih
  rw [Whole, toList_encodeString]
  exact Kept.cons rfl ((hchars s.toList).append (Kept.single rfl))

theorem whole_commas {parts : List String} (h : ∀ part ∈ parts, Whole part) : Whole (commas parts) := by
  rw [Whole, toList_commas]
  induction parts with
  | nil => exact Kept.nil
  | cons part parts ih =>
    obtain ⟨hpart, hparts⟩ := List.forall_mem_cons.mp h
    cases parts with
    | nil =>
      rw [List.map_singleton, joined_singleton]
      exact hpart
    | cons next parts =>
      have hrest := ih hparts
      rw [List.map_cons] at hrest
      rw [List.map_cons, List.map_cons, joined_cons_cons]
      exact Kept.append hpart (Kept.cons rfl hrest)

theorem whole_enclosed {l r : Char} {text : String}
    (hl : [',', ':', '[', ']', '\x7b', '\x7d'].contains l = true)
    (hr : [',', ':', '[', ']', '\x7b', '\x7d'].contains r = true) (h : Whole text) :
    Whole (String.ofList [l] ++ text ++ String.ofList [r]) :=
  ((whole_mark hl).append h).append (whole_mark hr)

theorem whole_writtenField {key text : String} (h : Whole text) : Whole (writtenField key text) :=
  ((whole_encodeString key).append (whole_mark (c := ':') rfl)).append h

theorem mem_keyOrder {α : Type} {sort : Bool} {fields : List (String × α)} {f : String × α} :
    f ∈ keyOrder sort fields ↔ f ∈ fields := by
  cases sort with
  | true => exact (byKey_perm fields).mem_iff
  | false => exact Iff.rfl

mutual

theorem whole_marshalWith (sort : Bool) : ∀ v text, Printed v → marshalWith sort v = .ok text →
    Whole text
  | .null, _, _, h => by
    cases h
    exact whole_word (List.all_eq_true.mp rfl)
  | .bool true, _, _, h => by
    cases h
    exact whole_word (List.all_eq_true.mp rfl)
  | .bool false, _, _, h => by
    cases h
    exact whole_word (List.all_eq_true.mp rfl)
  | .int n, _, _, h => by
    cases h
    exact (writes_toString n).whole
  | .float _, text, hprinted, h => by
    have hfinite := finite_of_formatJson h
    obtain ⟨x, rfl⟩ := hprinted hfinite
    obtain ⟨out, hout, hwrites⟩ := writes_formatJson hfinite
    rw [marshalWith, hout] at h
    cases h
    exact hwrites.whole
  | .str s, _, _, h => by
    cases h
    exact whole_encodeString s
  | .arr vs, _, hprinted, h => by
    obtain ⟨parts, hparts, rfl⟩ := marshalWith_arr_ok h
    exact whole_enclosed (l := '[') (r := ']') rfl rfl
      (whole_commas (whole_marshalItemsWith sort vs parts hprinted hparts))
  | .obj fields, _, hprinted, h => by
    obtain ⟨parts, hparts, rfl⟩ := marshalWith_obj_ok h
    have hfields := whole_marshalFieldsWith sort fields parts hprinted hparts
    refine whole_enclosed (l := '\x7b') (r := '\x7d') rfl rfl (whole_commas ?_)
    rw [List.forall_mem_map]
    exact fun p hp => whole_writtenField (hfields p (mem_keyOrder.mp hp))

theorem whole_marshalItemsWith (sort : Bool) : ∀ vs parts, EachItem printed (fun _ => True) vs →
    marshalItemsWith sort vs = .ok parts → ∀ part ∈ parts, Whole part
  | [], _, _, h => by
    cases h
    nofun
  | v :: rest, _, hprinted, h => by
    obtain ⟨text, texts, hv, hrest, rfl⟩ := marshalItemsWith_cons_ok h
    exact List.forall_mem_cons.mpr ⟨whole_marshalWith sort v text hprinted.1 hv,
      whole_marshalItemsWith sort rest texts hprinted.2 hrest⟩

theorem whole_marshalFieldsWith (sort : Bool) : ∀ fields parts,
    EachField printed (fun _ => True) fields → marshalFieldsWith sort fields = .ok parts →
    ∀ p ∈ parts, Whole p.2
  | [], _, _, h => by
    cases h
    nofun
  | (_, v) :: rest, _, hprinted, h => by
    obtain ⟨text, texts, hv, hrest, rfl⟩ := marshalFieldsWith_cons_ok h
    exact List.forall_mem_cons.mpr ⟨whole_marshalWith sort v text hprinted.2.1 hv,
      whole_marshalFieldsWith sort rest texts hprinted.2.2 hrest⟩

end

/-- Compacting twice is compacting once; a JSON text stays one of the same value, without white
space outside its strings; and a text that was marshalled is compact. -/
theorem compactRaw_keeps :
    (∀ s, compactRaw (compactRaw s) = compactRaw s) ∧
    (∀ s t, IsJson t s → IsJson t (compactRaw s) ∧ (∀ t', IsJson t' (compactRaw s) → t' = t) ∧
      ∀ c ∈ outside (compactRaw s), isSpace c = false) ∧
    ∀ sort v text, Printed v → marshalWith sort v = .ok text →
      compactRaw text.toList = text.toList := by
  refine ⟨compactRaw_compactRaw, fun s t h => ⟨isJson_compactRaw h, fun t' h' => ?_, ?_⟩, ?_⟩
  · exact isJson_unique h' (isJson_compactRaw h)
  · exact outside_compactRaw s
  · exact fun sort v text hprinted h =>
      compactRaw_of_kept (whole_marshalWith sort v text hprinted h)

/-- A list with a number that ends in a zero and with half a surrogate pair. -/
theorem compactRaw_keeps_list :
    IsJson (.arr [.number "1.50".toList, .str [0xD800]])
      (compactRaw "[ 1.50 ,\"\\ud800\"]\n".toList) := by
  refine (compactRaw_keeps.2.1 _ _ ?_).1
  have hblank : ∀ {w : List Char}, w.all isSpace = true → Blank w := fun h => List.all_eq_true.mp h
  have hnumber : IsNumber "1.50".toList :=
    ⟨[], ['1'], ".50".toList, [], rfl, Or.inl rfl,
      Or.inr ⟨⟨List.cons_ne_nil _ _, List.all_eq_true.mp rfl⟩, by decide⟩,
      Or.inr ⟨['5', '0'], rfl, List.cons_ne_nil _ _, List.all_eq_true.mp rfl⟩, Or.inl rfl⟩
  have hstring : Quoted [0xD800] "\"\\ud800\"".toList :=
    ⟨"\\ud800".toList, rfl, .cons (.unicode rfl) .nil⟩
  exact ⟨[], "[ 1.50 ,\"\\ud800\"]".toList, ['\n'], rfl, hblank rfl,
    ⟨" 1.50 ,\"\\ud800\"".toList, rfl, " 1.50 ".toList, "\"\\ud800\"".toList,
      ⟨[' '], "1.50".toList, [' '], rfl, hblank rfl, ⟨rfl, hnumber⟩, hblank rfl⟩,
      Or.inr ⟨List.cons_ne_nil _ _, rfl, _, [],
        ⟨[], "\"\\ud800\"".toList, [], rfl, hblank rfl, hstring, hblank rfl⟩,
        Or.inl ⟨rfl, rfl⟩⟩⟩, hblank rfl⟩

end Util
end Eds
