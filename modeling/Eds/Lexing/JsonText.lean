import Eds.Lexing.Json

/-!
# Inside and outside of JSON strings

The text of a number is an optional sign, an integer without leading zeros, a fraction and an
exponent, and it is read as a number wherever a value can end.  Outside of its strings a text
has no backslash, so that one with a backslash in front of its first string is refused.
-/

namespace Eds
namespace Lexing

theorem span_append {α : Type} {p : α → Bool} {w rest : List α} (hw : ∀ c ∈ w, p c = true)
    (hrest : ∀ c ∈ rest.head?, p c = false) :
    (w ++ rest).takeWhile p = w ∧ (w ++ rest).dropWhile p = rest := by
  have hstop : rest.takeWhile p = [] ∧ rest.dropWhile p = rest := by
    cases rest with
    | nil => exact ⟨rfl, rfl⟩
    | cons c rest =>
      have hc : p c = false := hrest c rfl
      rw [List.takeWhile_cons, List.dropWhile_cons, hc]
      exact ⟨rfl, rfl⟩
  rw [List.takeWhile_append_of_pos hw, List.dropWhile_append_of_pos hw, hstop.1, hstop.2,
    List.append_nil]
  exact ⟨rfl, rfl⟩

namespace Json

/-! ## Numbers -/

def Digits (w : List Char) : Prop := w ≠ [] ∧ ∀ c ∈ w, isDigit c = true

def IsWhole (w : List Char) : Prop := w = ['0'] ∨ (Digits w ∧ w.head? ≠ some '0')

def IsFraction (w : List Char) : Prop := w = [] ∨ ∃ ds, w = '.' :: ds ∧ Digits ds

def IsExponent (w : List Char) : Prop :=
  w = [] ∨ ∃ e sgn ds, w = e :: (sgn ++ ds) ∧ (e = 'e' ∨ e = 'E') ∧
    (sgn = [] ∨ sgn = ['+'] ∨ sgn = ['-']) ∧ Digits ds

def IsMinus (w : List Char) : Prop := w = [] ∨ w = ['-']

/-- The text goes on with none of the characters. -/
def Stops (p : Char → Bool) (rest : List Char) : Prop := ∀ c ∈ rest.head?, p c = false

theorem Digits.cons {w : List Char} (h : Digits w) : ∃ c ds, w = c :: ds ∧ isDigit c = true := by
  cases w with
  | nil => exact absurd rfl h.1
  | cons c ds => exact ⟨c, ds, rfl, h.2 c List.mem_cons_self⟩

theorem IsWhole.digits {w : List Char} (h : IsWhole w) : Digits w := by
  rcases h with rfl | ⟨h, -⟩
  · exact ⟨List.cons_ne_nil _ _, List.forall_mem_singleton.mpr rfl⟩
  · exact h

theorem ne_of_isDigit {c d : Char} (hc : isDigit c = true) (hd : isDigit d = false) : c ≠ d := by
  intro h
  rw [h, hd] at hc
  cases hc

theorem readWhole_append {w rest : List Char} (h : IsWhole w) (hrest : Stops isDigit rest) :
    readWhole (w ++ rest) = some (w, rest) := by
  rcases h with rfl | ⟨hdigits, hzero⟩
  · rfl
  · obtain ⟨c, ds, rfl, _⟩ := hdigits.cons
    obtain ⟨htake, hdrop⟩ := span_append hdigits.2 hrest
    rw [readWhole.eq_def]
    split
    · next heq =>
      rw [List.cons_append] at heq
      exact absurd (congrArg some (List.cons.inj heq).1) hzero
    · rw [htake, hdrop, if_neg hdigits.1]

theorem readFraction_append {w rest : List Char} (h : IsFraction w) (hrest : Stops isDigit rest)
    (hpoint : Stops (· == '.') rest) : readFraction (w ++ rest) = (w, rest) := by
  rcases h with rfl | ⟨ds, rfl, hdigits⟩
  · rw [List.nil_append, readFraction.eq_def]
    split
    · next heq => exact absurd (hpoint '.' rfl) (by decide)
    · rfl
  · obtain ⟨htake, hdrop⟩ := span_append hdigits.2 hrest
    rw [List.cons_append, readFraction, htake, hdrop, if_neg hdigits.1]

theorem readSign_append {sgn ds rest : List Char} (h : sgn = [] ∨ sgn = ['+'] ∨ sgn = ['-'])
    (hdigits : Digits ds) : readSign (sgn ++ ds ++ rest) = (sgn, ds ++ rest) := by
  rcases h with rfl | rfl | rfl
  · obtain ⟨c, ds, rfl, hc⟩ := hdigits.cons
    rw [List.nil_append, List.cons_append, readSign.eq_def]
    split
    · next heq => exact absurd (List.cons.inj heq).1 (ne_of_isDigit hc rfl)
    · next heq => exact absurd (List.cons.inj heq).1 (ne_of_isDigit hc rfl)
    · rfl
  · rfl
  · rfl

theorem readExponent_append {w rest : List Char} (h : IsExponent w) (hrest : Stops isDigit rest)
    (he : Stops (fun c => c == 'e' || c == 'E') rest) : readExponent (w ++ rest) = (w, rest) := by
  rcases h with rfl | ⟨e, sgn, ds, rfl, hletter, hsgn, hdigits⟩
  · cases rest with
    | nil => rfl
    | cons c rest =>
      have hc := he c rfl
      rw [Bool.or_eq_false_iff, beq_eq_false_iff_ne, beq_eq_false_iff_ne] at hc
      rw [List.nil_append, readExponent, if_neg]
      exact fun h => h.1.elim hc.1 hc.2
  · obtain ⟨htake, hdrop⟩ := span_append hdigits.2 hrest
    rw [List.cons_append, readExponent, readSign_append hsgn hdigits, htake, hdrop,
      if_pos ⟨hletter, hdigits.1⟩, List.cons_append]

theorem readMinus_append {w rest : List Char} (h : IsMinus w) (hrest : Stops (· == '-') rest) :
    readMinus (w ++ rest) = (w, rest) := by
  rcases h with rfl | rfl
  · rw [List.nil_append, readMinus.eq_def]
    split
    · exact absurd (hrest '-' rfl) (by decide)
    · rfl
  · rfl

theorem Stops.append {p : Char → Bool} {w rest : List Char} (hw : Stops p w) (hrest : Stops p rest) :
    Stops p (w ++ rest) := by
  cases w with
  | nil => exact hrest
  | cons c w => exact hw

theorem stops_nil (p : Char → Bool) : Stops p [] := nofun

theorem stops_cons {p : Char → Bool} {c : Char} {rest : List Char} (h : p c = false) :
    Stops p (c :: rest) := by
  intro d hd
  cases hd
  exact h

theorem Ends.stops {rest : List Char} (h : Ends rest) {p : Char → Bool}
    (hp : ∀ c, isEnd c = true → p c = false) : Stops p rest := fun c hc => hp c (h c hc)

theorem isEnd_cases {c : Char} (h : isEnd c = true) :
    c = ' ' ∨ c = '\t' ∨ c = '\n' ∨ c = '\r' ∨ c = ',' ∨ c = ']' ∨ c = '\x7d' := by
  simpa [isEnd, isSpace, or_assoc] using h

theorem stops_exponent {w : List Char} (h : IsExponent w) {p : Char → Bool} (hlower : p 'e' = false)
    (hupper : p 'E' = false) : Stops p w := by
  rcases h with rfl | ⟨e, sgn, ds, rfl, rfl | rfl, -⟩
  · exact stops_nil p
  · exact stops_cons hlower
  · exact stops_cons hupper

theorem stops_fraction {w : List Char} (h : IsFraction w) {p : Char → Bool} (hpoint : p '.' = false) :
    Stops p w := by
  rcases h with rfl | ⟨ds, rfl, -⟩
  · exact stops_nil p
  · exact stops_cons hpoint

theorem readNumber_append {minus whole fraction exponent rest : List Char} (hminus : IsMinus minus)
    (hwhole : IsWhole whole) (hfraction : IsFraction fraction) (hexponent : IsExponent exponent)
    (hrest : Ends rest) :
    readNumber (minus ++ (whole ++ (fraction ++ (exponent ++ rest)))) =
      some (minus ++ whole ++ fraction ++ exponent, rest) := by
  have hdigit : Stops isDigit rest := hrest.stops fun c hc => by
    rcases isEnd_cases hc with rfl | rfl | rfl | rfl | rfl | rfl | rfl <;> rfl
  have hpoint : Stops (· == '.') rest := hrest.stops fun c hc => by
    rcases isEnd_cases hc with rfl | rfl | rfl | rfl | rfl | rfl | rfl <;> rfl
  have hletter : Stops (fun c => c == 'e' || c == 'E') rest := hrest.stops fun c hc => by
    rcases isEnd_cases hc with rfl | rfl | rfl | rfl | rfl | rfl | rfl <;> rfl
  have hafter : Stops isDigit (exponent ++ rest) := (stops_exponent hexponent rfl rfl).append hdigit
  have hstart : Stops (· == '-') (whole ++ (fraction ++ (exponent ++ rest))) := by
    obtain ⟨c, ds, rfl, hc⟩ := hwhole.digits.cons
    exact stops_cons (beq_eq_false_iff_ne.mpr (ne_of_isDigit hc rfl))
  rw [readNumber, readMinus_append hminus hstart]
  dsimp only
  rw [readWhole_append hwhole ((stops_fraction hfraction rfl).append hafter)]
  show some _ = _
  rw [readFraction_append hfraction hafter ((stops_exponent hexponent rfl rfl).append hpoint),
    readExponent_append hexponent hdigit hletter]

theorem readLiteral_digit {c : Char} (hc : isDigit c = true) (rest : List Char) :
    readLiteral (c :: rest) = none := by
  have hn : c ≠ 'n' := ne_of_isDigit hc rfl
  have ht : c ≠ 't' := ne_of_isDigit hc rfl
  have hf : c ≠ 'f' := ne_of_isDigit hc rfl
  have hN : c ≠ 'N' := ne_of_isDigit hc rfl
  have hI : c ≠ 'I' := ne_of_isDigit hc rfl
  have hminus : c ≠ '-' := ne_of_isDigit hc rfl
  simp [readLiteral, literals, dropPrefix, hn.symm, ht.symm, hf.symm, hN.symm, hI.symm, hminus.symm]

theorem readLiteral_minus {c : Char} (hc : isDigit c = true) (rest : List Char) :
    readLiteral ('-' :: c :: rest) = none := by
  have hI : c ≠ 'I' := ne_of_isDigit hc rfl
  simp [readLiteral, literals, dropPrefix, hI.symm]

theorem readValue_scalar {c : Char} (hquote : c ≠ '"') (hbracket : c ≠ '[') (hbrace : c ≠ '\x7b')
    (n : Nat) (rest : List Char) : readValue (n + 1) (c :: rest) = readScalar (c :: rest) := by
  rw [readValue.eq_def]
  split
  · next heq => cases heq
  · next heq => exact absurd (List.cons.inj heq).1 hquote
  · next heq => exact absurd (List.cons.inj heq).1 hbracket
  · next heq => exact absurd (List.cons.inj heq).1 hbrace
  · rfl

theorem reads_number {minus whole fraction exponent : List Char} (hminus : IsMinus minus)
    (hwhole : IsWhole whole) (hfraction : IsFraction fraction) (hexponent : IsExponent exponent) :
    Reads (.number (minus ++ whole ++ fraction ++ exponent))
      (minus ++ whole ++ fraction ++ exponent) := by
  intro n rest hn hrest
  obtain ⟨c, ds, hw, hc⟩ := hwhole.digits.cons
  have hnumber := readNumber_append hminus hwhole hfraction hexponent hrest
  have htext : minus ++ whole ++ fraction ++ exponent ++ rest =
      minus ++ (whole ++ (fraction ++ (exponent ++ rest))) := by simp only [List.append_assoc]
  cases n with
  | zero =>
    rw [hw] at hn
    simp only [List.length_append, List.length_cons] at hn
    omega
  | succ n =>
    have hscalar : readValue (n + 1) (minus ++ (whole ++ (fraction ++ (exponent ++ rest)))) =
        readScalar (minus ++ (whole ++ (fraction ++ (exponent ++ rest)))) ∧
        readLiteral (minus ++ (whole ++ (fraction ++ (exponent ++ rest)))) = none := by
      rw [hw]
      rcases hminus with rfl | rfl
      · exact ⟨readValue_scalar (ne_of_isDigit hc rfl) (ne_of_isDigit hc rfl) (ne_of_isDigit hc rfl) n _,
          readLiteral_digit hc _⟩
      · exact ⟨readValue_scalar (by decide) (by decide) (by decide) n _, readLiteral_minus hc _⟩
    rw [htext, hscalar.1, readScalar, hscalar.2, hnumber]
    rfl

/-! ## Backslashes -/

/-- In front of the first double quote there is no backslash. -/
def Unslashed (text : List Char) : Prop := '\\' ∉ text.takeWhile (· != '"')

theorem unslashed_nil : Unslashed [] := List.not_mem_nil

theorem unslashed_quote (rest : List Char) : Unslashed ('"' :: rest) := List.not_mem_nil

theorem Unslashed.cons {c : Char} {rest : List Char} (h : Unslashed rest) (hc : c ≠ '\\') :
    Unslashed (c :: rest) := by
  rw [Unslashed, List.takeWhile_cons]
  split
  · intro hmem
    rcases List.mem_cons.mp hmem with heq | hmem
    · exact hc heq.symm
    · exact h hmem
  · exact List.not_mem_nil

theorem Unslashed.append {w rest : List Char} (h : Unslashed rest) (hw : '\\' ∉ w) :
    Unslashed (w ++ rest) := by
  induction w with
  | nil => exact h
  | cons c w ih =>
    rw [List.mem_cons, not_or] at hw
    exact (ih hw.2).cons fun heq => hw.1 heq.symm

theorem Unslashed.unskip {text : List Char} (h : Unslashed (skip text)) : Unslashed text := by
  rw [skip] at h
  have hspaces : '\\' ∉ text.takeWhile isSpace := fun hmem => by
    cases List.all_eq_true.mp List.all_takeWhile _ hmem
  have hboth := h.append hspaces
  rw [List.takeWhile_append_dropWhile] at hboth
  exact hboth

theorem unslashed_takeWhile_digits (text : List Char) : '\\' ∉ text.takeWhile isDigit :=
  fun hmem => by cases List.all_eq_true.mp List.all_takeWhile _ hmem

theorem Unslashed.undigit {text : List Char} (h : Unslashed (text.dropWhile isDigit)) :
    Unslashed text := by
  have hboth := h.append (unslashed_takeWhile_digits text)
  rw [List.takeWhile_append_dropWhile] at hboth
  exact hboth

theorem unslashed_readWhole {text w rest : List Char} (h : readWhole text = some (w, rest))
    (hrest : Unslashed rest) : Unslashed text := by
  rw [readWhole.eq_def] at h
  split at h
  · cases h
    exact hrest.cons (by decide)
  · split at h
    · cases h
    · cases h
      exact hrest.undigit

theorem unslashed_readFraction {text : List Char} (h : Unslashed (readFraction text).2) :
    Unslashed text := by
  rw [readFraction.eq_def] at h
  split at h
  · split at h
    · exact h
    · exact h.undigit.cons (by decide)
  · exact h

theorem unslashed_readSign {text : List Char} (h : Unslashed (readSign text).2) : Unslashed text := by
  rw [readSign.eq_def] at h
  split at h
  · exact h.cons (by decide)
  · exact h.cons (by decide)
  · exact h

theorem unslashed_readExponent {text : List Char} (h : Unslashed (readExponent text).2) :
    Unslashed text := by
  rw [readExponent.eq_def] at h
  split at h
  · exact h
  · split at h
    · next hletter =>
      apply (unslashed_readSign h.undigit).cons
      rintro rfl
      exact hletter.1.elim (by decide) (by decide)
    · exact h

theorem unslashed_readMinus {text : List Char} (h : Unslashed (readMinus text).2) :
    Unslashed text := by
  rw [readMinus.eq_def] at h
  split at h
  · exact h.cons (by decide)
  · exact h

theorem unslashed_readNumber {text w rest : List Char} (h : readNumber text = some (w, rest))
    (hrest : Unslashed rest) : Unslashed text := by
  rw [readNumber] at h
  cases hwhole : readWhole (readMinus text).2 with
  | none =>
    rw [hwhole] at h
    cases h
  | some r =>
    rw [hwhole] at h
    cases h
    exact unslashed_readMinus (unslashed_readWhole hwhole
      (unslashed_readFraction (unslashed_readExponent hrest)))

theorem eq_append_of_dropPrefix {word text rest : List Char} (h : dropPrefix word text = some rest) :
    text = word ++ rest := by
  induction word generalizing text with
  | nil =>
    cases h
    rfl
  | cons c word ih =>
    cases text with
    | nil => cases h
    | cons d text =>
      rw [dropPrefix] at h
      split at h
      · next hcd =>
        rw [ih h, hcd]
        rfl
      · cases h

theorem unslashed_readLiteral {text rest : List Char} {t : Tree}
    (h : readLiteral text = some (t, rest)) (hrest : Unslashed rest) : Unslashed text := by
  obtain ⟨literal, hmem, hliteral⟩ := List.exists_of_findSome?_eq_some h
  obtain ⟨rest', hdrop, heq⟩ := Option.map_eq_some_iff.mp hliteral
  cases heq
  rw [eq_append_of_dropPrefix hdrop]
  apply hrest.append
  have hall : ∀ literal ∈ literals, '\\' ∉ literal.1 := by
    simp [literals]
  exact hall literal hmem

theorem unslashed_readScalar {text rest : List Char} {t : Tree}
    (h : readScalar text = some (t, rest)) (hrest : Unslashed rest) : Unslashed text := by
  rw [readScalar] at h
  split at h
  · next hliteral =>
    cases h
    exact unslashed_readLiteral hliteral hrest
  · obtain ⟨r, hnumber, heq⟩ := Option.map_eq_some_iff.mp h
    cases heq
    exact unslashed_readNumber hnumber hrest

theorem unslashed_readFields {n : Nat} {text : List Char} {r : List (List Char × Tree) × List Char}
    (h : readFields n text = some r) : Unslashed text := by
  rw [readFields.eq_def] at h
  split at h
  · cases h
  · exact unslashed_quote _
  · cases h

/-- If what is left after a value has no backslash in front of its first string, neither has
the text. -/
theorem unslashed_read (n : Nat) :
    (∀ text t rest, readValue n text = some (t, rest) → Unslashed rest → Unslashed text) ∧
      ∀ text ts rest, readItems n text = some (ts, rest) → Unslashed rest → Unslashed text := by
  induction n with
  | zero => exact ⟨nofun, nofun⟩
  | succ n ih =>
    obtain ⟨hvalue, hitems⟩ := ih
    constructor
    · intro text t rest h hrest
      rw [readValue.eq_def] at h
      split at h
      · next heq => cases heq
      · exact unslashed_quote _
      · next heq =>
        cases heq
        refine Unslashed.cons (Unslashed.unskip ?_) (by decide)
        split at h
        · next hskip =>
          cases h
          rw [hskip]
          exact hrest.cons (by decide)
        · obtain ⟨r, hr, heq⟩ := Option.map_eq_some_iff.mp h
          cases heq
          exact hitems _ _ _ hr hrest
      · next heq =>
        cases heq
        refine Unslashed.cons (Unslashed.unskip ?_) (by decide)
        split at h
        · next hskip =>
          cases h
          rw [hskip]
          exact hrest.cons (by decide)
        · obtain ⟨r, hr, heq⟩ := Option.map_eq_some_iff.mp h
          exact unslashed_readFields hr
      · exact unslashed_readScalar h hrest
    · intro text ts rest h hrest
      rw [readItems] at h
      split at h
      · cases h
      · next t after hread =>
        refine hvalue _ _ _ hread (Unslashed.unskip ?_)
        split at h
        · next hskip =>
          cases h
          rw [hskip]
          exact hrest.cons (by decide)
        · next hskip =>
          obtain ⟨r, hr, heq⟩ := Option.map_eq_some_iff.mp h
          cases heq
          rw [hskip]
          exact (Unslashed.unskip (hitems _ _ _ hr hrest)).cons (by decide)
        · cases h

/-- A text with a backslash in front of its first double quote is refused. -/
theorem unslashed_of_parse {text : List Char} {t : Tree} (h : parse text = some t) :
    Unslashed text := by
  rw [parse] at h
  split at h
  · next hread =>
    split at h
    · next hskip =>
      refine Unslashed.unskip ((unslashed_read _).1 _ _ _ hread (Unslashed.unskip ?_))
      rw [hskip]
      exact unslashed_nil
    · cases h
  · cases h

end Json
end Lexing
end Eds
