import Eds.Lexing.Sql
import Eds.Drivers.Values
import Eds.Drivers.Audit

/-!
# Value texts as a server reads them

A value is bare, a number or a word, or it is a body between single quotes.  Either
way the lexer is outside of every quote once the next character is known.
-/

namespace Eds
namespace Drivers

open Util Lexing Lexing.Dialect

variable {D : Dialect} {s t : String}

/-- Where a comma means nothing, joined clauses are one. -/
theorem clause_commas (hcomma : D.inert ',' = true) {parts : List String}
    (h : ∀ p ∈ parts, D.Clause 0 p) : D.Clause 0 (commas parts) :=
  Clause.intercalate (by simpa using hcomma) (List.cons_ne_nil _ _) h

/-! ## Numbers and words -/

def isWordChar (c : Char) : Bool := c.isAlphanum || c == '.' || c == '+'

def IsWord (s : String) : Prop := s.toList.all isWordChar = true

/-- Numbers and words are read as such. -/
structure ReadsBare (D : Dialect) : Prop where
  word : ∀ c, isWordChar c = true → D.inert c = true
  minus : D.isQuote '-' = false

theorem IsWord.append (h : IsWord s) (h' : IsWord t) : IsWord (s ++ t) := by
  rw [IsWord, String.toList_append, List.all_append, Bool.and_eq_true]
  exact ⟨h, h'⟩

theorem isWord_point : IsWord "." := rfl

theorem isWord_digitText (ds : List (Fin 10)) : IsWord (digitText ds) := by
  rw [IsWord, digitText, String.toList_ofList, List.all_map, List.all_eq_true]
  intro d _
  have hdigit : (digitChar d).isDigit = true := by
    rw [digitChar, Nat.isDigit_digitChar]
    exact decide_eq_true d.isLt
  simp only [Function.comp_apply, isWordChar, Char.isAlphanum, hdigit, Bool.or_true, Bool.true_or]

theorem digitText_ne_nil {ds : List (Fin 10)} (h : ds ≠ []) : (digitText ds).toList ≠ [] := by
  rw [digitText, String.toList_ofList]
  exact fun hnil => h (List.map_eq_nil_iff.mp hnil)

theorem isWord_repr (n : Nat) : IsWord (Nat.repr n) := by
  rw [IsWord, Nat.repr, String.toList_ofList, List.all_eq_true]
  intro c hc
  have hdigit : c.isDigit = true := Nat.isDigit_of_mem_toDigits (by decide) (by decide) hc
  simp only [isWordChar, Char.isAlphanum, hdigit, Bool.or_true, Bool.true_or]

theorem repr_ne_nil (n : Nat) : (Nat.repr n).toList ≠ [] := by
  rw [Nat.repr, String.toList_ofList]
  exact List.ne_nil_of_length_pos Nat.length_toDigits_pos

theorem isWord_pointed (whole fraction : List (Fin 10)) : IsWord (pointed whole fraction) := by
  unfold pointed
  split
  · exact isWord_digitText _
  · exact ((isWord_digitText _).append isWord_point).append (isWord_digitText _)

theorem pointed_ne_nil {whole : List (Fin 10)} (h : whole ≠ []) (fraction : List (Fin 10)) :
    (pointed whole fraction).toList ≠ [] := by
  unfold pointed
  split
  · exact digitText_ne_nil h
  · rw [String.toList_append, String.toList_append]
    simp [digitText_ne_nil h]

/-- Words, and words with a minus sign, one after the other. -/
inductive Numeral : String → Prop
  | word {s : String} (h : IsWord s) : Numeral s
  | minus {s : String} (h : IsWord s) (hne : s.toList ≠ []) : Numeral ("-" ++ s)
  | append {s t : String} (h : Numeral s) (h' : Numeral t) : Numeral (s ++ t)

theorem numeral_sign (neg : Bool) (h : IsWord s) (hne : s.toList ≠ []) : Numeral (sign neg ++ s) := by
  cases neg with
  | true => exact .minus h hne
  | false =>
    rw [show sign false = "" from rfl, String.empty_append]
    exact .word h

theorem numeral_int (n : Int) : Numeral (toString n) := by
  cases n with
  | ofNat m => exact .word (isWord_repr m)
  | negSucc m => exact .minus (isWord_repr _) (repr_ne_nil _)

theorem numeral_exponentText (e : Int) : Numeral (exponentText e) := by
  have hzero : IsWord (if e.natAbs < 10 then "0" else "") := by
    split <;> rfl
  have hrest : IsWord ((if e.natAbs < 10 then "0" else "") ++ toString e.natAbs) :=
    hzero.append (isWord_repr _)
  have hne : ((if e.natAbs < 10 then "0" else "") ++ toString e.natAbs).toList ≠ [] := by
    rw [String.toList_append]
    exact fun hnil => repr_ne_nil _ (List.append_eq_nil_iff.mp hnil).2
  rw [exponentText, String.append_assoc]
  split
  · exact .word (IsWord.append rfl hrest)
  · exact .minus hrest hne

/-- The exponent stands after the digits, and what is before it is not empty. -/
theorem numeral_shortest (neg : Bool) (d : Fin 10) (ds : List (Fin 10)) (e : Int) :
    Numeral (sign neg ++ shortest d ds e) := by
  have hone : ∀ ds, (digitText (d :: ds)).toList ≠ [] := fun ds =>
    digitText_ne_nil (List.cons_ne_nil d ds)
  unfold shortest
  split
  · rw [← String.append_assoc, ← String.append_assoc]
    refine .append (.append (numeral_sign neg ?_ ?_) (.word rfl)) (numeral_exponentText e)
    · split
      · exact isWord_digitText _
      · exact ((isWord_digitText _).append isWord_point).append (isWord_digitText _)
    · split
      · exact hone []
      · simp [hone []]
  · split
    · refine numeral_sign neg (IsWord.append rfl (isWord_digitText _)) ?_
      rw [String.toList_append]
      exact List.cons_ne_nil _ _
    · split
      · exact numeral_sign neg (isWord_digitText _) (hone _)
      · refine numeral_sign neg (((isWord_digitText _).append isWord_point).append (isWord_digitText _)) ?_
        simp [hone]

theorem numeral_formatG (text : String) : Numeral (formatG text) := by
  unfold formatG
  split
  · exact .word rfl
  · split
    · split
      · exact .minus (s := "Inf") rfl (List.cons_ne_nil _ _)
      · exact .word rfl
    · dsimp only
      split
      · exact numeral_sign _ rfl (List.cons_ne_nil _ _)
      · exact numeral_shortest _ _ _ _

theorem numeral_formatF (text : String) : Numeral (formatF text) := by
  unfold formatF
  split
  · exact .word rfl
  · split
    · split
      · exact .minus (s := "Infinity") rfl (List.cons_ne_nil _ _)
      · exact .word rfl
    · dsimp only
      split
      · exact numeral_sign _ rfl (List.cons_ne_nil _ _)
      next hdigits =>
        split
        · refine numeral_sign _ (isWord_digitText _) (digitText_ne_nil fun hnil => ?_)
          exact hdigits (List.append_eq_nil_iff.mp hnil).1
        · split
          next hplaces =>
            refine numeral_sign _ (isWord_pointed _ _) (pointed_ne_nil ?_ _)
            refine List.ne_nil_of_length_pos ?_
            rw [List.length_take]
            omega
          · exact numeral_sign _ (isWord_pointed _ _) (pointed_ne_nil (List.cons_ne_nil _ _) _)

/-- A number or a word, perhaps with minus signs in it. -/
def Bare (D : Dialect) (s : String) : Prop :=
  D.Phrase 0 s ∧ ∀ c ∈ s.toList, isWordChar c = true ∨ c = '-'

theorem Bare.append (h : Bare D s) (h' : Bare D t) : Bare D (s ++ t) := by
  refine ⟨h.1.append h'.1, ?_⟩
  rw [String.toList_append]
  intro c hc
  rcases List.mem_append.mp hc with hc | hc
  · exact h.2 c hc
  · exact h'.2 c hc

section Texts

variable (hD : ReadsBare D)
include hD

theorem IsWord.bare (h : IsWord s) : Bare D s := by
  have hall := List.all_eq_true.mp h
  refine ⟨Phrase.inert (List.all_eq_true.mpr fun c hc => hD.word c (hall c hc)), ?_⟩
  exact fun c hc => .inl (hall c hc)

theorem bare_minus (h : IsWord s) (hne : s.toList ≠ []) : Bare D ("-" ++ s) := by
  have hall := List.all_eq_true.mp h
  have hinert : s.toList.all D.inert = true :=
    List.all_eq_true.mpr fun c hc => hD.word c (hall c hc)
  have hlist : ("-" ++ s).toList = '-' :: s.toList := String.toList_append
  rw [Bare, Phrase, hlist]
  refine ⟨⟨_, statementCount_others, Reads.minus hinert hne hD.minus⟩, ?_⟩
  · intro c hc
    rcases List.mem_cons.mp hc with heq | hc
    · exact .inr heq
    · exact .inl (hall c hc)

theorem Numeral.bare (h : Numeral s) : Bare D s := by
  induction h with
  | word h => exact h.bare hD
  | minus h hne => exact bare_minus hD h hne
  | append _ _ ih ih' => exact ih.append ih'

theorem bare_int (n : Int) : Bare D (toString n) := (numeral_int n).bare hD

theorem bare_formatG (text : String) : Bare D (formatG text) := (numeral_formatG text).bare hD

theorem bare_formatF (text : String) : Bare D (formatF text) := (numeral_formatF text).bare hD

end Texts

/-! ## Values -/

/-- A bare value, or a body in single quotes. -/
inductive ReadsValue (D : Dialect) (s : String) : Prop
  | bare (h : Bare D s)
  | quoted (body : String) (value : List Char) (heq : s = "'" ++ body ++ "'")
      (h : D.Body '\'' body.toList value)

theorem ReadsValue.clause (hquote : D.isQuote '\'' = true) (h : ReadsValue D s) : D.Clause 0 s := by
  rcases h with hbare | ⟨body, value, heq, hbody⟩
  · exact hbare.1.clause
  · rw [heq]
    exact Clause.quoted hbody hquote rfl

theorem Bare.body (h : Bare D s) : D.Body '\'' s.toList s.toList := by
  refine Body.verbatim (fun hmem => ?_) (.inr fun hmem => ?_)
  · rcases h.2 _ hmem with hword | heq
    · cases hword
    · cases heq
  · rcases h.2 _ hmem with hword | heq
    · cases hword
    · cases heq

theorem endsWith_eq_false (s word : String) :
    s.endsWith word = false ↔ ¬ word.toList <:+ s.toList := by
  rw [String.endsWith_eq_endsWith_toSlice, String.Slice.endsWith_string_eq_false_iff,
    String.copy_toSlice]

theorem looksScalar_quoted (body : String) : looksScalar ("'" ++ body ++ "'") = false := by
  have hlist : ("'" ++ body ++ "'").toList = '\'' :: (body.toList ++ ['\'']) := by
    rw [String.toList_append, String.toList_append]
    rfl
  have hend : ∀ (c : Char) (word : String), c ≠ '\'' → word.toList.getLast? = some c →
      ("'" ++ body ++ "'").endsWith word = false := by
    intro c word hc hlast
    rw [endsWith_eq_false, hlist]
    intro hsuffix
    obtain ⟨before, hbefore⟩ := hsuffix
    have hboth := congrArg List.getLast? hbefore
    rw [List.getLast?_append, hlast, ← List.cons_append, List.getLast?_append] at hboth
    exact hc (Option.some.inj hboth)
  rw [looksScalar, hend 'e' "true" (by decide) rfl, hend 'e' "false" (by decide) rfl, hlist]
  rfl

theorem looksScalar_null : looksScalar "NULL" = false := by
  rw [looksScalar, (endsWith_eq_false _ _).mpr (by decide), (endsWith_eq_false _ _).mpr (by decide)]
  rfl

/-- The text of a column that is missing. -/
theorem toJsonStringVal_null (prop : SchemaProperty) (quoteScalar : Bool) :
    toJsonStringVal "NULL" prop quoteScalar =
      if prop.isArrayOrJson && prop.isNotNull then
        (if prop.type == "array" then "'[]'" else "'\x7b\x7d'")
      else "NULL" := by
  have hempty : isEmptyVal "NULL" = true := by decide
  have hscalar : quoteJsonScalar "NULL" prop = "NULL" := by
    rw [quoteJsonScalar, looksScalar_null, Bool.and_false]
    rfl
  rw [toJsonStringVal, hempty, Bool.and_true, hscalar, ite_self]

theorem ReadsValue.toJsonStringVal (h : ReadsValue D s) (prop : SchemaProperty) (quoteScalar : Bool) :
    ReadsValue D (toJsonStringVal s prop quoteScalar) := by
  unfold Util.toJsonStringVal
  split
  · split
    · exact .quoted "[]" _ rfl (Body.verbatim (by decide) (.inr (by decide)))
    · exact .quoted "\x7b\x7d" _ rfl (Body.verbatim (by decide) (.inr (by decide)))
  · split
    · unfold quoteJsonScalar
      split
      next hscalar =>
        rcases h with hbare | ⟨body, value, heq, hbody⟩
        · exact .quoted s _ rfl hbare.body
        · rw [heq, looksScalar_quoted, Bool.and_false] at hscalar
          cases hscalar
      · exact h
    · exact h

/-! ### Timestamps -/

def isStampChar (c : Char) : Bool := isAsciiDigit c || c == '-' || c == ' ' || c == ':' || c == '.'

theorem isDigits_append {cs ds : List Char} (h : isDigits cs = true) (h' : isDigits ds = true) :
    isDigits (cs ++ ds) = true := by
  rw [isDigits, List.all_append, Bool.and_eq_true]
  exact ⟨h, h'⟩

theorem isStampChar_of_digits {cs : List Char} (h : isDigits cs = true) : cs.all isStampChar = true :=
  List.all_eq_true.mpr fun c hc => by
    rw [isStampChar, List.all_eq_true.mp h c hc]
    rfl

/-- The parts of a timestamp that are printed. -/
def Stamp.digits (t : Stamp) : List Char :=
  t.year ++ t.month ++ t.day ++ t.hour ++ t.minute ++ t.second ++ t.tail.drop 1

theorem stamp?_digits {v : String} {t : Stamp} (h : stamp? v = some t) : isDigits t.digits = true := by
  unfold stamp? at h
  split at h
  next rest _ =>
    rw [Option.ite_none_right_eq_some, Bool.and_eq_true, Bool.and_eq_true] at h
    obtain ⟨⟨⟨hdigits, _⟩, htail⟩, ht⟩ := h
    have hrest : isDigits (rest.dropLast.drop 1) = true := by
      revert htail
      cases rest.dropLast with
      | nil => intro _; rfl
      | cons c ds =>
        intro htail
        rw [Bool.and_eq_true] at htail
        exact htail.2
    cases ht
    exact isDigits_append hdigits hrest
  · cases h

theorem isStampChar_fractionText {t : Stamp} (h : isDigits (t.tail.drop 1) = true) :
    t.fractionText.toList.all isStampChar = true := by
  unfold Stamp.fractionText
  split
  · rfl
  · rw [String.toList_append, String.toList_ofList, List.all_append, Bool.and_eq_true]
    rw [String.toList_ofList]
    refine ⟨rfl, isStampChar_of_digits (List.all_eq_true.mpr fun c hc => ?_)⟩
    have hpadded : isDigits (t.tail.drop 1 ++ ['0', '0', '0', '0', '0', '0']) = true :=
      isDigits_append h rfl
    have hdropped := (List.dropWhile_sublist _).mem (List.mem_reverse.mp hc)
    exact List.all_eq_true.mp hpadded c (List.mem_of_mem_take (List.mem_reverse.mp hdropped))

/-- A string that looks like a timestamp is printed as one. -/
theorem quoteStringValue_stamp {escape : String → String} {v text : String} {t : Stamp}
    (ht : stamp? v = some t) (h : quoteStringValue escape v = .ok text) :
    ∃ body, text = "'" ++ body ++ "'" ∧ body.toList.all isStampChar = true := by
  have hall := stamp?_digits ht
  simp only [Stamp.digits, isDigits, List.all_append, Bool.and_eq_true] at hall
  obtain ⟨⟨⟨⟨⟨⟨hyear, hmonth⟩, hday⟩, hhour⟩, hminute⟩, hsecond⟩, htail⟩ := hall
  unfold quoteStringValue at h
  rw [ht] at h
  dsimp only at h
  split at h
  · cases h
  · split at h
    · cases h
      exact ⟨"1970-01-01 00:00:01", rfl, rfl⟩
    · cases h
      refine ⟨String.ofList (t.year ++ ['-'] ++ t.month ++ ['-'] ++ t.day ++ [' '] ++ t.hour ++
        [':'] ++ t.minute ++ [':'] ++ t.second) ++ t.fractionText, ?_, ?_⟩
      · simp only [String.append_assoc]
      · simp only [String.toList_append, String.toList_ofList, List.all_append, Bool.and_eq_true,
          isStampChar_of_digits hyear, isStampChar_of_digits hmonth, isStampChar_of_digits hday,
          isStampChar_of_digits hhour, isStampChar_of_digits hminute, isStampChar_of_digits hsecond,
          isStampChar_fractionText htail]
        decide

/-- A string value is the escaped text, or a timestamp. -/
theorem quoteStringValue_body {escape : String → String} {v text : String}
    (h : quoteStringValue escape v = .ok text) :
    ∃ body, text = "'" ++ body ++ "'" ∧ (body = escape v ∨ body.toList.all isStampChar = true) := by
  cases ht : stamp? v with
  | none =>
    rw [quoteStringValue, ht] at h
    cases h
    exact ⟨escape v, rfl, .inl rfl⟩
  | some t =>
    obtain ⟨body, heq, hbody⟩ := quoteStringValue_stamp ht h
    exact ⟨body, heq, .inr hbody⟩

/-- The date and the `T` in front of the time. -/
theorem stamp?_prefix {v : String} {t : Stamp} (h : stamp? v = some t) :
    ∃ date rest, v.toList = date ++ rest ∧ 'T' ∈ date ∧ '\'' ∉ date := by
  have hdigits := stamp?_digits h
  unfold stamp? at h
  split at h
  next y₁ y₂ y₃ y₄ m₁ m₂ d₁ d₂ h₁ h₂ n₁ n₂ s₁ s₂ rest hv =>
    rw [Option.ite_none_right_eq_some] at h
    have ht := h.2
    cases ht
    simp only [Stamp.digits, isDigits, List.all_append, Bool.and_eq_true] at hdigits
    obtain ⟨⟨⟨⟨⟨⟨hyear, hmonth⟩, hday⟩, -⟩, -⟩, -⟩, -⟩ := hdigits
    refine ⟨[y₁, y₂, y₃, y₄] ++ '-' :: ([m₁, m₂] ++ '-' :: ([d₁, d₂] ++ ['T'])), _, hv, by simp, ?_⟩
    have hquote : ∀ ds : List Char, ds.all isAsciiDigit = true → '\'' ∉ ds :=
      fun ds hds hmem => absurd (List.all_eq_true.mp hds _ hmem) (by decide)
    intro hmem
    rcases List.mem_append.mp hmem with hmem | hmem
    · exact hquote _ hyear hmem
    · rcases List.mem_append.mp (List.mem_of_ne_of_mem (by decide) hmem) with hmem | hmem
      · exact hquote _ hmonth hmem
      · rcases List.mem_append.mp (List.mem_of_ne_of_mem (by decide) hmem) with hmem | hmem
        · exact hquote _ hday hmem
        · exact absurd hmem (by decide)
  · cases h

theorem stampChar_body (h : s.toList.all isStampChar = true) : D.Body '\'' s.toList s.toList := by
  have hstamp := List.all_eq_true.mp h
  exact Body.verbatim (fun hmem => by cases hstamp _ hmem) (.inr fun hmem => by cases hstamp _ hmem)

end Drivers
end Eds
