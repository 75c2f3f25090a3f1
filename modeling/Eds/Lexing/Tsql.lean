import Eds.Lexing.Sql

/-!
# How SQL Server reads a text

A literal stands between single quotes and a name between brackets or double quotes; what
closes them is doubled inside.  A backslash is an ordinary character.  A comment runs from
`--` to the end of the line, or from `/*` to the `*/` that belongs to it.

As in the other dialects, a phrase leaves the lexer where it found it, and a clause does so
as soon as something follows that does not close a quote.
-/

namespace Eds
namespace Lexing
namespace Tsql

inductive State where
  | plain
  | quoted (stop : Char) (text : List Char)
  | closed (stop : Char) (text : List Char)
  | dash
  | slash
  | line
  | block (depth : Nat)
  | star (depth : Nat)
  | deeper (depth : Nat)

/-- The character that closes what this one opens. -/
def stopOf : Char → Option Char
  | '\'' => some '\''
  | '"' => some '"'
  | '[' => some ']'
  | _ => none

def isStop (c : Char) : Bool := c == '\'' || c == '"' || c == ']'

def token (stop : Char) (text : List Char) : Token :=
  if stop = '\'' then .literal text else .identifier text

def plainStep (c : Char) : State × List Token :=
  match stopOf c with
  | some stop => (.quoted stop [], [])
  | none =>
    if c = ';' then (.plain, [.semicolon])
    else if c = '-' then (.dash, [])
    else if c = '/' then (.slash, [])
    else (.plain, [.other c])

/-- What was pending is over, and the character is read as outside of it. -/
def resume (pending : List Token) (c : Char) : State × List Token :=
  ((plainStep c).1, pending ++ (plainStep c).2)

def step : State → Char → State × List Token
  | .plain, c => plainStep c
  | .quoted stop text, c => (if c = stop then .closed stop text else .quoted stop (text ++ [c]), [])
  | .closed stop text, c =>
    if c = stop then (.quoted stop (text ++ [c]), []) else resume [token stop text] c
  | .dash, c => if c = '-' then (.line, []) else resume [.other '-'] c
  | .slash, c => if c = '*' then (.block 0, []) else resume [.other '/'] c
  | .line, c => (if c = '\n' ∨ c = '\r' then .plain else .line, [])
  | .block depth, c =>
    (if c = '*' then .star depth else if c = '/' then .deeper depth else .block depth, [])
  | .star depth, c =>
    (if c = '/' then (match depth with | 0 => .plain | depth + 1 => .block depth)
      else if c = '*' then .star depth else .block depth, [])
  | .deeper depth, c =>
    (if c = '*' then .block (depth + 1) else if c = '/' then .deeper depth else .block depth, [])

def finish : State → Option (List Token)
  | .plain | .line => some []
  | .closed stop text => some [token stop text]
  | .dash => some [.other '-']
  | .slash => some [.other '/']
  | .quoted .. | .block _ | .star _ | .deeper _ => none

def lexer : Transducer Char State Token where
  start := .plain
  step := step
  finish := finish

/-- The tokens of the text, if no quote and no comment is open at its end. -/
def read (text : String) : Option (List Token) := lexer.read text.toList

variable {s s' s'' : State} {stop c : Char} {text text' value value' : List Char}
  {out out' : List Token}

theorem passes_single (hstep : step s c = (s', out)) : lexer.Passes s [c] s' out :=
  Transducer.Passes.single hstep

theorem passes_cons (hstep : step s c = (s', out)) (h : lexer.Passes s' text s'' out') :
    lexer.Passes s (c :: text) s'' (out ++ out') :=
  Transducer.Passes.cons hstep h

theorem readFrom_cons : lexer.readFrom s (c :: text) =
    (lexer.readFrom (step s c).1 text).map ((step s c).2 ++ ·) := rfl

/-! ## Phrases and clauses -/

def Reads (text : List Char) (out : List Token) : Prop := lexer.Passes .plain text .plain out

/-- The text does not go on with what a quote was closed by. -/
def Apart (text : List Char) : Prop := ∀ c ∈ text.head?, isStop c = false

def ReadsApart (text : List Char) (out : List Token) : Prop :=
  ∀ rest, Apart rest →
    lexer.readFrom .plain (text ++ rest) = (lexer.readFrom .plain rest).map (out ++ ·)

theorem apart_nil : Apart [] := fun _ hc => nomatch hc

theorem Apart.append (h : Apart text) (hne : text ≠ []) : Apart (text ++ text') := by
  cases text with
  | nil => exact absurd rfl hne
  | cons c text => exact h

theorem Reads.apart (h : Reads text out) : ReadsApart text out := fun rest _ => h rest

theorem Reads.append (h : Reads text out) (h' : Reads text' out') :
    Reads (text ++ text') (out ++ out') := Transducer.Passes.append h h'

theorem Reads.append_apart (h : Reads text out) (h' : ReadsApart text' out') :
    ReadsApart (text ++ text') (out ++ out') := by
  intro rest hrest
  rw [List.append_assoc, h, h' rest hrest, Transducer.map_append_append]

theorem ReadsApart.append_reads (h : ReadsApart text out) (h' : Reads text' out')
    (hne : text' ≠ []) (hapart : Apart text') : Reads (text ++ text') (out ++ out') := by
  intro rest
  rw [List.append_assoc, h _ (hapart.append hne), h', Transducer.map_append_append]

/-- A text that nothing follows. -/
theorem ReadsApart.read_eq (h : ReadsApart text out) : lexer.read text = some out := by
  have hall := h [] apart_nil
  rw [List.append_nil] at hall
  rw [Transducer.read]
  refine hall.trans ?_
  simp only [Transducer.readFrom, lexer, finish, Option.map_some, List.append_nil]

/-- Outside quotes the character stands for itself. -/
def inert (c : Char) : Bool :=
  !isStop c && c != '[' && c != ';' && c != '-' && c != '/'

theorem step_inert (h : inert c = true) : step .plain c = (.plain, [.other c]) := by
  simp only [inert, isStop, Bool.and_eq_true, Bool.not_eq_true', Bool.or_eq_false_iff,
    beq_eq_false_iff_ne, bne_iff_ne, ne_eq] at h
  obtain ⟨⟨⟨⟨⟨⟨hquote, hdouble⟩, -⟩, hbracket⟩, hsemicolon⟩, hdash⟩, hslash⟩ := h
  have hstop : stopOf c = none := by
    unfold stopOf
    split
    · exact absurd rfl hquote
    · exact absurd rfl hdouble
    · exact absurd rfl hbracket
    · rfl
  show plainStep c = _
  rw [plainStep, hstop]
  simp only [if_neg hsemicolon, if_neg hdash, if_neg hslash]

theorem apart_of_inert (h : text.all inert = true) : Apart text := by
  intro c hc
  have hinert := List.all_eq_true.mp h c (List.mem_of_mem_head? hc)
  simp only [inert, Bool.and_eq_true, Bool.not_eq_true'] at hinert
  exact hinert.1.1.1.1

theorem Reads.inert (h : text.all inert = true) : Reads text (text.map .other) := by
  induction text with
  | nil => exact Transducer.Passes.nil
  | cons c text ih =>
    rw [List.all_cons, Bool.and_eq_true] at h
    exact passes_cons (step_inert h.1) (ih h.2)

theorem Reads.semicolon : Reads [';'] [.semicolon] := passes_single rfl

/-- A minus sign in front of what is no second one. -/
theorem Reads.minus (h : text.all Tsql.inert = true) (hne : text ≠ []) :
    Reads ('-' :: text) (('-' :: text).map .other) := by
  obtain ⟨c, text, rfl⟩ := List.exists_cons_of_ne_nil hne
  rw [List.all_cons, Bool.and_eq_true] at h
  have hc : c ≠ '-' := by
    intro hgiven
    subst hgiven
    exact absurd h.1 (by decide)
  have hresume : step .dash c = (.plain, [.other '-', .other c]) := by
    have hplain : plainStep c = (.plain, [.other c]) := step_inert h.1
    rw [step, if_neg hc, resume, hplain]
    rfl
  exact passes_cons rfl (passes_cons hresume (Reads.inert h.2))

/-! ## Quoted texts -/

/-- Between quotes the text stands for `value`. -/
def Body (stop : Char) (text value : List Char) : Prop :=
  ∀ before, lexer.Passes (.quoted stop before) text (.quoted stop (before ++ value)) []

theorem Body.char (hc : c ≠ stop) : Body stop [c] [c] := by
  intro before
  refine passes_single ?_
  rw [step, if_neg hc]

theorem Body.doubled : Body stop [stop, stop] [stop] := by
  intro before
  have hclose : step (.quoted stop before) stop = (.closed stop before, []) := by
    rw [step, if_pos rfl]
  have hopen : step (.closed stop before) stop = (.quoted stop (before ++ [stop]), []) := if_pos rfl
  exact passes_cons hclose (passes_single hopen)

/-- Characters that are written one by one are read one by one. -/
theorem Body.flatMap {encode decode : Char → List Char}
    (h : ∀ c ∈ text, Body stop (encode c) (decode c)) :
    Body stop (text.flatMap encode) (text.flatMap decode) :=
  Transducer.Passes.flatMap h

theorem Body.verbatim (h : stop ∉ text) : Body stop text text := by
  have hall : Body stop (text.flatMap fun c => [c]) (text.flatMap fun c => [c]) :=
    Body.flatMap fun c hc => Body.char fun heq => h (heq ▸ hc)
  rw [List.flatMap_singleton'] at hall
  exact hall

theorem Body.readsApart {start : Char} (h : Body stop text value) (hstart : stopOf start = some stop) :
    ReadsApart (start :: (text ++ [stop])) [token stop value] := by
  have hopen : step .plain start = (.quoted stop [], []) := by
    show plainStep start = _
    rw [plainStep, hstart]
  have hclose : step (.quoted stop value) stop = (.closed stop value, []) := by
    rw [step, if_pos rfl]
  have hpasses : lexer.Passes .plain (start :: (text ++ [stop])) (.closed stop value) [] :=
    passes_cons hopen ((h []).append (passes_single hclose))
  have hstop : isStop stop = true := by
    unfold stopOf at hstart
    split at hstart <;> cases hstart <;> rfl
  intro rest hrest
  rw [hpasses rest, Transducer.map_nil_append]
  cases rest with
  | nil => rfl
  | cons c rest =>
    have hc : c ≠ stop := by
      intro heq
      have hapart := hrest c rfl
      rw [heq, hstop] at hapart
      cases hapart
    have hstep : step (.closed stop value) c = resume [token stop value] c := if_neg hc
    rw [readFrom_cons, readFrom_cons, hstep, Transducer.map_append_append]
    rfl

/-! ### A text that is put between single quotes as it is -/

/-- A literal that the text was read as goes on from what was read before.  It is not longer
than the text, and is shorter if there is a quote in the text. -/
theorem quoted_literal {before : List Char} {v : List Char}
    (h : lexer.readFrom (.quoted '\'' before) (text ++ ['\'']) = some [.literal v]) :
    before <+: v ∧ v.length ≤ before.length + text.length ∧
      (v.length = before.length + text.length → '\'' ∉ text) := by
  induction hlength : text.length using Nat.strong_induction_on generalizing text before with
  | _ n ih =>
    cases text with
    | nil =>
      have hv : [Token.literal before] = [.literal v] := Option.some.inj h
      cases hv
      subst hlength
      exact ⟨List.prefix_refl _, Nat.le_refl _, fun _ => List.not_mem_nil⟩
    | cons c text =>
      rw [List.length_cons] at hlength
      by_cases hc : c = '\''
      · subst hc
        have hclosed : lexer.readFrom (.closed '\'' before) (text ++ ['\'']) = some [.literal v] := by
          rw [List.cons_append, readFrom_cons, step, if_pos rfl, Transducer.map_nil_append] at h
          exact h
        cases text with
        | nil => cases hclosed
        | cons d text =>
          rw [List.length_cons] at hlength
          by_cases hd : d = '\''
          · subst hd
            have hopen : lexer.readFrom (.quoted '\'' (before ++ ['\''])) (text ++ ['\'']) =
                some [.literal v] := by
              rw [List.cons_append, readFrom_cons, step, if_pos rfl, Transducer.map_nil_append]
                at hclosed
              exact hclosed
            obtain ⟨hfront, hle, -⟩ := ih text.length (by omega) hopen rfl
            rw [List.length_append, List.length_singleton] at hle
            refine ⟨(List.prefix_append _ _).trans hfront, by omega, fun heq => ?_⟩
            omega
          · -- the literal ended at the quote, and what follows it is no part of it
            rw [List.cons_append, readFrom_cons, step, if_neg hd, resume] at hclosed
            obtain ⟨more, -, hmore⟩ := Option.map_eq_some_iff.mp hclosed
            rw [List.append_assoc, List.singleton_append] at hmore
            have hv : Token.literal before = .literal v := (List.cons.inj hmore).1
            cases hv
            refine ⟨List.prefix_refl _, by omega, fun heq => ?_⟩
            omega
      · have hquoted : lexer.readFrom (.quoted '\'' (before ++ [c])) (text ++ ['\'']) =
            some [.literal v] := by
          rw [List.cons_append, readFrom_cons, step, if_neg hc, Transducer.map_nil_append] at h
          exact h
        obtain ⟨hfront, hle, hnot⟩ := ih text.length (by omega) hquoted rfl
        rw [List.length_append, List.length_singleton] at hle hnot
        refine ⟨(List.prefix_append _ _).trans hfront, by omega, fun heq hmem => ?_⟩
        rcases List.mem_cons.mp hmem with heq' | hmem
        · exact hc heq'.symm
        · exact hnot (by omega) hmem

theorem read_quoted : lexer.read ('\'' :: (text ++ ['\''])) =
    lexer.readFrom (.quoted '\'' []) (text ++ ['\'']) := by
  show lexer.readFrom .plain _ = _
  rw [readFrom_cons]
  exact Transducer.map_nil_append _

theorem length_literal {v : List Char} (h : lexer.read ('\'' :: (text ++ ['\''])) = some [.literal v]) :
    v.length ≤ text.length ∧ (v.length = text.length → '\'' ∉ text) := by
  rw [read_quoted] at h
  have hall := (quoted_literal h).2
  rw [List.length_nil, Nat.zero_add] at hall
  exact hall

/-- What stands before the first quote is read as it stands. -/
theorem prefix_literal {v : List Char} (htext : '\'' ∉ text)
    (h : lexer.read ('\'' :: (text ++ text' ++ ['\''])) = some [.literal v]) : text <+: v := by
  rw [read_quoted, List.append_assoc, Body.verbatim htext, Transducer.map_nil_append,
    List.nil_append] at h
  exact (quoted_literal h).1

/-- What is between the quotes is the literal as it stands, if no quote is in it. -/
theorem read_verbatim (h : '\'' ∉ text) :
    lexer.read ('\'' :: (text ++ ['\''])) = some [.literal text] :=
  ((Body.verbatim h).readsApart rfl).read_eq

/-! ## Counting statements -/

variable {a b sep : String} {m n : Nat} {parts : List String}

/-- A phrase in which `n` statements end. -/
def Phrase (n : Nat) (a : String) : Prop := ∃ out, statementCount out = n ∧ Reads a.toList out

/-- A clause in which `n` statements end. -/
def Clause (n : Nat) (a : String) : Prop := ∃ out, statementCount out = n ∧ ReadsApart a.toList out

theorem Phrase.clause (h : Phrase n a) : Clause n a := by
  obtain ⟨out, hcount, hreads⟩ := h
  exact ⟨out, hcount, hreads.apart⟩

theorem Phrase.append (h : Phrase m a) (h' : Phrase n b) : Phrase (m + n) (a ++ b) := by
  obtain ⟨out, hcount, hreads⟩ := h
  obtain ⟨out', hcount', hreads'⟩ := h'
  refine ⟨out ++ out', ?_, ?_⟩
  · rw [Dialect.statementCount_append, hcount, hcount']
  · rw [String.toList_append]
    exact hreads.append hreads'

theorem Phrase.append_clause (h : Phrase m a) (h' : Clause n b) : Clause (m + n) (a ++ b) := by
  obtain ⟨out, hcount, hreads⟩ := h
  obtain ⟨out', hcount', hreads'⟩ := h'
  refine ⟨out ++ out', ?_, ?_⟩
  · rw [Dialect.statementCount_append, hcount, hcount']
  · rw [String.toList_append]
    exact hreads.append_apart hreads'

theorem Phrase.inert (h : a.toList.all Tsql.inert = true) : Phrase 0 a :=
  ⟨_, Dialect.statementCount_others, Reads.inert h⟩

theorem Clause.append_inert (h : Clause n a) (hinert : b.toList.all Tsql.inert = true)
    (hne : b.toList ≠ []) : Phrase n (a ++ b) := by
  obtain ⟨out, hcount, hreads⟩ := h
  refine ⟨out ++ b.toList.map .other, ?_, ?_⟩
  · rw [Dialect.statementCount_append, hcount, Dialect.statementCount_others, Nat.add_zero]
  · rw [String.toList_append]
    exact hreads.append_reads (Reads.inert hinert) hne (apart_of_inert hinert)

theorem Clause.quoted {start : Char} {p q : String} (h : Body stop a.toList value)
    (hstart : stopOf start = some stop) (hp : p.toList = [start]) (hq : q.toList = [stop]) :
    Clause 0 (p ++ a ++ q) := by
  refine ⟨[token stop value], ?_, ?_⟩
  · refine List.count_eq_zero_of_not_mem fun hmem => ?_
    rw [List.mem_singleton, token] at hmem
    split at hmem <;> cases hmem
  · rw [String.toList_append, String.toList_append, hp, hq, List.append_assoc]
    exact h.readsApart hstart

/-- Clauses with something between them. -/
theorem Clause.intercalate (hsep : sep.toList.all Tsql.inert = true) (hne : sep.toList ≠ [])
    (hparts : ∀ p ∈ parts, Clause 0 p) : Clause 0 (String.intercalate sep parts) := by
  have hnil : Clause 0 "" := (Phrase.inert rfl).clause
  refine intercalate_induction hnil (fun p rest hp hrest => ?_) hparts
  exact (hp.append_inert hsep hne).append_clause hrest

/-- A clause and its semicolon, with nothing but inert blanks behind it. -/
theorem Clause.oneStatement (h : Clause 0 a) (blanks : List Char)
    (hinert : blanks.all Tsql.inert = true) (hblank : blanks.all isBlank = true)
    (hb : b.toList = ';' :: blanks) :
    ∃ tokens, read (a ++ b) = some tokens ∧ OneStatement tokens := by
  obtain ⟨out, hcount, hreads⟩ := h
  have hend : Reads (';' :: blanks) (.semicolon :: blanks.map .other) :=
    passes_cons rfl (Reads.inert hinert)
  have hapart : Apart (';' :: blanks) := by
    intro c hc
    cases hc
    rfl
  have hall := hreads.append_reads hend (List.cons_ne_nil _ _) hapart
  refine ⟨out ++ .semicolon :: blanks.map .other, ?_, out, blanks.map .other, rfl, ?_, ?_⟩
  · rw [read, String.toList_append, hb]
    exact hall.apart.read_eq
  · exact List.count_eq_zero.mp hcount
  · intro t ht
    obtain ⟨c, hc, rfl⟩ := List.mem_map.mp ht
    exact ⟨c, rfl, List.all_eq_true.mp hblank c hc⟩

end Tsql
end Lexing
end Eds
