import Mathlib.Data.List.Infix
import Eds.Lexing.Transducer

/-!
# How an SQL server reads a text

A dialect says which characters quote literals and identifiers, what a backslash does
in a literal, and whether there are dollar quotes and comments.  A quote is doubled
inside what it quotes, so that its end is known at the next character only.

A phrase is a text that leaves the lexer where it found it.  A clause does so as soon
as something follows that does not begin with a quote.
-/

namespace Eds
namespace Lexing

/-- What holds of the parts and is kept where two texts are joined holds of all of them joined. -/
theorem intercalate_induction {P : String → Prop} {sep : String} {parts : List String} (hnil : P "")
    (hjoin : ∀ p rest, P p → P rest → P (p ++ sep ++ rest)) (hparts : ∀ p ∈ parts, P p) :
    P (String.intercalate sep parts) := by
  induction parts with
  | nil =>
    rw [String.intercalate_nil]
    exact hnil
  | cons p rest ih =>
    have hp := hparts p List.mem_cons_self
    have hrest := ih fun p' hp' => hparts p' (List.mem_cons_of_mem p hp')
    cases rest with
    | nil =>
      rw [String.intercalate_singleton]
      exact hp
    | cons p' rest =>
      rw [String.intercalate_cons_cons]
      exact hjoin p _ hp hrest

inductive Token where
  | literal (value : List Char)
  | identifier (name : List Char)
  | semicolon
  | other (c : Char)
  deriving DecidableEq

structure Dialect where
  literals : List Char
  identifiers : List Char
  /-- What a backslash and the next character stand for in a literal. -/
  escape : Option (Char → List Char)
  /-- `$tag$ … $tag$` -/
  dollars : Bool
  /-- From `#`, or `--` and a blank, to the end of the line, and between `/*` and `*/`. -/
  comments : Bool

inductive State where
  | plain
  | quoted (delim : Char) (text : List Char)
  | escaped (delim : Char) (text : List Char)
  | closed (delim : Char) (text : List Char)
  | tag (name : List Char)
  | dollar (name text : List Char)
  | dash
  | dashes
  | slash
  | line
  | block
  | star

def isBlank (c : Char) : Bool := c == ' ' || c.toNat < 0x20 || c.toNat == 0x7f

/-- A tag does not begin with a digit. -/
def isTagChar (name : List Char) (c : Char) : Bool :=
  c.isAlpha || c == '_' || 0x80 ≤ c.toNat || (!name.isEmpty && c.isDigit)

def dollarTag (name : List Char) : List Char := '$' :: (name ++ ['$'])

namespace Dialect

variable (D : Dialect)

def isQuote (c : Char) : Bool := D.literals.contains c || D.identifiers.contains c

def token (delim : Char) (text : List Char) : Token :=
  if D.literals.contains delim then .literal text else .identifier text

def escapeIn (delim : Char) : Option (Char → List Char) :=
  if D.literals.contains delim then D.escape else none

def plainStep (c : Char) : State × List Token :=
  if D.isQuote c then (.quoted c [], [])
  else if c = ';' then (.plain, [.semicolon])
  else if D.dollars && c == '$' then (.tag [], [])
  else if D.comments && c == '#' then (.line, [])
  else if D.comments && c == '-' then (.dash, [])
  else if D.comments && c == '/' then (.slash, [])
  else (.plain, [.other c])

/-- What was pending is over, and the character is read as outside of it. -/
def resume (pending : List Token) (c : Char) : State × List Token :=
  ((D.plainStep c).1, pending ++ (D.plainStep c).2)

def quotedStep (delim : Char) (text : List Char) (c : Char) : State × List Token :=
  if c = delim then (.closed delim text, [])
  else if (D.escapeIn delim).isSome && c == '\\' then (.escaped delim text, [])
  else (.quoted delim (text ++ [c]), [])

def dollarStep (name text : List Char) (c : Char) : State × List Token :=
  if dollarTag name <:+ text ++ [c] then
    (.plain, [.literal ((text ++ [c]).take ((text ++ [c]).length - (dollarTag name).length))])
  else (.dollar name (text ++ [c]), [])

def step : State → Char → State × List Token
  | .plain, c => D.plainStep c
  | .quoted delim text, c => D.quotedStep delim text c
  | .escaped delim text, c =>
    (.quoted delim (text ++ (((D.escapeIn delim).map (· c)).getD [c])), [])
  | .closed delim text, c =>
    if c = delim then (.quoted delim (text ++ [c]), []) else D.resume [D.token delim text] c
  | .tag name, c =>
    if c = '$' then (.dollar name [], [])
    else if isTagChar name c then (.tag (name ++ [c]), [])
    else D.resume (('$' :: name).map .other) c
  | .dollar name text, c => dollarStep name text c
  | .dash, c => if c = '-' then (.dashes, []) else D.resume [.other '-'] c
  | .dashes, c =>
    if isBlank c then (if c = '\n' then .plain else .line, [])
    else if c = '-' then (.dashes, [.other '-'])
    else D.resume [.other '-', .other '-'] c
  | .slash, c => if c = '*' then (.block, []) else D.resume [.other '/'] c
  | .line, c => (if c = '\n' then .plain else .line, [])
  | .block, c => (if c = '*' then .star else .block, [])
  | .star, c => (if c = '/' then .plain else if c = '*' then .star else .block, [])

def finish : State → Option (List Token)
  | .plain | .dashes | .line => some []
  | .closed delim text => some [D.token delim text]
  | .tag name => some (('$' :: name).map .other)
  | .dash => some [.other '-']
  | .slash => some [.other '/']
  | .quoted .. | .escaped .. | .dollar .. | .block | .star => none

def lexer : Transducer Char State Token where
  start := .plain
  step := D.step
  finish := D.finish

/-- The tokens of the text, if no quote and no comment is open at its end. -/
def read (text : String) : Option (List Token) := D.lexer.read text.toList

end Dialect

/-- The statements that end in the text. -/
def statementCount (tokens : List Token) : Nat := tokens.count .semicolon

/-- One statement, its semicolon, and blanks. -/
def OneStatement (tokens : List Token) : Prop :=
  ∃ body blanks, tokens = body ++ .semicolon :: blanks ∧ .semicolon ∉ body ∧
    ∀ t ∈ blanks, ∃ c, t = .other c ∧ isBlank c = true

namespace Dialect

variable {D : Dialect} {s s' s'' : State} {delim c : Char} {text text' value value' : List Char}
  {out out' : List Token}

theorem passes_single (hstep : D.step s c = (s', out)) : D.lexer.Passes s [c] s' out :=
  Transducer.Passes.single hstep

theorem readFrom_cons : D.lexer.readFrom s (c :: text) =
    (D.lexer.readFrom (D.step s c).1 text).map ((D.step s c).2 ++ ·) := rfl

theorem passes_cons (hstep : D.step s c = (s', out)) (h : D.lexer.Passes s' text s'' out') :
    D.lexer.Passes s (c :: text) s'' (out ++ out') :=
  Transducer.Passes.cons hstep h

/-! ## Phrases and clauses -/

variable (D) in
def Reads (text : List Char) (out : List Token) : Prop := D.lexer.Passes .plain text .plain out

variable (D) in
/-- The text does not begin with a quote. -/
def Apart (text : List Char) : Prop := ∀ c ∈ text.head?, D.isQuote c = false

variable (D) in
def ReadsApart (text : List Char) (out : List Token) : Prop :=
  ∀ rest, D.Apart rest →
    D.lexer.readFrom .plain (text ++ rest) = (D.lexer.readFrom .plain rest).map (out ++ ·)

theorem Apart.append (h : D.Apart text) (hne : text ≠ []) : D.Apart (text ++ text') := by
  cases text with
  | nil => exact absurd rfl hne
  | cons c text => exact h

theorem Reads.apart (h : D.Reads text out) : D.ReadsApart text out := fun rest _ => h rest

theorem Reads.nil : D.Reads [] [] := Transducer.Passes.nil

theorem Reads.append (h : D.Reads text out) (h' : D.Reads text' out') :
    D.Reads (text ++ text') (out ++ out') := Transducer.Passes.append h h'

theorem Reads.append_apart (h : D.Reads text out) (h' : D.ReadsApart text' out') :
    D.ReadsApart (text ++ text') (out ++ out') := by
  intro rest hrest
  rw [List.append_assoc, h, h' rest hrest, Transducer.map_append_append]

theorem ReadsApart.append_reads (h : D.ReadsApart text out) (h' : D.Reads text' out')
    (hne : text' ≠ []) (hapart : D.Apart text') : D.Reads (text ++ text') (out ++ out') := by
  intro rest
  rw [List.append_assoc, h _ (hapart.append hne), h', Transducer.map_append_append]

/-- A text that nothing follows. -/
theorem ReadsApart.read_eq (h : D.ReadsApart text out) : D.lexer.read text = some out := by
  have hall := h [] fun c hc => by cases hc
  rw [List.append_nil] at hall
  rw [Transducer.read]
  refine hall.trans ?_
  simp only [Transducer.readFrom, lexer, finish, Option.map_some, List.append_nil]

variable (D) in
/-- Outside quotes the character stands for itself. -/
def inert (c : Char) : Bool :=
  !D.isQuote c && c != ';' && !(D.dollars && c == '$') &&
    !(D.comments && (c == '#' || c == '-' || c == '/'))

theorem plainStep_inert (h : D.inert c = true) : D.plainStep c = (.plain, [.other c]) := by
  simp only [inert, Bool.and_eq_true, Bool.not_eq_true', bne_iff_ne, ne_eq, Bool.and_eq_false_iff,
    Bool.or_eq_false_iff] at h
  obtain ⟨⟨⟨hquote, hsemicolon⟩, hdollar⟩, hcomment⟩ := h
  rw [plainStep, hquote, if_neg (by simp), if_neg hsemicolon]
  rcases hdollar with h | h <;> rcases hcomment with h' | h' <;> simp [h, h']

theorem step_inert (h : D.inert c = true) : D.step .plain c = (.plain, [.other c]) :=
  plainStep_inert h

theorem Reads.inert (h : text.all D.inert = true) : D.Reads text (text.map .other) := by
  induction text with
  | nil => exact Reads.nil
  | cons c text ih =>
    rw [List.all_cons, Bool.and_eq_true] at h
    exact passes_cons (step_inert h.1) (ih h.2)

theorem Reads.semicolon (h : D.isQuote ';' = false) : D.Reads [';'] [.semicolon] := by
  refine passes_single ?_
  show D.plainStep ';' = _
  rw [plainStep, h]
  rfl

/-- A minus sign in front of what cannot make a comment of it. -/
theorem Reads.minus (h : text.all D.inert = true) (hne : text ≠ []) (hquote : D.isQuote '-' = false) :
    D.Reads ('-' :: text) (('-' :: text).map .other) := by
  by_cases hinert : D.inert '-' = true
  · exact Reads.inert (by rw [List.all_cons, hinert, h]; rfl)
  · obtain ⟨c, text, rfl⟩ := List.exists_cons_of_ne_nil hne
    rw [List.all_cons, Bool.and_eq_true] at h
    have hcomments : D.comments = true := by
      by_contra hno
      rw [Bool.not_eq_true] at hno
      refine hinert ?_
      simp [Dialect.inert, hquote, hno]
    have hdash : D.step .plain '-' = (.dash, []) := by
      simp [step, plainStep, hquote, hcomments]
    have hc : c ≠ '-' := fun heq => hinert (heq ▸ h.1)
    have hresume : D.step .dash c = (.plain, [.other '-', .other c]) := by
      rw [step, if_neg hc, resume, plainStep_inert h.1]
      rfl
    exact passes_cons hdash (passes_cons hresume (Reads.inert h.2))

/-! ## Quoted texts -/

variable (D) in
/-- Between quotes the text stands for `value`. -/
def Body (delim : Char) (text value : List Char) : Prop :=
  ∀ before, D.lexer.Passes (.quoted delim before) text (.quoted delim (before ++ value)) []

theorem Body.char (hquote : c ≠ delim) (hescape : D.escapeIn delim = none ∨ c ≠ '\\') :
    D.Body delim [c] [c] := by
  intro before
  refine passes_single ?_
  show D.quotedStep delim before c = _
  rw [quotedStep, if_neg hquote]
  rcases hescape with h | h <;> simp [h]

theorem Body.doubled : D.Body delim [delim, delim] [delim] := by
  intro before
  have hclose : D.step (.quoted delim before) delim = (.closed delim before, []) := if_pos rfl
  have hopen : D.step (.closed delim before) delim = (.quoted delim (before ++ [delim]), []) :=
    if_pos rfl
  exact passes_cons hclose (passes_single hopen)

theorem Body.escaped {f : Char → List Char} (hescape : D.escapeIn delim = some f)
    (hdelim : delim ≠ '\\') : D.Body delim ['\\', c] (f c) := by
  intro before
  have hback : D.step (.quoted delim before) '\\' = (.escaped delim before, []) := by
    show D.quotedStep delim before '\\' = _
    rw [quotedStep, if_neg hdelim.symm, hescape]
    rfl
  have hnext : D.step (.escaped delim before) c = (.quoted delim (before ++ f c), []) := by
    rw [step, hescape]
    rfl
  exact passes_cons hback (passes_single hnext)

/-- Characters that are written one by one are read one by one. -/
theorem Body.flatMap {encode : Char → List Char} {decode : Char → List Char}
    (h : ∀ c ∈ text, D.Body delim (encode c) (decode c)) :
    D.Body delim (text.flatMap encode) (text.flatMap decode) :=
  Transducer.Passes.flatMap h

theorem Body.verbatim (hquote : delim ∉ text) (hescape : D.escapeIn delim = none ∨ '\\' ∉ text) :
    D.Body delim text text := by
  have hall : D.Body delim (text.flatMap fun c => [c]) (text.flatMap fun c => [c]) :=
    Body.flatMap fun c hc => Body.char (fun heq => hquote (heq ▸ hc))
      (hescape.imp_right fun h heq => h (heq ▸ hc))
  rw [List.flatMap_singleton'] at hall
  exact hall

/-- The text between two quotes. -/
def enclose (delim : Char) (text : List Char) : List Char := delim :: (text ++ [delim])

theorem Body.readsApart (h : D.Body delim text value) (hquote : D.isQuote delim = true) :
    D.ReadsApart (enclose delim text) [D.token delim value] := by
  have hopen : D.step .plain delim = (.quoted delim [], []) := by
    show D.plainStep delim = _
    rw [plainStep, if_pos hquote]
  have hclose : D.step (.quoted delim value) delim = (.closed delim value, []) := if_pos rfl
  have hpasses : D.lexer.Passes .plain (enclose delim text) (.closed delim value) [] :=
    passes_cons hopen ((h []).append (passes_single hclose))
  intro rest hrest
  rw [hpasses rest, Transducer.map_nil_append]
  cases rest with
  | nil => rfl
  | cons c rest =>
    have hc : c ≠ delim := fun heq => by
      have hnot := hrest c rfl
      rw [heq, hquote] at hnot
      cases hnot
    have hstep : D.step (.closed delim value) c = D.resume [D.token delim value] c := if_neg hc
    rw [readFrom_cons, readFrom_cons, hstep, Transducer.map_append_append]
    rfl

/-! ## Dollar quotes -/

variable {name before : List Char}

/-- The closing tag ends nowhere in the text. -/
def Unclosed (name before text : List Char) : Prop :=
  ∀ part, part ≠ [] → part <+: text → ¬ dollarTag name <:+ before ++ part

theorem unclosed_nil : Unclosed name before [] := fun _ hne hpart =>
  absurd (List.prefix_nil.mp hpart) hne

theorem unclosed_cons : Unclosed name before (c :: text) ↔
    ¬ dollarTag name <:+ before ++ [c] ∧ Unclosed name (before ++ [c]) text := by
  constructor
  · intro h
    refine ⟨h [c] (List.cons_ne_nil _ _) ((List.prefix_append [c] text)), fun part _ hpart => ?_⟩
    rw [List.append_assoc]
    exact h (c :: part) (List.cons_ne_nil _ _) (List.cons_prefix_cons.mpr ⟨rfl, hpart⟩)
  · intro h part hne hpart
    obtain ⟨d, part, rfl⟩ := List.exists_cons_of_ne_nil hne
    have heq := List.cons_prefix_cons.mp hpart
    rw [heq.1]
    by_cases hnil : part = []
    · rw [hnil]
      exact h.1
    · have hnot := h.2 part hnil heq.2
      rw [List.append_assoc] at hnot
      exact hnot

theorem unclosed_iff : Unclosed name [] text ↔ ¬ dollarTag name <:+: text := by
  constructor
  · intro h hinfix
    obtain ⟨part, hsuffix, hpart⟩ := List.infix_iff_suffix_prefix.mp hinfix
    refine h part (fun hnil => ?_) hpart hsuffix
    subst hnil
    cases List.suffix_nil.mp hsuffix
  · intro h part _ hpart hsuffix
    exact h (List.infix_iff_suffix_prefix.mpr ⟨part, hsuffix, hpart⟩)

theorem passes_dollar (h : Unclosed name before text) :
    D.lexer.Passes (.dollar name before) text (.dollar name (before ++ text)) [] := by
  induction text generalizing before with
  | nil =>
    rw [List.append_nil]
    exact Transducer.Passes.nil
  | cons c text ih =>
    obtain ⟨hc, hrest⟩ := unclosed_cons.mp h
    have hstep : D.step (.dollar name before) c = (.dollar name (before ++ [c]), []) := by
      show dollarStep name before c = _
      rw [dollarStep, if_neg hc]
    have hpass := passes_cons hstep (ih hrest)
    rw [List.append_assoc] at hpass
    exact hpass

/-- The literal ends with the first closing tag. -/
theorem passes_dollar_close (h : Unclosed name [] text) (hclose : dollarTag name <:+ text ++ [c]) :
    D.lexer.Passes (.dollar name []) (text ++ [c]) .plain
      [.literal ((text ++ [c]).take ((text ++ [c]).length - (dollarTag name).length))] := by
  have hpass : D.lexer.Passes (.dollar name []) text (.dollar name text) [] := passes_dollar h
  refine hpass.append (passes_single ?_)
  show dollarStep name text c = _
  rw [dollarStep, if_pos hclose]

/-- The first character with which the closing tag has been read. -/
theorem exists_first_close (h : ¬ Unclosed name before text) :
    ∃ part c rest, text = part ++ c :: rest ∧ Unclosed name before part ∧
      dollarTag name <:+ before ++ (part ++ [c]) := by
  induction text generalizing before with
  | nil => exact absurd unclosed_nil h
  | cons c text ih =>
    by_cases hc : dollarTag name <:+ before ++ [c]
    · exact ⟨[], c, text, rfl, unclosed_nil, hc⟩
    · obtain ⟨part, c', rest, rfl, hunclosed, hclose⟩ := ih fun hall => h (unclosed_cons.mpr ⟨hc, hall⟩)
      refine ⟨c :: part, c', rest, rfl, unclosed_cons.mpr ⟨hc, hunclosed⟩, ?_⟩
      rw [List.append_assoc] at hclose
      exact hclose

/-! ## Counting statements -/

variable {s t sep : String} {m n : Nat} {parts : List String}

variable (D) in
/-- A phrase in which `n` statements end. -/
def Phrase (n : Nat) (s : String) : Prop :=
  ∃ out, statementCount out = n ∧ D.Reads s.toList out

variable (D) in
/-- A clause in which `n` statements end. -/
def Clause (n : Nat) (s : String) : Prop :=
  ∃ out, statementCount out = n ∧ D.ReadsApart s.toList out

theorem statementCount_append : statementCount (out ++ out') = statementCount out + statementCount out' :=
  List.count_append

theorem statementCount_others : statementCount (text.map .other) = 0 :=
  List.count_eq_zero_of_not_mem fun h => by
    obtain ⟨_, _, hc⟩ := List.mem_map.mp h
    cases hc

theorem Phrase.clause (h : D.Phrase n s) : D.Clause n s := by
  obtain ⟨out, hcount, hreads⟩ := h
  exact ⟨out, hcount, hreads.apart⟩

theorem Phrase.append (h : D.Phrase m s) (h' : D.Phrase n t) : D.Phrase (m + n) (s ++ t) := by
  obtain ⟨out, hcount, hreads⟩ := h
  obtain ⟨out', hcount', hreads'⟩ := h'
  refine ⟨out ++ out', ?_, ?_⟩
  · rw [statementCount_append, hcount, hcount']
  · rw [String.toList_append]
    exact hreads.append hreads'

theorem Phrase.append_clause (h : D.Phrase m s) (h' : D.Clause n t) : D.Clause (m + n) (s ++ t) := by
  obtain ⟨out, hcount, hreads⟩ := h
  obtain ⟨out', hcount', hreads'⟩ := h'
  refine ⟨out ++ out', ?_, ?_⟩
  · rw [statementCount_append, hcount, hcount']
  · rw [String.toList_append]
    exact hreads.append_apart hreads'

theorem Clause.append_phrase (h : D.Clause m s) (h' : D.Phrase n t) (hne : t.toList ≠ [])
    (hapart : D.Apart t.toList) : D.Phrase (m + n) (s ++ t) := by
  obtain ⟨out, hcount, hreads⟩ := h
  obtain ⟨out', hcount', hreads'⟩ := h'
  refine ⟨out ++ out', ?_, ?_⟩
  · rw [statementCount_append, hcount, hcount']
  · rw [String.toList_append]
    exact hreads.append_reads hreads' hne hapart

theorem Phrase.empty : D.Phrase 0 "" := ⟨[], rfl, Reads.nil⟩

theorem Phrase.inert (h : s.toList.all D.inert = true) : D.Phrase 0 s :=
  ⟨_, statementCount_others, Reads.inert h⟩

theorem Clause.append_inert (h : D.Clause n s) (hinert : t.toList.all D.inert = true)
    (hne : t.toList ≠ []) : D.Phrase n (s ++ t) := by
  refine h.append_phrase (Phrase.inert hinert) hne fun c hc => ?_
  have hmem : c ∈ t.toList := List.mem_of_mem_head? hc
  have hc' := List.all_eq_true.mp hinert c hmem
  simp only [inert, Bool.and_eq_true, Bool.not_eq_true'] at hc'
  exact hc'.1.1.1

theorem Clause.quoted {q : String} (h : D.Body delim s.toList value) (hquote : D.isQuote delim = true)
    (hq : q.toList = [delim]) : D.Clause 0 (q ++ s ++ q) := by
  refine ⟨[D.token delim value], ?_, ?_⟩
  · refine List.count_eq_zero_of_not_mem fun hmem => ?_
    rw [List.mem_singleton, token] at hmem
    split at hmem <;> cases hmem
  · rw [String.toList_append, String.toList_append, hq, List.append_assoc]
    exact h.readsApart hquote

/-- Clauses with something between them. -/
theorem Clause.intercalate (hsep : sep.toList.all D.inert = true) (hne : sep.toList ≠ [])
    (hparts : ∀ p ∈ parts, D.Clause 0 p) : D.Clause 0 (String.intercalate sep parts) := by
  refine intercalate_induction Phrase.empty.clause (fun p rest hp hrest => ?_) hparts
  exact (hp.append_inert hsep hne).append_clause hrest

theorem Phrase.join (hparts : ∀ p ∈ parts, D.Phrase 1 p) : D.Phrase parts.length (String.join parts) := by
  induction parts with
  | nil => exact Phrase.empty
  | cons p rest ih =>
    rw [String.join_cons, List.length_cons, Nat.add_comm]
    exact (hparts p List.mem_cons_self).append
      (ih fun p' hp' => hparts p' (List.mem_cons_of_mem p hp'))

theorem Phrase.counted (h : D.Phrase n s) :
    ∃ tokens, D.read s = some tokens ∧ statementCount tokens = n := by
  obtain ⟨tokens, hcount, hreads⟩ := h
  exact ⟨tokens, hreads.apart.read_eq, hcount⟩

/-! ### A clause and its end -/

theorem reads_terminator (hsemicolon : D.isQuote ';' = false) (hnewline : D.inert '\n' = true) :
    D.Reads ";\n".toList [.semicolon, .other '\n'] := by
  have hline : ['\n'].all D.inert = true := by
    rw [List.all_cons, hnewline]
    rfl
  exact (Reads.semicolon hsemicolon).append (Reads.inert hline)

theorem apart_terminator (hsemicolon : D.isQuote ';' = false) : D.Apart ";\n".toList := by
  intro c hc
  cases hc
  exact hsemicolon

theorem Clause.terminated (h : D.Clause 0 s) (hsemicolon : D.isQuote ';' = false)
    (hnewline : D.inert '\n' = true) : D.Phrase 1 (s ++ ";\n") :=
  h.append_phrase ⟨_, rfl, reads_terminator hsemicolon hnewline⟩ (List.cons_ne_nil _ _)
    (apart_terminator hsemicolon)

theorem Clause.oneStatement (h : D.Clause 0 s) (hsemicolon : D.isQuote ';' = false)
    (hnewline : D.inert '\n' = true) :
    ∃ tokens, D.read (s ++ ";\n") = some tokens ∧ OneStatement tokens := by
  obtain ⟨out, hcount, hreads⟩ := h
  have hall := hreads.append_reads (reads_terminator hsemicolon hnewline) (List.cons_ne_nil _ _)
    (apart_terminator hsemicolon)
  refine ⟨out ++ [.semicolon, .other '\n'], ?_, out, [.other '\n'], rfl, ?_, ?_⟩
  · rw [Dialect.read, String.toList_append]
    exact hall.apart.read_eq
  · exact List.count_eq_zero.mp hcount
  · intro t ht
    exact ⟨'\n', List.mem_singleton.mp ht, rfl⟩

end Dialect
end Lexing
end Eds
