import Eds.Drivers.Appended
import Eds.Lexing.Cut
import Eds.Drivers.Postgresql.Lexing
import Eds.Drivers.Mysql.Lexing
import Eds.Drivers.Snowflake.Lexing
import Eds.Drivers.Sqlserver.Lexing

/-!
# The timestamp in an append

The timestamp of an event is put into the statement as it is.  It is one value there if it is a
number, or a null, and the text is one statement then; what else the message has in that field
is read as SQL.
-/

namespace Eds
namespace Drivers

open Util Lexing Collections

/-! ## Numeric literals -/

theorem forall_isSpace {P : Char → Prop} (hblank : P ' ') (htab : P '\t') (hline : P '\n')
    (hreturn : P '\r') : ∀ c, isSpace c = true → P c := by
  intro c hc
  simp only [isSpace, Bool.or_eq_true, beq_iff_eq] at hc
  rcases hc with ((rfl | rfl) | rfl) | rfl <;> assumption

/-- Without the blanks around it. -/
def trimmed (cs : List Char) : List Char :=
  ((cs.dropWhile isSpace).reverse.dropWhile isSpace).reverse

def unsigned : List Char → List Char
  | '+' :: rest => rest
  | '-' :: rest => rest
  | rest => rest

def isExponent : List Char → Bool
  | [] => true
  | c :: rest => (c == 'e' || c == 'E') && !(unsigned rest).isEmpty && isDigits (unsigned rest)

/-- Digits with a point somewhere, and what is left. -/
def mantissa (cs : List Char) : List Char × List Char :=
  match cs.dropWhile isAsciiDigit with
  | '.' :: rest =>
    (cs.takeWhile isAsciiDigit ++ '.' :: rest.takeWhile isAsciiDigit, rest.dropWhile isAsciiDigit)
  | rest => (cs.takeWhile isAsciiDigit, rest)

/-- A decimal number, perhaps with a sign and an exponent. -/
def isNumeric (cs : List Char) : Bool :=
  (mantissa (unsigned cs)).1.any isAsciiDigit && isExponent (mantissa (unsigned cs)).2

/-- One number or one null, with nothing but blanks around it. -/
def IsClock (text : String) : Prop :=
  (trimmed text.toList).map Char.toLower = "null".toList ∨ isNumeric (trimmed text.toList) = true

instance (text : String) : Decidable (IsClock text) := inferInstanceAs (Decidable (_ ∨ _))

theorem isWordChar_of_digit {c : Char} (h : isAsciiDigit c = true) : isWordChar c = true := by
  have hdigit : c.isDigit = true := by
    rw [isAsciiDigit, Bool.and_eq_true] at h
    exact Bool.and_eq_true_iff.mpr ⟨decide_eq_true (of_decide_eq_true h.1),
      decide_eq_true (of_decide_eq_true h.2)⟩
  simp only [isWordChar, Char.isAlphanum, hdigit, Bool.or_true, Bool.true_or]

theorem isWord_ofList {cs : List Char} (h : ∀ c ∈ cs, isWordChar c = true) : IsWord (String.ofList cs) := by
  rw [IsWord, String.toList_ofList]
  exact List.all_eq_true.mpr h

/-- The sign goes with what is behind it. -/
theorem numeral_signed {cs front back : List Char} (h : unsigned cs = front ++ back)
    (hfront : ∀ c ∈ front, isWordChar c = true) (hne : front ≠ [])
    (hback : Numeral (String.ofList back)) : Numeral (String.ofList cs) := by
  have hword := isWord_ofList hfront
  have hjoin : Numeral (String.ofList front ++ String.ofList back) := .append (.word hword) hback
  unfold unsigned at h
  split at h
  · rw [h, show '+' :: (front ++ back) = ['+'] ++ (front ++ back) from rfl, String.ofList_append,
      String.ofList_append]
    exact .append (.word rfl) hjoin
  · rw [h, show '-' :: (front ++ back) = ['-'] ++ (front ++ back) from rfl, String.ofList_append,
      String.ofList_append, ← String.append_assoc]
    refine .append (.minus hword ?_) hback
    rw [String.toList_ofList]
    exact hne
  · rw [h, String.ofList_append]
    exact hjoin

theorem numeral_exponent {cs : List Char} (h : isExponent cs = true) : Numeral (String.ofList cs) := by
  cases cs with
  | nil => exact .word rfl
  | cons c rest =>
    rw [isExponent, Bool.and_eq_true, Bool.and_eq_true, Bool.not_eq_true', List.isEmpty_eq_false_iff] at h
    obtain ⟨⟨hc, hne⟩, hdigits⟩ := h
    have hword : isWordChar c = true := by
      rcases Bool.or_eq_true_iff.mp hc with hc | hc
      · rw [beq_iff_eq.mp hc]
        rfl
      · rw [beq_iff_eq.mp hc]
        rfl
    rw [show c :: rest = [c] ++ rest from rfl, String.ofList_append]
    refine .append (.word (isWord_ofList fun d hd => List.mem_singleton.mp hd ▸ hword)) ?_
    refine numeral_signed (List.append_nil _).symm ?_ hne (.word rfl)
    exact fun d hd => isWordChar_of_digit (List.all_eq_true.mp hdigits d hd)

theorem mantissa_append (cs : List Char) : (mantissa cs).1 ++ (mantissa cs).2 = cs := by
  have hsplit := List.takeWhile_append_dropWhile (p := isAsciiDigit) (l := cs)
  unfold mantissa
  split
  next rest hrest =>
    rw [hrest] at hsplit
    rw [List.append_assoc, List.cons_append, List.takeWhile_append_dropWhile]
    exact hsplit
  next rest _ => exact hsplit

theorem isWordChar_mantissa (cs : List Char) : ∀ c ∈ (mantissa cs).1, isWordChar c = true := by
  have hdigits : ∀ ds : List Char, ∀ c ∈ ds.takeWhile isAsciiDigit, isWordChar c = true :=
    fun ds c hc => isWordChar_of_digit (List.mem_takeWhile_imp hc)
  unfold mantissa
  split
  next rest _ =>
    intro c hc
    rcases List.mem_append.mp hc with hc | hc
    · exact hdigits cs c hc
    rcases List.mem_cons.mp hc with rfl | hc
    · rfl
    · exact hdigits rest c hc
  next rest _ => exact hdigits cs

theorem isNumeric_numeral {cs : List Char} (h : isNumeric cs = true) : Numeral (String.ofList cs) := by
  rw [isNumeric, Bool.and_eq_true] at h
  refine numeral_signed (mantissa_append _).symm (isWordChar_mantissa _) ?_ (numeral_exponent h.2)
  intro hnil
  rw [hnil] at h
  cases h.1

theorem null_numeral {cs : List Char} (h : cs.map Char.toLower = "null".toList) :
    Numeral (String.ofList cs) := by
  refine .word (isWord_ofList fun c hc => ?_)
  have hlower : c.toLower ∈ "null".toList := h ▸ List.mem_map_of_mem hc
  by_cases hupper : c.isUpper = true
  · have halpha : c.isAlpha = true := Bool.or_eq_true_iff.mpr (.inl hupper)
    simp only [isWordChar, Char.isAlphanum, halpha, Bool.true_or]
  · have hsame : c.toLower = c := dif_neg fun h' => hupper (decide_eq_true h')
    rw [hsame] at hlower
    have hall : "null".toList.all isWordChar = true := rfl
    exact List.all_eq_true.mp hall c hlower

/-- Blanks, a numeral, and blanks. -/
theorem trimmed_append (cs : List Char) : ∃ before after, cs = before ++ trimmed cs ++ after ∧
    before.all isSpace = true ∧ after.all isSpace = true := by
  refine ⟨cs.takeWhile isSpace, ((cs.dropWhile isSpace).reverse.takeWhile isSpace).reverse, ?_, ?_, ?_⟩
  · rw [List.append_assoc, trimmed, ← List.reverse_append, List.takeWhile_append_dropWhile,
      List.reverse_reverse, List.takeWhile_append_dropWhile]
  · exact List.all_eq_true.mpr fun c hc => List.mem_takeWhile_imp hc
  · exact List.all_eq_true.mpr fun c hc => List.mem_takeWhile_imp (List.mem_reverse.mp hc)

theorem IsClock.numeral {text : String} (h : IsClock text) :
    Numeral (String.ofList (trimmed text.toList)) := by
  rcases h with hnull | hnumeric
  · exact null_numeral hnull
  · exact isNumeric_numeral hnumeric

/-! ## The values of an append -/

/-- The texts between the parentheses. -/
def Append.valueTexts (a : Append) : List String :=
  a.values.map Prod.snd ++ [a.operationText, a.mvcc, toString a.timestamp]

theorem Append.valuesText_eq (a : Append) : a.valuesText = commas a.valueTexts := rfl

/-- The position of the timestamp, behind the columns and the operation, holds one value. -/
def HoldsClock (model : Schema) (a : Append) : Prop :=
  ∃ text, a.valueTexts[model.columns.length + 1]? = some text ∧ IsClock text

/-- Nothing, or a text that is one value. -/
def ClockField (mvcc : Json) : Prop := isFalsy mvcc = true ∨ ∃ s, mvcc = .str s ∧ IsClock s

/-- What all builders do with the field. -/
structure Append.Carries (model : Schema) (mvcc : Json) (a : Append) : Prop where
  values : a.values.length = model.columns.length
  mvcc : mvccText mvcc = .ok a.mvcc

theorem Appends.carries {quote : Json → Except Exn String} {columnText : String → Except Exn String}
    {c : DBChangeEvent} {model : Schema} {a : Append} (h : Appends quote columnText c model a) :
    a.Carries model c.mvccTimestamp := ⟨h.length_values, h.event.mvcc⟩

section Carried

variable {model : Schema} {mvcc : Json} {a : Append}

theorem isClock_mvccText {text : String} (h : mvccText mvcc = .ok text) :
    IsClock text ↔ ClockField mvcc := by
  unfold mvccText at h
  split at h
  next hfalsy =>
    cases h
    exact iff_of_true (by decide) (.inl hfalsy)
  next hfalsy =>
    split at h
    next s =>
      cases h
      constructor
      · exact fun hclock => .inr ⟨text, rfl, hclock⟩
      · intro hgiven
        rcases hgiven with hgiven | ⟨s, hs, hclock⟩
        · exact absurd hgiven hfalsy
        · cases hs
          exact hclock
    · cases h

theorem Append.Carries.holdsClock_iff (h : a.Carries model mvcc) :
    HoldsClock model a ↔ ClockField mvcc := by
  have hat : a.valueTexts[model.columns.length + 1]? = some a.mvcc := by
    rw [Append.valueTexts, List.getElem?_append_right (by rw [List.length_map, h.values]; omega),
      List.length_map, h.values, Nat.add_sub_cancel_left]
    rfl
  rw [← isClock_mvccText h.mvcc, HoldsClock, hat]
  constructor
  · intro hgiven
    obtain ⟨text, htext, hclock⟩ := hgiven
    cases htext
    exact hclock
  · exact fun hclock => ⟨_, rfl, hclock⟩

end Carried

/-! ## An append as a statement -/

/-- What holds of numerals and of blanks, and is kept when texts are put together, holds of a value
for the timestamp. -/
theorem IsClock.pieces {P : String → Prop} {text : String} (h : IsClock text)
    (happend : ∀ a b, P a → P b → P (a ++ b))
    (hblank : ∀ cs : List Char, cs.all isSpace = true → P (String.ofList cs))
    (hnumeral : ∀ s, Numeral s → P s) : P text := by
  obtain ⟨before, after, hsplit, hbefore, hafter⟩ := trimmed_append text.toList
  have htext : text = String.ofList before ++ String.ofList (trimmed text.toList) ++
      String.ofList after := by
    rw [← String.ofList_append, ← String.ofList_append, ← hsplit, String.ofList_toList]
  rw [htext]
  exact happend _ _ (happend _ _ (hblank _ hbefore) (hnumeral _ h.numeral)) (hblank _ hafter)

section Phrases

variable {D : Dialect} {a : Append} {text : String}

open Dialect

theorem IsClock.clause (hD : ReadsBare D) (hspace : ∀ c, isSpace c = true → D.inert c = true)
    (h : IsClock text) : D.Clause 0 text := by
  have hphrase : D.Phrase 0 text := by
    refine h.pieces (fun _ _ ha hb => ha.append hb) (fun cs hcs => Phrase.inert ?_)
      fun s hs => (hs.bare hD).1
    rw [String.toList_ofList]
    exact List.all_eq_true.mpr fun c hc => hspace c (List.all_eq_true.mp hcs c hc)
  exact hphrase.clause

/-- The words of an insert. -/
def insertWords : List String := ["INSERT INTO ", " (", ") VALUES (", ")", ","]

/-- A list of names and a list of values. -/
theorem clause_insert (quoteIdentifier : String → String)
    (hwords : ∀ word ∈ insertWords, word.toList.all D.inert = true)
    (hnames : ∀ name ∈ a.table :: (a.values.map Prod.fst ++ auditColumns), D.Clause 0 (quoteIdentifier name))
    (hvalues : ∀ text ∈ a.valueTexts, D.Clause 0 text) :
    D.Clause 0 ("INSERT INTO " ++ quoteIdentifier a.table ++ " (" ++ a.columnsText quoteIdentifier ++
      ") VALUES (" ++ a.valuesText ++ ")") := by
  have hcommas : ∀ parts : List String, (∀ p ∈ parts, D.Clause 0 p) → D.Clause 0 (commas parts) :=
    fun parts => Clause.intercalate (hwords "," (by decide)) (List.cons_ne_nil _ _)
  have hcolumns : D.Clause 0 (a.columnsText quoteIdentifier) :=
    hcommas _ (List.forall_mem_map.mpr fun name hname => hnames name (List.mem_cons_of_mem _ hname))
  have hinto : D.Phrase 0 "INSERT INTO " := Phrase.inert (hwords _ (by decide))
  have hopen := (hinto.append_clause (hnames a.table List.mem_cons_self)).append_inert (t := " (")
    (hwords _ (by decide)) (List.cons_ne_nil _ _)
  have hbetween := (hopen.append_clause hcolumns).append_inert (t := ") VALUES (")
    (hwords _ (by decide)) (List.cons_ne_nil _ _)
  rw [Append.valuesText_eq]
  exact ((hbetween.append_clause (hcommas _ hvalues)).append_inert (t := ")") (hwords _ (by decide))
    (List.cons_ne_nil _ _)).clause

end Phrases

/-- As `clause_insert`, for the lexer of SQL Server. -/
theorem Sqlserver.clause_insert {a : Append}
    (hnames : ∀ name ∈ a.table :: (a.values.map Prod.fst ++ auditColumns), Sqlserver.Named name)
    (hvalues : ∀ text ∈ a.valueTexts, Tsql.Clause 0 text) :
    Tsql.Clause 0 ("INSERT INTO " ++ Sqlserver.quoteIdentifier a.table ++ " (" ++
      a.columnsText Sqlserver.quoteIdentifier ++ ") VALUES (" ++ a.valuesText ++ ")") := by
  have hcolumns : Tsql.Clause 0 (a.columnsText Sqlserver.quoteIdentifier) :=
    Sqlserver.clause_commas (List.forall_mem_map.mpr fun name hname =>
      Sqlserver.clause_quoteIdentifier (hnames name (List.mem_cons_of_mem _ hname)))
  have hinto : Tsql.Phrase 0 "INSERT INTO " := Tsql.Phrase.inert rfl
  have hopen := (hinto.append_clause
    (Sqlserver.clause_quoteIdentifier (hnames a.table List.mem_cons_self))).append_inert
      (b := " (") rfl (List.cons_ne_nil _ _)
  have hbetween := (hopen.append_clause hcolumns).append_inert (b := ") VALUES (") rfl
    (List.cons_ne_nil _ _)
  rw [Append.valuesText_eq]
  exact ((hbetween.append_clause (Sqlserver.clause_commas hvalues)).append_inert (b := ")") rfl
    (List.cons_ne_nil _ _)).clause

theorem Sqlserver.clause_clock {text : String} (h : IsClock text) : Tsql.Clause 0 text := by
  have hspace : ∀ c, isSpace c = true → Tsql.inert c = true := forall_isSpace rfl rfl rfl rfl
  have hphrase : Tsql.Phrase 0 text := by
    refine h.pieces (fun _ _ ha hb => ha.append hb) (fun cs hcs => Tsql.Phrase.inert ?_)
      fun s hs => Sqlserver.phrase_numeral hs
    rw [String.toList_ofList]
    exact List.all_eq_true.mpr fun c hc => hspace c (List.all_eq_true.mp hcs c hc)
  exact hphrase.clause

/-- The texts of an append are those of its columns, the operation, and two numbers. -/
theorem forall_valueTexts {P : String → Prop} {a : Append} (hvalues : ∀ v ∈ a.values, P v.2)
    (hoperation : P a.operationText) (hmvcc : P a.mvcc) (htimestamp : P (toString a.timestamp)) :
    ∀ text ∈ a.valueTexts, P text := by
  intro text htext
  rcases List.mem_append.mp htext with htext | htext
  · obtain ⟨v, hv, rfl⟩ := List.mem_map.mp htext
    exact hvalues v hv
  rcases List.mem_cons.mp htext with rfl | htext
  · exact hoperation
  rcases List.mem_cons.mp htext with rfl | htext
  · exact hmvcc
  · rw [List.mem_singleton.mp htext]
    exact htimestamp

theorem forall_columnNames {P : String → Prop} {a : Append} (htable : P a.table)
    (hvalues : ∀ v ∈ a.values, P v.1) (haudit : ∀ name ∈ auditColumns, P name) :
    ∀ name ∈ a.table :: (a.values.map Prod.fst ++ auditColumns), P name := by
  intro name hname
  rcases List.mem_cons.mp hname with rfl | hname
  · exact htable
  rcases List.mem_append.mp hname with hname | hname
  · obtain ⟨v, hv, rfl⟩ := List.mem_map.mp hname
    exact hvalues v hv
  · exact haudit name hname

variable {model : Schema} {c : DBChangeEvent} {a : Append}

/-! ## PostgreSQL -/

namespace Postgresql

open Dialect

theorem readsBare : ReadsBare dialect where
  word c hc := by
    have hspecial : c ≠ '\'' ∧ c ≠ '"' ∧ c ≠ ';' ∧ c ≠ '$' := by
      refine ⟨?_, ?_, ?_, ?_⟩ <;> intro hgiven <;> subst hgiven <;> cases hc
    simp [Dialect.inert, isQuote, dialect, hspecial]
  minus := rfl

theorem clause_quoteIdentifier (name : String) : dialect.Clause 0 (quoteIdentifier name) := by
  have hchar : ∀ c : Char, dialect.Body '"' (if c = '"' then ['"', '"'] else [c]) [c] := by
    intro c
    split
    next hc =>
      rw [hc]
      exact Body.doubled
    next hc => exact Body.char hc (.inl rfl)
  generalize hnamed : name.toList.takeWhile (· ≠ '\x00') = named
  have hbody : dialect.Body '"' (named.flatMap fun c => if c = '"' then ['"', '"'] else [c])
      (named.flatMap fun c => [c]) := Body.flatMap fun c _ => hchar c
  rw [← String.toList_ofList (l := named.flatMap fun c => if c = '"' then ['"', '"'] else [c])] at hbody
  rw [quoteIdentifier, hnamed]
  exact Clause.quoted hbody rfl rfl

/-- The texts of the columns and of the operation, where the strings are read as strings. -/
def ReadableValues (a : Append) : Prop :=
  (∀ v ∈ a.values, dialect.Clause 0 v.2) ∧ dialect.Clause 0 a.operationText

theorem renderAppend_oneStatement (hvalues : ReadableValues a) (hclock : IsClock a.mvcc) :
    ∃ tokens, dialect.read (renderAppend a) = some tokens ∧ OneStatement tokens := by
  have hspace : ∀ c, isSpace c = true → dialect.inert c = true := forall_isSpace rfl rfl rfl rfl
  have hinsert := clause_insert (D := dialect) quoteIdentifier (a := a) (by decide)
    (fun name _ => clause_quoteIdentifier name)
    (forall_valueTexts hvalues.1 hvalues.2 (hclock.clause readsBare hspace)
      (bare_int readsBare _).1.clause)
  have hone := hinsert.oneStatement rfl rfl
  rw [String.append_assoc] at hone
  exact hone

end Postgresql

/-! ## MySQL -/

namespace Mysql

theorem appendText_reads {o : List (String × Json)} {name text : String}
    (h : appendText model o name = .ok text) : ReadsValue dialect text := by
  unfold appendText at h
  split at h
  · obtain ⟨value, hvalue, h⟩ := bind_eq_ok.mp h
    cases h
    exact (quoteValue_reads hvalue).toJsonStringVal _ _
  · cases h
    exact .bare (IsWord.bare readsBare (s := "NULL") rfl)

/-- What is known of an append of MySQL. -/
structure Written (model : Schema) (c : DBChangeEvent) (a : Append) : Prop where
  carries : a.Carries model c.mvccTimestamp
  values : ∀ v ∈ a.values, v.1 ∈ model.columns ∧ ReadsValue dialect v.2
  operation : ReadsValue dialect a.operationText

theorem toAppendSql_written (h : toAppendSql c model = .ok a) : Written model c a where
  carries := (appends h).carries
  values := (appends h).forall_values (fun _ _ => quoteValue_reads) (fun _ _ => appendText_reads)
    (.bare (IsWord.bare readsBare (s := "NULL") rfl))
  operation := quoteValue_reads (appends h).event.operationText

theorem renderAppend_oneStatement (h : Written model c a) (htable : Named a.table)
    (hnames : ∀ name ∈ model.columns, Named name) (hclock : IsClock a.mvcc) :
    ∃ tokens, dialect.read (renderAppend a) = some tokens ∧ OneStatement tokens := by
  have hspace : ∀ c, isSpace c = true → dialect.inert c = true := forall_isSpace rfl rfl rfl rfl
  have haudit : ∀ name ∈ auditColumns, Named name := by decide
  have hinsert := clause_insert (D := dialect) quoteIdentifier (a := a) (by decide)
    (fun name hname => clause_quoteIdentifier
      (forall_columnNames htable (fun v hv => hnames _ (h.values v hv).1) haudit name hname))
    (forall_valueTexts (fun v hv => clause_value (h.values v hv).2) (clause_value h.operation)
      (hclock.clause readsBare hspace) (bare_int readsBare _).1.clause)
  have hone := hinsert.oneStatement rfl rfl
  rw [String.append_assoc] at hone
  exact hone

end Mysql

/-! ## SQL Server -/

namespace Sqlserver

structure Written (model : Schema) (c : DBChangeEvent) (a : Append) : Prop where
  carries : a.Carries model c.mvccTimestamp
  values : ∀ v ∈ a.values, v.1 ∈ model.columns ∧ ReadsValue v.2
  operation : ReadsValue a.operationText

theorem toAppendSql_written (h : toAppendSql c model = .ok a) : Written model c a where
  carries := (appends h).carries
  values := (appends h).forall_values (fun _ _ => quoteValue_reads) (fun _ _ => updateText_reads)
    (.numeral (.word (s := "NULL") rfl))
  operation := quoteValue_reads (appends h).event.operationText

theorem renderAppend_oneStatement (h : Written model c a) (htable : Named a.table)
    (hnames : ∀ name ∈ model.columns, Named name) (hclock : IsClock a.mvcc) :
    ∃ tokens, Tsql.read (renderAppend a) = some tokens ∧ OneStatement tokens := by
  have haudit : ∀ name ∈ auditColumns, Named name := by
    have hall : ∀ name ∈ auditColumns, ']' ∉ name.toList := by decide
    exact fun name hname => named_of_not_mem (hall name hname)
  have hinsert := clause_insert
    (forall_columnNames htable (fun v hv => hnames _ (h.values v hv).1) haudit)
    (forall_valueTexts (fun v hv => (h.values v hv).2.clause) h.operation.clause
      (clause_clock hclock) (phrase_numeral (numeral_int _)).clause)
  have hone := hinsert.oneStatement ['\n'] (b := ";\n") rfl rfl rfl
  rw [String.append_assoc] at hone
  exact hone

end Sqlserver

/-! ## Snowflake -/

namespace Snowflake

open Dialect

theorem toAppendSql_carries {record : Record} (hevent : record.event = some c)
    (h : toAppendSql record model = .ok a) : a.Carries model c.mvccTimestamp := by
  rw [toAppendSql_eq] at h
  obtain ⟨values, hvalues, h⟩ := bind_eq_ok.mp h
  obtain ⟨mvcc, hmvcc, h⟩ := bind_eq_ok.mp h
  cases h
  rw [appendMvcc, hevent] at hmvcc
  refine ⟨?_, hmvcc⟩
  unfold appendValues at hvalues
  split at hvalues
  · exact (mapM_eq_ok.mp hvalues).length_eq.symm
  · cases hvalues
    exact List.length_map _

theorem renderAppend_oneStatement {record : Record} (h : toAppendSql record model = .ok a)
    (htable : Named a.table) (hnames : ∀ name ∈ model.columns, Named name) (hclock : IsClock a.mvcc) :
    ∃ tokens, dialect.read (renderAppend a) = some tokens ∧ OneStatement tokens := by
  have hspace : ∀ c, isSpace c = true → dialect.inert c = true := forall_isSpace rfl rfl rfl rfl
  rw [toAppendSql_eq] at h
  obtain ⟨values, hvalues, h⟩ := bind_eq_ok.mp h
  obtain ⟨mvcc, _, h⟩ := bind_eq_ok.mp h
  cases h
  exact (clause_append ⟨htable, appendValues_readable hnames hvalues,
    clause_quoteValue callable_none _, hclock.clause readsBare hspace⟩).oneStatement rfl rfl

end Snowflake

/-! ## All builders -/

/-- In each dialect the position of the timestamp holds one value if the field is empty or is one
number, and then the append is one statement, if the names and the other values are read as such. -/
theorem append_clock_iff (model : Schema) (c : DBChangeEvent) :
    (∀ a, Postgresql.toAppendSql c model = .ok a →
      (HoldsClock model a ↔ ClockField c.mvccTimestamp) ∧
      (ClockField c.mvccTimestamp → Postgresql.ReadableValues a →
        ∃ tokens, Postgresql.dialect.read (Postgresql.renderAppend a) = some tokens ∧
          OneStatement tokens)) ∧
    (∀ a, Mysql.toAppendSql c model = .ok a →
      (HoldsClock model a ↔ ClockField c.mvccTimestamp) ∧
      (ClockField c.mvccTimestamp → Mysql.Named a.table → (∀ name ∈ model.columns, Mysql.Named name) →
        ∃ tokens, Mysql.dialect.read (Mysql.renderAppend a) = some tokens ∧ OneStatement tokens)) ∧
    (∀ a, Sqlserver.toAppendSql c model = .ok a →
      (HoldsClock model a ↔ ClockField c.mvccTimestamp) ∧
      (ClockField c.mvccTimestamp → Sqlserver.Named a.table →
        (∀ name ∈ model.columns, Sqlserver.Named name) →
        ∃ tokens, Tsql.read (Sqlserver.renderAppend a) = some tokens ∧ OneStatement tokens)) ∧
    ∀ record a, record.event = some c → Snowflake.toAppendSql record model = .ok a →
      (HoldsClock model a ↔ ClockField c.mvccTimestamp) ∧
      (ClockField c.mvccTimestamp → Snowflake.Named a.table →
        (∀ name ∈ model.columns, Snowflake.Named name) →
        ∃ tokens, Snowflake.dialect.read (Snowflake.renderAppend a) = some tokens ∧
          OneStatement tokens) := by
  refine ⟨fun a h => ?_, fun a h => ?_, fun a h => ?_, fun record a hevent h => ?_⟩
  · have hcarries := (Postgresql.appends h).carries
    refine ⟨hcarries.holdsClock_iff, fun hfield hvalues => ?_⟩
    exact Postgresql.renderAppend_oneStatement hvalues ((isClock_mvccText hcarries.mvcc).mpr hfield)
  · have hwritten := Mysql.toAppendSql_written h
    refine ⟨hwritten.carries.holdsClock_iff, fun hfield htable hnames => ?_⟩
    exact Mysql.renderAppend_oneStatement hwritten htable hnames
      ((isClock_mvccText hwritten.carries.mvcc).mpr hfield)
  · have hwritten := Sqlserver.toAppendSql_written h
    refine ⟨hwritten.carries.holdsClock_iff, fun hfield htable hnames => ?_⟩
    exact Sqlserver.renderAppend_oneStatement hwritten htable hnames
      ((isClock_mvccText hwritten.carries.mvcc).mpr hfield)
  · have hcarries := Snowflake.toAppendSql_carries hevent h
    refine ⟨hcarries.holdsClock_iff, fun hfield htable hnames => ?_⟩
    exact Snowflake.renderAppend_oneStatement h htable hnames
      ((isClock_mvccText hcarries.mvcc).mpr hfield)

/-- A deletion with that timestamp. -/
def clockedDelete (mvcc : String) : DBChangeEvent where
  operation := .str "DELETE"
  table := .str "user"
  modelVersion := .str "1"
  object := none
  diff := .null
  timestamp := 0
  schemaValidatedPath := none
  key := .arr [.str "u1"]
  mvccTimestamp := .str mvcc

def clockedAppend (mvcc : String) : Append :=
  ⟨"user", [("id", "'u1'")], .str "DELETE", "'DELETE'", mvcc, 0⟩

theorem keyedSchema_columns : Mysql.keyedSchema.columns = ["id"] := by
  simp [Schema.columns, Mysql.keyedSchema, Dict.empty, Dict.keys]

theorem clockedDelete_append {mvcc : String} (h : (mvcc == "") = false) :
    Mysql.toAppendSql (clockedDelete mvcc) Mysql.keyedSchema = .ok (clockedAppend mvcc) := by
  have hmvcc : mvccText (.str mvcc) = .ok mvcc := by
    rw [mvccText, isFalsy, h]
    rfl
  simp only [Mysql.toAppendSql, keyedSchema_columns]
  show (do
    let mvcc ← mvccText (.str mvcc)
    pure (⟨"user", [("id", "'u1'")], .str "DELETE", "'DELETE'", mvcc, 0⟩ : Append)) = _
  rw [hmvcc]
  rfl

set_option maxRecDepth 4000 in
/-- What stands behind a semicolon in the timestamp is a statement of its own. -/
theorem append_clock_injected :
    Mysql.toAppendSql (clockedDelete "1,0); DROP TABLE user; -- ") Mysql.keyedSchema =
        .ok (clockedAppend "1,0); DROP TABLE user; -- ") ∧
      ¬HoldsClock Mysql.keyedSchema (clockedAppend "1,0); DROP TABLE user; -- ") ∧
      (Mysql.dialect.read (Mysql.renderAppend (clockedAppend "1,0); DROP TABLE user; -- "))).map
        statementCount = some 2 := by
  refine ⟨clockedDelete_append (by decide), ?_, rfl⟩
  intro h
  obtain ⟨text, htext, hclock⟩ := h
  rw [keyedSchema_columns] at htext
  cases htext
  revert hclock
  decide

theorem append_clock_iff_number : ∃ tokens,
    Mysql.dialect.read (Mysql.renderAppend (clockedAppend "1712345678.0000000001")) = some tokens ∧
      OneStatement tokens := by
  have hall := (append_clock_iff Mysql.keyedSchema (clockedDelete "1712345678.0000000001")).2.1 _
    (clockedDelete_append (by decide))
  refine hall.2 (.inr ⟨_, rfl, by decide⟩) (by decide) fun name hname => ?_
  rw [keyedSchema_columns, List.mem_singleton] at hname
  rw [hname]
  decide

end Drivers
end Eds
