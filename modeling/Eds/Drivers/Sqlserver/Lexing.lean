import Eds.Drivers.Sqlserver.Redelivery
import Eds.Drivers.Lexing
import Eds.Lexing.Tsql

/-!
# SQL Server texts as the server reads them

The escapes are MySQL's but for the single quote, and the server knows none of them: a
backslash that the builder adds is stored with the value.  The id that a `MERGE` looks for is
put between quotes as it is, and the id that it inserts is a value like any other.
-/

namespace Eds
namespace Drivers
namespace Sqlserver

open Util Lexing Collections

/-! ## Literals -/

/-- The characters that are written with a backslash. -/
def isBackslashed (c : Char) : Bool :=
  c == '\x00' || c == '\n' || c == '\r' || c == '\x1a' || c == '"' || c == '\\'

/-- What is stored of a character: only the doubled quote is read back. -/
def storedChar (c : Char) : List Char := if c = '\'' then [c] else (escapeChar c).toList

def stored (s : List Char) : List Char := s.flatMap storedChar

theorem body_escapeChar (c : Char) : Tsql.Body '\'' (escapeChar c).toList (storedChar c) := by
  unfold storedChar
  split
  next h =>
    subst h
    exact Tsql.Body.doubled
  next hquote =>
    refine Tsql.Body.verbatim ?_
    unfold escapeChar
    split
    · decide
    split
    · decide
    split
    · decide
    split
    · decide
    split
    · decide
    split
    · decide
    · rw [String.toList_ofList, List.mem_singleton]
      exact fun h => hquote h.symm

theorem body_escapeString (s : String) :
    Tsql.Body '\'' (escapeString s).toList (stored s.toList) := by
  have hall : Tsql.Body '\'' (s.toList.flatMap fun c => (escapeChar c).toList)
      (s.toList.flatMap storedChar) := Tsql.Body.flatMap fun c _ => body_escapeChar c
  rw [escapeString, String.toList_join, List.flatMap_map]
  exact hall

theorem toList_quoted (body : String) :
    ("'" ++ body ++ "'").toList = '\'' :: (body.toList ++ ['\'']) := by
  rw [String.toList_append, String.toList_append, List.append_assoc]
  rfl

theorem read_escaped (s : String) :
    Tsql.read ("'" ++ escapeString s ++ "'") = some [.literal (stored s.toList)] := by
  rw [Tsql.read, toList_quoted]
  exact ((body_escapeString s).readsApart rfl).read_eq

theorem length_storedChar (c : Char) :
    (storedChar c).length = if isBackslashed c then 2 else 1 := by
  unfold storedChar escapeChar isBackslashed
  split
  next h =>
    subst h
    rfl
  next hquote => split_ifs <;> simp_all

theorem length_stored (s : List Char) : (stored s).length = s.length + s.countP isBackslashed := by
  induction s with
  | nil => rfl
  | cons c s ih =>
    rw [stored, List.flatMap_cons, List.length_append, List.countP_cons, length_storedChar]
    rw [stored] at ih
    rw [ih, List.length_cons]
    split <;> omega

theorem storedChar_eq (c : Char) (h : isBackslashed c = false) : storedChar c = [c] := by
  unfold storedChar escapeChar
  simp only [isBackslashed, Bool.or_eq_false_iff, beq_eq_false_iff_ne] at h
  obtain ⟨⟨⟨⟨⟨hzero, hline⟩, hreturn⟩, hsub⟩, hdouble⟩, hback⟩ := h
  split
  · rfl
  · exact String.toList_ofList

/-- A text is stored as it is if nothing in it is written with a backslash. -/
theorem stored_eq_iff (s : List Char) : stored s = s ↔ ∀ c ∈ s, isBackslashed c = false := by
  constructor
  · intro h c hc
    have hlength := congrArg List.length h
    rw [length_stored] at hlength
    have hcount : s.countP isBackslashed = 0 := by omega
    exact Bool.eq_false_iff.mpr (List.countP_eq_zero.mp hcount c hc)
  · intro h
    have hall : stored s = s.flatMap fun c => [c] :=
      List.flatMap_congr fun c hc => storedChar_eq c (h c hc)
    rw [hall, List.flatMap_singleton']

/-! ## Values -/

theorem inert_of_isWordChar {c : Char} (hc : isWordChar c = true) : Tsql.inert c = true := by
  by_contra hinert
  have hspecial : c ∈ ['\'', '"', ']', '[', ';', '-', '/'] := by
    by_contra hnot
    simp only [List.mem_cons, List.not_mem_nil, or_false, not_or] at hnot
    refine hinert ?_
    simp [Tsql.inert, Tsql.isStop, hnot]
  simp only [List.mem_cons, List.not_mem_nil, or_false] at hspecial
  rcases hspecial with rfl | rfl | rfl | rfl | rfl | rfl | rfl <;> cases hc

theorem inert_of_isWord {s : String} (h : IsWord s) : s.toList.all Tsql.inert = true :=
  List.all_eq_true.mpr fun c hc => inert_of_isWordChar (List.all_eq_true.mp h c hc)

theorem phrase_numeral {s : String} (h : Numeral s) : Tsql.Phrase 0 s := by
  induction h with
  | word h => exact Tsql.Phrase.inert (inert_of_isWord h)
  | @minus s h hne =>
    have hlist : ("-" ++ s).toList = '-' :: s.toList := String.toList_append
    rw [Tsql.Phrase, hlist]
    exact ⟨_, Dialect.statementCount_others, Tsql.Reads.minus (inert_of_isWord h) hne⟩
  | append _ _ ih ih' => exact ih.append ih'

/-- A number or a word, or a body in single quotes. -/
inductive ReadsValue (s : String) : Prop
  | numeral (h : Numeral s)
  | quoted (body : String) (value : List Char) (heq : s = "'" ++ body ++ "'")
      (h : Tsql.Body '\'' body.toList value)

theorem ReadsValue.clause {s : String} (h : ReadsValue s) : Tsql.Clause 0 s := by
  rcases h with hnumeral | ⟨body, value, heq, hbody⟩
  · exact (phrase_numeral hnumeral).clause
  · rw [heq]
    exact Tsql.Clause.quoted hbody rfl rfl rfl

theorem ReadsValue.verbatim {s : String} (h : '\'' ∉ s.toList) : ReadsValue ("'" ++ s ++ "'") :=
  .quoted s s.toList rfl (Tsql.Body.verbatim h)

theorem not_mem_stampChars {cs : List Char} (h : cs.all isStampChar = true) {c : Char}
    (hc : isStampChar c = false) : c ∉ cs := by
  intro hmem
  rw [List.all_eq_true.mp h c hmem] at hc
  cases hc

theorem quoteValue_reads {v : Json} {text : String} (h : quoteValue v = .ok text) :
    ReadsValue text := by
  cases v with
  | null =>
    cases h
    exact .numeral (.word rfl)
  | bool b =>
    cases h
    cases b <;> exact .numeral (.word rfl)
  | int n =>
    cases h
    exact .numeral (numeral_int n)
  | float f =>
    cases h
    exact .numeral (numeral_formatG f)
  | str s =>
    obtain ⟨body, heq, hbody⟩ := quoteStringValue_body h
    rcases hbody with hescaped | hstamp
    · exact .quoted body _ heq (hescaped ▸ body_escapeString s)
    · rw [heq]
      exact ReadsValue.verbatim (not_mem_stampChars hstamp rfl)
  | arr vs =>
    cases h
    exact .quoted _ _ rfl (body_escapeString _)
  | obj fields =>
    cases h
    exact .quoted _ _ rfl (body_escapeString _)

variable {model : Schema} {o : List (String × Json)} {name u : String}

theorem presentText_reads {v : Json} (h : presentText model v name = .ok u) : ReadsValue u := by
  obtain ⟨text, htext, h⟩ := bind_eq_ok.mp h
  cases h
  unfold toJsonStringVal
  split
  · split
    · exact ReadsValue.verbatim (s := "[]") (by decide)
    · exact ReadsValue.verbatim (s := "\x7b\x7d") (by decide)
  · exact quoteValue_reads htext

theorem handleSchemaProperty_reads (prop : SchemaProperty) (h : ReadsValue u) :
    ReadsValue (handleSchemaProperty prop u) := by
  have hzero : ReadsValue "0" := .numeral (.word rfl)
  have hone : ReadsValue "1" := .numeral (.word rfl)
  have hempty : ReadsValue "''" := ReadsValue.verbatim (s := "") List.not_mem_nil
  unfold handleSchemaProperty
  split_ifs <;> assumption

theorem updateText_reads (h : updateText model o name = .ok u) : ReadsValue u := by
  unfold updateText at h
  split at h
  · exact presentText_reads h
  · cases h
    exact .numeral (.word rfl)

theorem insertText_reads (h : insertText model o name = .ok u) : ReadsValue u := by
  unfold insertText at h
  split at h
  · obtain ⟨text, htext, h⟩ := bind_eq_ok.mp h
    cases h
    split
    · exact presentText_reads htext
    · exact handleSchemaProperty_reads _ (presentText_reads htext)
  · cases h
    exact handleSchemaProperty_reads _ (.numeral (.word rfl))

/-! ## The statement -/

/-- Between brackets it is one name: a bracket that closes is doubled in it. -/
def Named (name : String) : Prop := ∃ value, Tsql.Body ']' name.toList value

theorem named_of_not_mem (h : ']' ∉ name.toList) : Named name := ⟨_, Tsql.Body.verbatim h⟩

theorem clause_quoteIdentifier (h : Named name) : Tsql.Clause 0 (quoteIdentifier name) := by
  obtain ⟨value, hbody⟩ := h
  exact Tsql.Clause.quoted hbody rfl rfl rfl

theorem clause_commas {parts : List String} (h : ∀ p ∈ parts, Tsql.Clause 0 p) :
    Tsql.Clause 0 (commas parts) :=
  Tsql.Clause.intercalate rfl (List.cons_ne_nil _ _) h

theorem clause_assignment {s : String × String} (hname : Named s.1) (hvalue : ReadsValue s.2) :
    Tsql.Clause 0 (quoteIdentifier s.1 ++ "=" ++ s.2) :=
  ((clause_quoteIdentifier hname).append_inert (b := "=") rfl (List.cons_ne_nil _ _)).append_clause
    hvalue.clause

/-- What the names and values of a merge have to be for its text to be one statement. -/
structure Merge.Readable (m : Merge) : Prop where
  table : Named m.table
  source : ReadsValue m.sourceId
  setNames : ∀ s ∈ m.sets, Named s.1
  sets : ∀ s ∈ m.sets, ReadsValue s.2
  insertNames : ∀ s ∈ m.inserts, Named s.1
  inserts : ∀ s ∈ m.inserts, ReadsValue s.2

theorem Merge.Readable.clause_matched {m : Merge} (h : m.Readable) :
    Tsql.Clause 0 (if m.sets.isEmpty then "" else " WHEN MATCHED THEN UPDATE SET " ++
      commas (m.sets.map fun s => quoteIdentifier s.1 ++ "=" ++ s.2)) := by
  split
  · exact (Tsql.Phrase.inert rfl).clause
  · refine (Tsql.Phrase.inert rfl).append_clause (m := 0) (clause_commas ?_)
    exact List.forall_mem_map.mpr fun s hs => clause_assignment (h.setNames s hs) (h.sets s hs)

theorem Merge.Readable.oneStatement {m : Merge} (h : m.Readable) :
    ∃ tokens, Tsql.read (Statement.merge m).render = some tokens ∧ OneStatement tokens := by
  have hmerge : Tsql.Phrase 0 "MERGE " := Tsql.Phrase.inert rfl
  have htable := (hmerge.append_clause (clause_quoteIdentifier h.table)).append_inert
    (b := " AS target USING (VALUES(") rfl (List.cons_ne_nil _ _)
  have hsource := (htable.append_clause h.source.clause).append_inert
    (b := ")) AS source (id) ON target.id=source.id") rfl (List.cons_ne_nil _ _)
  have hmatched := (hsource.append_clause h.clause_matched).append_inert
    (b := " WHEN NOT MATCHED THEN INSERT (") rfl (List.cons_ne_nil _ _)
  have hcolumns : Tsql.Clause 0 (commas (m.inserts.map fun s => quoteIdentifier s.1)) :=
    clause_commas (List.forall_mem_map.mpr fun s hs => clause_quoteIdentifier (h.insertNames s hs))
  have hinsert := (hmatched.append_clause hcolumns).append_inert (b := ") VALUES (") rfl
    (List.cons_ne_nil _ _)
  have htexts : Tsql.Clause 0 (commas (m.inserts.map Prod.snd)) :=
    clause_commas (List.forall_mem_map.mpr fun s hs => (h.inserts s hs).clause)
  have hall := ((hinsert.append_clause htexts).append_inert (b := ")") rfl
    (List.cons_ne_nil _ _)).clause.oneStatement [] (b := ";") rfl rfl rfl
  rw [String.append_assoc] at hall
  exact hall

/-! ## The id of a merge -/

/-- The id that the rows are matched by and the one that is inserted are the same literal. -/
def Merge.SameLiteral (m : Merge) : Prop :=
  ∃ text v, m.inserts.lookup "id" = some text ∧ Tsql.read m.sourceId = some [.literal v] ∧
    Tsql.read text = some [.literal v]

/-- The text is one statement, and what it looks for is what it inserts. -/
def Merge.OwnRow (m : Merge) : Prop :=
  (∃ tokens, Tsql.read (Statement.merge m).render = some tokens ∧ OneStatement tokens) ∧
    m.SameLiteral

/-- An id that is stored as it is put between the quotes: no timestamp, nothing that is
escaped, and not empty where an empty value becomes a list or an object. -/
def Verbatim (prop : SchemaProperty) (id : String) : Prop :=
  stamp? id = none ∧ (∀ c ∈ id.toList, c ≠ '\'' ∧ isBackslashed c = false) ∧
    ¬(id = "" ∧ prop.isArrayOrJson = true ∧ prop.isNotNull = true)

theorem isEmptyVal_quoted (body : String) : isEmptyVal ("'" ++ body ++ "'") = true ↔ body = "" := by
  constructor
  · intro h
    simp only [isEmptyVal, Bool.or_eq_true, beq_iff_eq] at h
    rcases h with ((h | h) | h) | h
    · have hlist := congrArg String.toList h
      rw [toList_quoted] at hlist
      cases hbody : body.toList with
      | nil => exact String.toList_inj.mp hbody
      | cons c rest =>
        rw [hbody] at hlist
        have hrest := (List.cons.inj (List.cons.inj hlist).2).2
        exact absurd hrest (by simp)
    all_goals
      have hlist := congrArg String.toList h
      rw [toList_quoted] at hlist
      cases hlist
  · intro h
    subst h
    rfl

theorem read_bare {id : String} (h : '\'' ∉ id.toList) :
    Tsql.read ("'" ++ id ++ "'") = some [.literal id.toList] := by
  rw [Tsql.read, toList_quoted]
  exact Tsql.read_verbatim h

theorem toJsonStringVal_quoted (body : String) (prop : SchemaProperty) :
    toJsonStringVal ("'" ++ body ++ "'") prop false =
      if prop.isArrayOrJson = true ∧ prop.isNotNull = true ∧ body = "" then
        (if prop.type == "array" then "'[]'" else "'\x7b\x7d'")
      else "'" ++ body ++ "'" := by
  have hempty : (prop.isArrayOrJson && prop.isNotNull && isEmptyVal ("'" ++ body ++ "'")) = true ↔
      prop.isArrayOrJson = true ∧ prop.isNotNull = true ∧ body = "" := by
    rw [Bool.and_eq_true, Bool.and_eq_true, isEmptyVal_quoted, and_assoc]
  rw [toJsonStringVal]
  exact if_congr hempty rfl rfl

/-- No text of an id that looks like a timestamp is what was looked for. -/
theorem not_same_of_stamp {id text : String} {t : Stamp} {v : List Char} (ht : stamp? id = some t)
    (hinsert : presentText model (.str id) name = .ok text)
    (hsource : Tsql.read ("'" ++ id ++ "'") = some [.literal v])
    (htext : Tsql.read text = some [.literal v]) : False := by
  obtain ⟨date, rest, hid, hT, hquote⟩ := stamp?_prefix ht
  have hmem : 'T' ∈ v := by
    rw [Tsql.read, toList_quoted, hid] at hsource
    exact (Tsql.prefix_literal hquote hsource).subset hT
  obtain ⟨quoted, hquoted, hpure⟩ := bind_eq_ok.mp hinsert
  obtain ⟨body, rfl, hbody⟩ := quoteStringValue_stamp ht hquoted
  cases hpure
  rw [toJsonStringVal_quoted] at htext
  split at htext
  · split at htext
    · have hv : some [Token.literal ['[', ']']] = some [.literal v] := htext
      cases hv
      exact absurd hmem (by decide)
    · have hv : some [Token.literal ['\x7b', '\x7d']] = some [.literal v] := htext
      cases hv
      exact absurd hmem (by decide)
  · rw [read_bare (not_mem_stampChars hbody rfl)] at htext
    cases htext
    exact not_mem_stampChars hbody rfl hmem

theorem escapeString_eq_empty {s : String} (h : escapeString s = "") : s = "" := by
  have hread := read_escaped s
  rw [h] at hread
  have hnil : some [Token.literal []] = some [.literal (stored s.toList)] := hread
  have hstored : [] = stored s.toList := Token.literal.inj (List.cons.inj (Option.some.inj hnil)).1
  have hlength := length_stored s.toList
  rw [← hstored, List.length_nil] at hlength
  refine String.toList_inj.mp (List.eq_nil_of_length_eq_zero ?_)
  omega

/-- The two literals of an id are the same if the id is stored as it is. -/
theorem same_iff_verbatim {id text : String} (hinsert : presentText model (.str id) name = .ok text) :
    (∃ v, Tsql.read ("'" ++ id ++ "'") = some [.literal v] ∧ Tsql.read text = some [.literal v]) ↔
      Verbatim (model.property name) id := by
  cases ht : stamp? id with
  | some t =>
    constructor
    · intro hgiven
      obtain ⟨v, hsource, htext⟩ := hgiven
      exact (not_same_of_stamp ht hinsert hsource htext).elim
    · intro hgiven
      rw [hgiven.1] at ht
      cases ht
  | none =>
    have hquoted : quoteValue (.str id) = .ok ("'" ++ escapeString id ++ "'") := by
      rw [quoteValue, quoteStringValue, ht]
    rw [presentText, hquoted] at hinsert
    cases hinsert
    rw [toJsonStringVal_quoted]
    constructor
    · intro hgiven
      obtain ⟨v, hsource, htext⟩ := hgiven
      rw [Tsql.read, toList_quoted] at hsource
      obtain ⟨hle, hnot⟩ := Tsql.length_literal hsource
      split at htext
      next hempty =>
        -- the id is empty, and an empty list or object is inserted for it
        rw [escapeString_eq_empty hempty.2.2] at hle
        have hv : v ≠ [] := by
          intro hgiven
          subst hgiven
          split at htext <;> cases htext
        exact absurd (List.eq_nil_of_length_eq_zero (Nat.le_zero.mp hle)) hv
      next hempty =>
        rw [read_escaped] at htext
        cases htext
        rw [length_stored] at hle hnot
        have hcount : id.toList.countP isBackslashed = 0 := by omega
        have hquote : '\'' ∉ id.toList := hnot (by omega)
        refine ⟨ht, fun c hc => ⟨?_, Bool.eq_false_iff.mpr (List.countP_eq_zero.mp hcount c hc)⟩, ?_⟩
        · intro hgiven
          exact hquote (hgiven ▸ hc)
        · intro hgiven
          obtain ⟨rfl, hjson, hnull⟩ := hgiven
          exact hempty ⟨hjson, hnull, rfl⟩
    · intro hgiven
      obtain ⟨-, hplain, hempty⟩ := hgiven
      have hstored := (stored_eq_iff id.toList).mpr fun c hc => (hplain c hc).2
      rw [if_neg fun h => hempty ⟨escapeString_eq_empty h.2.2, h.1, h.2.1⟩, read_escaped, hstored,
        read_bare fun hmem => (hplain _ hmem).1 rfl]
      exact ⟨_, rfl, rfl⟩

section Built

variable {str : Json → String} {diff table : Json} {m : Merge} {id : String}

theorem sameLiteral_iff (hstr : ∀ s, str (.str s) = s) (hcol : "id" ∈ model.columns)
    (hid : o.lookup "id" = some (.str id))
    (h : toSqlFromObject str model table o diff = .ok (.merge m)) :
    m.SameLiteral ↔ Verbatim (model.property "id") id := by
  obtain ⟨names, update, insert, htexts⟩ := toSqlFromObject_texts h
  obtain ⟨v, hv, hsource⟩ := htexts.source
  have hinsert := htexts.insert "id" hcol
  rw [hid] at hv
  cases hv
  have hpresent : presentText model (.str id) "id" = .ok (insert "id") := by
    rw [insertText, hid] at hinsert
    obtain ⟨text, htext, hpure⟩ := bind_eq_ok.mp hinsert
    cases hpure
    exact htext
  rw [← same_iff_verbatim hpresent, Merge.SameLiteral, hsource, hstr, htexts.inserts,
    List.lookup_graph insert hcol]
  constructor
  · intro hgiven
    obtain ⟨text, v, htext, hboth⟩ := hgiven
    cases htext
    exact ⟨v, hboth⟩
  · intro hgiven
    obtain ⟨v, hboth⟩ := hgiven
    exact ⟨_, v, rfl, hboth⟩

theorem toSqlFromObject_readable (hstr : ∀ s, str (.str s) = s)
    (hid : o.lookup "id" = some (.str id)) (hquote : '\'' ∉ id.toList) (htable : Named m.table)
    (hnames : ∀ name ∈ model.columns, Named name)
    (h : toSqlFromObject str model table o diff = .ok (.merge m)) : m.Readable := by
  obtain ⟨names, update, insert, htexts⟩ := toSqlFromObject_texts h
  obtain ⟨v, hv, hsource⟩ := htexts.source
  rw [hid] at hv
  cases hv
  constructor
  · exact htable
  · rw [hsource, hstr]
    exact ReadsValue.verbatim hquote
  · rw [htexts.sets, List.forall_mem_map]
    exact fun name hname => hnames name (assigned_spec htexts.assigned hname).1
  · rw [htexts.sets, List.forall_mem_map]
    exact fun name hname => updateText_reads (htexts.update name hname)
  · rw [htexts.inserts, List.forall_mem_map]
    exact hnames
  · rw [htexts.inserts, List.forall_mem_map]
    exact fun name hname => insertText_reads (htexts.insert name hname)

/-- A merge looks for the row that it inserts if the id is stored as it is put between the
quotes; where the names are read as names, nothing else is needed. -/
theorem merge_ownRow_iff (hstr : ∀ s, str (.str s) = s) (hcol : "id" ∈ model.columns)
    (hid : o.lookup "id" = some (.str id))
    (h : toSqlFromObject str model table o diff = .ok (.merge m)) :
    (m.OwnRow → Verbatim (model.property "id") id) ∧
    (Named m.table → (∀ name ∈ model.columns, Named name) →
      (m.OwnRow ↔ Verbatim (model.property "id") id)) := by
  have hsame := sameLiteral_iff hstr hcol hid h
  refine ⟨fun hown => hsame.mp hown.2, fun htable hnames => ⟨fun hown => hsame.mp hown.2, ?_⟩⟩
  intro hverbatim
  have hquote : '\'' ∉ id.toList := fun hmem => (hverbatim.2.1 _ hmem).1 rfl
  exact ⟨(toSqlFromObject_readable hstr hid hquote htable hnames h).oneStatement,
    hsame.mpr hverbatim⟩

end Built

/-- The order of a customer whose name is its id. -/
def named (id : String) : List (String × Json) := [("id", .str id), ("count", .int 5)]

def namedMerge (source insert : String) : Merge where
  table := "order"
  sourceId := source
  sets := [("count", "5")]
  inserts := [("id", insert), ("count", "5")]

/-- The quote in the name ends the literal that is looked for, and is doubled in the one that
is inserted. -/
theorem merge_ownRow_quote :
    ∃ m, toSqlFromObject strOf counted (.str "order") (named "O'Brien") .null = .ok (.merge m) ∧
      Tsql.read m.sourceId = none ∧ ¬m.OwnRow := by
  have hrun : toSqlFromObject strOf counted (.str "order") (named "O'Brien") .null =
      .ok (.merge (namedMerge "'O'Brien'" "'O''Brien'")) := by
    simp only [toSqlFromObject, assigned, counted_columns]
    rfl
  have hread : Tsql.read "'O'Brien'" = none := rfl
  refine ⟨_, hrun, hread, fun hown => ?_⟩
  obtain ⟨text, v, -, hsource, -⟩ := hown.2
  rw [show (namedMerge "'O'Brien'" "'O''Brien'").sourceId = "'O'Brien'" from rfl, hread] at hsource
  cases hsource

theorem merge_ownRow_iff_five : (orderMerge "5" "5").OwnRow := by
  have hcol : "id" ∈ counted.columns := by
    rw [counted_columns]
    exact List.mem_cons_self
  have hid : (order (.int 5)).lookup "id" = some (.str "o1") := rfl
  have hall := merge_ownRow_iff (fun _ => rfl) hcol hid order_five
  have hplain : ∀ c ∈ "o1".toList, c ≠ '\'' ∧ isBackslashed c = false :=
    List.forall_mem_cons.mpr ⟨⟨by decide, rfl⟩, List.forall_mem_singleton.mpr ⟨by decide, rfl⟩⟩
  refine (hall.2 (named_of_not_mem (by decide)) ?_).mpr ⟨rfl, hplain, ?_⟩
  · intro name hname
    rw [counted_columns, List.mem_cons, List.mem_singleton] at hname
    rcases hname with rfl | rfl
    · exact named_of_not_mem (by decide)
    · exact named_of_not_mem (by decide)
  · exact fun h => absurd h.1 (by decide)

end Sqlserver
end Drivers
end Eds
