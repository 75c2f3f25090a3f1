import Eds.Drivers.Mysql.Sql
import Eds.Drivers.Lexing
import Eds.Collections.Traverse

/-!
# MySQL texts as the server reads them

The server is in its default mode: double quotes are literals too, and a backslash
escapes in both.  Table and column names are written between backticks as they are.
-/

namespace Eds
namespace Drivers
namespace Mysql

open Util Lexing Lexing.Dialect Collections

/-- What a backslash and `c` stand for; of the wildcards the backslash stays. -/
def unescape (c : Char) : List Char :=
  if c = '0' then ['\x00']
  else if c = 'b' then ['\x08']
  else if c = 'n' then ['\n']
  else if c = 'r' then ['\r']
  else if c = 't' then ['\t']
  else if c = 'Z' then ['\x1a']
  else if c = '%' ∨ c = '_' then ['\\', c]
  else [c]

def dialect : Dialect where
  literals := ['\'', '"']
  identifiers := ['\x60']
  escape := some unescape
  dollars := false
  comments := true

theorem readsBare : ReadsBare dialect where
  word c hc := by
    by_contra hinert
    have hspecial : c ∈ ['\'', '"', '\x60', ';', '#', '-', '/'] := by
      by_contra hnot
      simp only [List.mem_cons, List.not_mem_nil, or_false, not_or] at hnot
      refine hinert ?_
      simp [Dialect.inert, isQuote, dialect, hnot]
    simp only [List.mem_cons, List.not_mem_nil, or_false] at hspecial
    rcases hspecial with rfl | rfl | rfl | rfl | rfl | rfl | rfl <;> cases hc
  minus := rfl

/-! ## Literals -/

theorem body_escapeChar (c : Char) : dialect.Body '\'' (escapeChar c).toList [c] := by
  have hescaped : ∀ e d, unescape e = [d] → c = d → dialect.Body '\'' ['\\', e] [c] := by
    intro e d he hc
    rw [hc, ← he]
    exact Body.escaped rfl (by decide)
  unfold escapeChar
  split
  next h => exact hescaped '0' _ rfl h
  split
  next h => exact hescaped 'n' _ rfl h
  split
  next h => exact hescaped 'r' _ rfl h
  split
  next h => exact hescaped 'Z' _ rfl h
  split
  next h => exact hescaped '\'' _ rfl h
  next hquote =>
    split
    next h => exact hescaped '"' _ rfl h
    split
    next h => exact hescaped '\\' _ rfl h
    next hback =>
      rw [String.toList_ofList]
      exact Body.char hquote (.inr hback)

theorem body_escapeString (s : String) : dialect.Body '\'' (escapeString s).toList s.toList := by
  have hall : dialect.Body '\'' (s.toList.flatMap fun c => (escapeChar c).toList)
      (s.toList.flatMap fun c => [c]) := Body.flatMap fun c _ => body_escapeChar c
  rw [List.flatMap_singleton'] at hall
  rw [escapeString, String.toList_join, List.flatMap_map]
  exact hall

theorem read_quoted (s : String) :
    dialect.read ("'" ++ escapeString s ++ "'") = some [.literal s.toList] := by
  have hreads := (body_escapeString s).readsApart rfl
  have hlist : ("'" ++ escapeString s ++ "'").toList = enclose '\'' (escapeString s).toList := by
    rw [String.toList_append, String.toList_append, List.append_assoc]
    rfl
  rw [Dialect.read, hlist]
  exact hreads.read_eq

theorem quoteValue_reads {v : Json} {text : String} (h : quoteValue v = .ok text) :
    ReadsValue dialect text := by
  cases v with
  | null => cases h; exact .bare (IsWord.bare readsBare rfl)
  | bool b => cases h; cases b <;> exact .bare (IsWord.bare readsBare rfl)
  | int n => cases h; exact .bare (bare_int readsBare n)
  | float f => cases h; exact .bare (bare_formatG readsBare f)
  | str s =>
    obtain ⟨body, heq, hbody⟩ := quoteStringValue_body h
    rcases hbody with hescaped | hstamp
    · exact .quoted body s.toList heq (hescaped ▸ body_escapeString s)
    · exact .quoted body _ heq (stampChar_body hstamp)
  | arr vs => cases h; exact .quoted _ _ rfl (body_escapeString _)
  | obj fields => cases h; exact .quoted _ _ rfl (body_escapeString _)

/-! ## Statements -/

def Named (name : String) : Prop := '\x60' ∉ name.toList

instance (name : String) : Decidable (Named name) := inferInstanceAs (Decidable (¬ _))

theorem clause_quoteIdentifier {name : String} (h : Named name) :
    dialect.Clause 0 (quoteIdentifier name) :=
  Clause.quoted (Body.verbatim h (.inl rfl)) rfl rfl

theorem clause_value {text : String} (h : ReadsValue dialect text) : dialect.Clause 0 text :=
  h.clause rfl

theorem clause_replace {table : String} {values : List (String × String)} (htable : Named table)
    (hnames : ∀ v ∈ values, Named v.1) (hvalues : ∀ v ∈ values, ReadsValue dialect v.2) :
    dialect.Clause 0 ("REPLACE INTO " ++ quoteIdentifier table ++ " (" ++
      commas (values.map fun v => quoteIdentifier v.1) ++ ") VALUES (" ++
      commas (values.map Prod.snd) ++ ")") := by
  have hcolumns : dialect.Clause 0 (commas (values.map fun v => quoteIdentifier v.1)) :=
    clause_commas rfl (List.forall_mem_map.mpr fun v hv => clause_quoteIdentifier (hnames v hv))
  have htexts : dialect.Clause 0 (commas (values.map Prod.snd)) :=
    clause_commas rfl (List.forall_mem_map.mpr fun v hv => clause_value (hvalues v hv))
  have hinto : dialect.Phrase 0 "REPLACE INTO " := Phrase.inert rfl
  have hopen := (hinto.append_clause (clause_quoteIdentifier htable)).append_inert (t := " (") rfl
    (List.cons_ne_nil _ _)
  have hbetween := (hopen.append_clause hcolumns).append_inert (t := ") VALUES (") rfl
    (List.cons_ne_nil _ _)
  exact ((hbetween.append_clause htexts).append_inert (t := ")") rfl (List.cons_ne_nil _ _)).clause

theorem clause_delete {table : String} {conds : List (String × String)} (htable : Named table)
    (hnames : ∀ v ∈ conds, Named v.1) (hvalues : ∀ v ∈ conds, ReadsValue dialect v.2) :
    dialect.Clause 0 ("DELETE FROM " ++ quoteIdentifier table ++ " WHERE " ++
      String.intercalate " AND " (conds.map fun c => quoteIdentifier c.1 ++ "=" ++ c.2)) := by
  have hconds : dialect.Clause 0
      (String.intercalate " AND " (conds.map fun c => quoteIdentifier c.1 ++ "=" ++ c.2)) := by
    refine Clause.intercalate rfl (List.cons_ne_nil _ _) (List.forall_mem_map.mpr fun v hv => ?_)
    have hequals := (clause_quoteIdentifier (hnames v hv)).append_inert (t := "=") rfl
      (List.cons_ne_nil _ _)
    exact hequals.append_clause (clause_value (hvalues v hv))
  have hfrom : dialect.Phrase 0 "DELETE FROM " := Phrase.inert rfl
  have hwhere := (hfrom.append_clause (clause_quoteIdentifier htable)).append_inert (t := " WHERE ")
    rfl (List.cons_ne_nil _ _)
  exact hwhere.append_clause hconds

/-- The names and values of a statement. -/
def Statement.table : Statement → String
  | .replace table _ => table
  | .delete table _ => table

def Statement.pairs : Statement → List (String × String)
  | .replace _ values => values
  | .delete _ conds => conds

theorem render_oneStatement {statement : Statement} (htable : Named statement.table)
    (hnames : ∀ v ∈ statement.pairs, Named v.1)
    (hvalues : ∀ v ∈ statement.pairs, ReadsValue dialect v.2) :
    ∃ tokens, dialect.read statement.render = some tokens ∧ OneStatement tokens := by
  cases statement with
  | replace table values =>
    have hone := (clause_replace htable hnames hvalues).oneStatement rfl rfl
    rw [String.append_assoc] at hone
    exact hone
  | delete table conds => exact (clause_delete htable hnames hvalues).oneStatement rfl rfl

theorem tableName_eq {table : Json} {name : String} (h : tableName table = .ok name) :
    table = .str name := by
  cases table with
  | str s => cases h; rfl
  | _ => cases h

theorem columnText_reads {model : Schema} {o : List (String × Json)} {name text : String}
    (h : columnText model o name = .ok text) : ReadsValue dialect text := by
  unfold columnText at h
  split at h
  · obtain ⟨value, hvalue, h⟩ := bind_eq_ok.mp h
    cases h
    exact (quoteValue_reads hvalue).toJsonStringVal _ _
  · cases h
    exact ReadsValue.toJsonStringVal (.bare (IsWord.bare readsBare (s := "NULL") rfl)) _ _

theorem toSql_reads {c : DBChangeEvent} {model : Schema} {statement : Statement}
    (h : toSql c model = .ok statement) :
    c.table = .str statement.table ∧
      ∀ v ∈ statement.pairs, v.1 ∈ model.columns ∧ ReadsValue dialect v.2 := by
  unfold toSql at h
  split at h
  · obtain ⟨conds, hconds, h⟩ := bind_eq_ok.mp h
    obtain ⟨name, hname, h⟩ := bind_eq_ok.mp h
    cases h
    refine ⟨tableName_eq hname, fun v hv => ?_⟩
    obtain ⟨pk, hpk, hv⟩ := exists_of_mem_mapM hconds hv
    obtain ⟨key, _, hv⟩ := bind_eq_ok.mp hv
    obtain ⟨text, htext, hv⟩ := bind_eq_ok.mp hv
    cases hv
    refine ⟨List.mem_append_left _ ?_, quoteValue_reads htext⟩
    exact List.fst_mem_of_mem_zipIdx hpk
  · obtain ⟨values, hvalues, h⟩ := bind_eq_ok.mp h
    obtain ⟨name, hname, h⟩ := bind_eq_ok.mp h
    cases h
    refine ⟨tableName_eq hname, fun v hv => ?_⟩
    obtain ⟨column, hcolumn, hv⟩ := exists_of_mem_mapM hvalues hv
    obtain ⟨text, htext, hv⟩ := bind_eq_ok.mp hv
    cases hv
    exact ⟨hcolumn, columnText_reads htext⟩

/-! ## The literals and the statements -/

theorem literals_faithful :
    (∀ s, stamp? s = none → ∃ text, quoteValue (.str s) = .ok text ∧
      dialect.read text = some [.literal s.toList]) ∧
    (∀ vs, ∃ text, quoteValue (.arr vs) = .ok text ∧
      dialect.read text = some [.literal (stringify (.arr vs)).toList]) ∧
    (∀ fields, ∃ text, quoteValue (.obj fields) = .ok text ∧
      dialect.read text = some [.literal (stringify (.obj fields)).toList]) ∧
    ∀ (c : DBChangeEvent) (model : Schema) (statement : Statement),
      (∀ table, c.table = .str table → Named table) → (∀ name ∈ model.columns, Named name) →
      toSql c model = .ok statement →
        ∃ tokens, dialect.read statement.render = some tokens ∧ OneStatement tokens := by
  refine ⟨fun s hs => ⟨_, ?_, read_quoted s⟩, fun vs => ⟨_, rfl, read_quoted _⟩,
    fun fields => ⟨_, rfl, read_quoted _⟩, ?_⟩
  · rw [quoteValue, quoteStringValue, hs]
  · intro c model statement htable hnames h
    obtain ⟨hname, hpairs⟩ := toSql_reads h
    exact render_oneStatement (htable _ hname) (fun v hv => hnames _ (hpairs v hv).1)
      fun v hv => (hpairs v hv).2

def quotedDelete : DBChangeEvent where
  operation := .str "DELETE"
  table := .str "user"
  modelVersion := .str "1"
  object := none
  diff := .null
  timestamp := 0
  schemaValidatedPath := none
  key := .arr [.str "1'; --\\"]

def keyedSchema : Schema where
  properties := Dict.empty
  primaryKeys := ["id"]
  table := "user"
  modelVersion := "1"

theorem literals_faithful_quotedDelete :
    (∃ text, quoteValue (.str "1'; --\\") = .ok text ∧
      dialect.read text = some [.literal "1'; --\\".toList]) ∧
    ∃ statement, toSql quotedDelete keyedSchema = .ok statement ∧
      ∃ tokens, dialect.read statement.render = some tokens ∧ OneStatement tokens := by
  have hrun : ∃ statement, toSql quotedDelete keyedSchema = .ok statement := ⟨_, rfl⟩
  obtain ⟨statement, hstatement⟩ := hrun
  refine ⟨literals_faithful.1 _ rfl, statement, hstatement,
    literals_faithful.2.2.2 quotedDelete keyedSchema statement ?_ ?_ hstatement⟩
  · intro table htable
    cases htable
    decide
  · intro name hname
    have hcolumns : keyedSchema.columns = ["id"] := by
      simp [Schema.columns, keyedSchema, Dict.empty, Dict.keys]
    rw [hcolumns, List.mem_singleton] at hname
    rw [hname]
    decide

end Mysql
end Drivers
end Eds
