import Eds.Drivers.Snowflake.Flush
import Eds.Drivers.Lexing
import Eds.Collections.Traverse

/-!
# Counting Snowflake statements

A flush sends one text and says how many statements it holds.  The count is added up
while the text is built, and the server finds as many: no value ends its literal.
-/

namespace Eds
namespace Drivers
namespace Snowflake

open Util Lexing Lexing.Dialect Collections

/-- What the escapes stand for is not looked at. -/
def dialect : Dialect where
  literals := ['\'']
  identifiers := ['"']
  escape := some fun c => [c]
  dollars := false
  comments := false

theorem inert_iff (c : Char) : dialect.inert c = true ↔ c ≠ '\'' ∧ c ≠ '"' ∧ c ≠ ';' := by
  simp [Dialect.inert, isQuote, dialect, and_assoc]

theorem readsBare : ReadsBare dialect where
  word c hc := by
    rw [inert_iff]
    refine ⟨?_, ?_, ?_⟩ <;> intro hgiven <;> subst hgiven <;> cases hc
  minus := rfl

/-! ## Values -/

/-- A backslash and a quote are doubled, whatever else a backslash stands for. -/
theorem body_escape {D : Dialect} {f : Char → List Char} (hescape : D.escapeIn '\'' = some f)
    (hf : f '\\' = ['\\']) (c : Char) : D.Body '\'' (escape c).toList [c] := by
  unfold escape
  split
  next h =>
    subst h
    have hbody : D.Body '\'' ['\\', '\\'] (f '\\') := Body.escaped hescape (by decide)
    rw [hf] at hbody
    exact hbody
  next hback =>
    split
    next h =>
      subst h
      exact Body.doubled
    next hquote =>
      rw [String.toList_ofList]
      exact Body.char hquote (.inr hback)

theorem body_escaped {D : Dialect} {f : Char → List Char} (hescape : D.escapeIn '\'' = some f)
    (hf : f '\\' = ['\\']) (s : String) :
    D.Body '\'' (String.join (s.toList.map escape)).toList s.toList := by
  have hall : D.Body '\'' (s.toList.flatMap fun c => (escape c).toList)
      (s.toList.flatMap fun c => [c]) := Body.flatMap fun c _ => body_escape hescape hf c
  rw [List.flatMap_singleton'] at hall
  rw [String.toList_join, List.flatMap_map]
  exact hall

theorem clause_quoted (s : String) :
    dialect.Clause 0 ("'" ++ String.join (s.toList.map escape) ++ "'") :=
  Clause.quoted (body_escaped rfl rfl s) rfl rfl

/-- The names of functions. -/
def Callable (fn : String) : Prop := fn.toList.all dialect.inert = true

theorem callable_none : Callable "" := rfl

theorem clause_wrap {fn text : String} (hfn : Callable fn) (h : dialect.Clause 0 text) :
    dialect.Clause 0 (wrap fn text) := by
  unfold wrap
  split
  · exact h
  · have hcall : dialect.Phrase 0 fn := Phrase.inert hfn
    have hopen := hcall.clause.append_inert (t := "(") rfl (List.cons_ne_nil _ _)
    exact ((hopen.append_clause h).append_inert (t := ")") rfl (List.cons_ne_nil _ _)).clause

theorem clause_word {s : String} (h : IsWord s) : dialect.Clause 0 s :=
  (IsWord.bare readsBare h).1.clause

theorem clause_quoteString {fn : String} (hfn : Callable fn) (s : String) :
    dialect.Clause 0 (quoteString s fn) := by
  unfold quoteString
  split
  · exact clause_word (s := "NULL") rfl
  · exact clause_wrap hfn (clause_quoted s)

theorem clause_quoteValue {fn : String} (hfn : Callable fn) (v : Json) :
    dialect.Clause 0 (quoteValue v fn) := by
  cases v with
  | null => exact clause_word (s := "NULL") rfl
  | bool b =>
    cases b
    · exact clause_word (s := "false") rfl
    · exact clause_word (s := "true") rfl
  | int n => exact (bare_int readsBare n).1.clause
  | float f => exact (bare_formatF readsBare f).1.clause
  | str s => exact clause_quoteString hfn s
  | arr vs => exact clause_quoteString hfn _
  | obj fields => exact clause_quoteString hfn _

theorem callable_generateInsertFunction (prop : SchemaProperty) :
    Callable (generateInsertFunction prop) := by
  unfold generateInsertFunction
  split
  · rfl
  · split
    · split
      · split <;> rfl
      · rfl
    · rfl

theorem clause_nullableValue (prop : SchemaProperty) (quoted : Bool) :
    dialect.Clause 0 (nullableValue prop quoted) := by
  have hliteral : ∀ s : String, '\'' ∉ s.toList → '\\' ∉ s.toList →
      dialect.Clause 0 ("'" ++ s ++ "'") := fun s hquote hback =>
    Clause.quoted (Body.verbatim hquote (.inr hback)) rfl rfl
  have hcall : ∀ s : String, '\'' ∉ s.toList → '\\' ∉ s.toList →
      dialect.Clause 0 (wrap "PARSE_JSON" ("'" ++ s ++ "'")) := fun s hquote hback =>
    clause_wrap rfl (hliteral s hquote hback)
  unfold nullableValue
  split
  · exact clause_word (s := "NULL") rfl
  split
  · split
    · exact hcall "\x7b\x7d" (by decide) (by decide)
    · exact hliteral "\x7b\x7d" (by decide) (by decide)
  split
  · split
    · exact hcall "[]" (by decide) (by decide)
    · exact hliteral "[]" (by decide) (by decide)
  split
  · exact clause_word (s := "0") rfl
  split
  · exact clause_word (s := "false") rfl
  · exact hliteral "" (by decide) (by decide)

/-! ## Statements -/

def Named (name : String) : Prop := '"' ∉ name.toList

instance (name : String) : Decidable (Named name) := inferInstanceAs (Decidable (¬ _))

theorem clause_quoteIdentifier {name : String} (h : Named name) :
    dialect.Clause 0 (quoteIdentifier name) :=
  Clause.quoted (Body.verbatim h (.inl rfl)) rfl rfl

theorem clause_id : dialect.Clause 0 (quoteIdentifier "id") := clause_quoteIdentifier (by decide)

theorem clause_updatedDate : dialect.Clause 0 (quoteIdentifier "updatedDate") :=
  clause_quoteIdentifier (by decide)

/-- A clause and a text without quotes and semicolons behind it. -/
theorem phrase_then {s : String} (h : dialect.Clause 0 s) (t : String)
    (ht : t.toList.all dialect.inert = true) (hne : t.toList ≠ []) : dialect.Phrase 0 (s ++ t) :=
  h.append_inert ht hne

theorem phrase_delete {table id : String} (htable : Named table) (hid : dialect.Clause 0 id) :
    dialect.Phrase 1 (Statement.delete table id).render := by
  have hfrom : dialect.Phrase 0 "DELETE FROM " := Phrase.inert rfl
  have hwhere := phrase_then (hfrom.append_clause (clause_quoteIdentifier htable)) " WHERE " rfl
    (List.cons_ne_nil _ _)
  have hequals := phrase_then
    (hwhere.append_clause clause_id) "=" rfl
    (List.cons_ne_nil _ _)
  exact (hequals.append_clause hid).terminated rfl rfl

/-- What a `MERGE` is written from. -/
structure Merge.Readable (m : Merge) : Prop where
  table : Named m.table
  id : dialect.Clause 0 m.id
  updatedDate : dialect.Clause 0 m.updatedDate
  sets : ∀ s ∈ m.sets, Named s.1 ∧ dialect.Clause 0 s.2
  inserts : ∀ s ∈ m.inserts, Named s.1 ∧ dialect.Clause 0 s.2

theorem phrase_source {m : Merge} (h : m.Readable) :
    dialect.Phrase 0 ("MERGE INTO " ++ quoteIdentifier m.table ++ " AS target USING (SELECT " ++
      m.id ++ " AS " ++ quoteIdentifier "id" ++ ", " ++ m.updatedDate ++ " AS " ++
      quoteIdentifier "updatedDate" ++ ") AS source ") := by
  have hinto : dialect.Phrase 0 "MERGE INTO " := Phrase.inert rfl
  have hselect := phrase_then (hinto.append_clause (clause_quoteIdentifier h.table))
    " AS target USING (SELECT " rfl (List.cons_ne_nil _ _)
  have has := phrase_then (hselect.append_clause h.id) " AS " rfl (List.cons_ne_nil _ _)
  have hcomma := phrase_then (has.append_clause clause_id) ", " rfl (List.cons_ne_nil _ _)
  have has' := phrase_then (hcomma.append_clause h.updatedDate) " AS " rfl (List.cons_ne_nil _ _)
  exact phrase_then (has'.append_clause clause_updatedDate) ") AS source " rfl (List.cons_ne_nil _ _)

theorem phrase_condition {s : String} (hs : dialect.Phrase 0 s) :
    dialect.Phrase 0 (s ++ "ON target." ++ quoteIdentifier "id" ++ " = source." ++
      quoteIdentifier "id" ++ " " ++ "WHEN MATCHED AND source." ++ quoteIdentifier "updatedDate" ++
      " > target." ++ quoteIdentifier "updatedDate" ++ " THEN UPDATE SET ") := by
  have hon := phrase_then hs.clause "ON target." rfl (List.cons_ne_nil _ _)
  have hsource := phrase_then (hon.append_clause clause_id) " = source." rfl (List.cons_ne_nil _ _)
  have hblank := phrase_then (hsource.append_clause clause_id) " " rfl (List.cons_ne_nil _ _)
  have hwhen := phrase_then hblank.clause "WHEN MATCHED AND source." rfl (List.cons_ne_nil _ _)
  have hnewer := phrase_then (hwhen.append_clause clause_updatedDate) " > target." rfl (List.cons_ne_nil _ _)
  exact phrase_then (hnewer.append_clause clause_updatedDate) " THEN UPDATE SET " rfl (List.cons_ne_nil _ _)

theorem clause_writes {s : String} (hs : dialect.Phrase 0 s) {m : Merge} (h : m.Readable) :
    dialect.Clause 0 (s ++ commas (m.sets.map fun s => quoteIdentifier s.1 ++ "=" ++ s.2) ++ " " ++
      "WHEN NOT MATCHED THEN INSERT (" ++ commas (m.inserts.map fun s => quoteIdentifier s.1) ++
      ") VALUES (" ++ commas (m.inserts.map Prod.snd)) := by
  have hsets : dialect.Clause 0 (commas (m.sets.map fun s => quoteIdentifier s.1 ++ "=" ++ s.2)) := by
    refine clause_commas rfl (List.forall_mem_map.mpr fun s hs => ?_)
    have hequals := phrase_then (clause_quoteIdentifier (h.sets s hs).1) "=" rfl (List.cons_ne_nil _ _)
    exact hequals.append_clause (h.sets s hs).2
  have hcolumns : dialect.Clause 0 (commas (m.inserts.map fun s => quoteIdentifier s.1)) :=
    clause_commas rfl (List.forall_mem_map.mpr fun s hs => clause_quoteIdentifier (h.inserts s hs).1)
  have hvalues : dialect.Clause 0 (commas (m.inserts.map Prod.snd)) :=
    clause_commas rfl (List.forall_mem_map.mpr fun s hs => (h.inserts s hs).2)
  have hblank := phrase_then (hs.append_clause hsets) " " rfl (List.cons_ne_nil _ _)
  have hinsert := phrase_then hblank.clause "WHEN NOT MATCHED THEN INSERT (" rfl
    (List.cons_ne_nil _ _)
  have hbetween := phrase_then (hinsert.append_clause hcolumns) ") VALUES (" rfl
    (List.cons_ne_nil _ _)
  exact hbetween.append_clause hvalues

theorem phrase_merge {m : Merge} (h : m.Readable) :
    dialect.Phrase 1 (Statement.merge m).render := by
  have hend : dialect.Phrase 1 ");\n" :=
    Phrase.append (s := ")") (Phrase.inert rfl) (Phrase.empty.clause.terminated rfl rfl)
  exact (clause_writes (phrase_condition (phrase_source h)) h).append_phrase hend
    (List.cons_ne_nil _ _) fun c hc => by cases hc; rfl

theorem clause_columnText {model : Schema} {obj : List (String × Json)} {name text : String}
    (h : columnText model obj name = some text) : dialect.Clause 0 text := by
  obtain ⟨v, _, rfl⟩ := Option.map_eq_some_iff.mp h
  exact clause_quoteValue (callable_generateInsertFunction _) v

theorem toMergeSql_readable {record : Record} {model : Schema} (htable : Named record.table)
    (hcolumns : ∀ name ∈ model.columns, Named name) :
    dialect.Phrase 1 (toMergeSql record model).render := by
  refine phrase_merge ⟨htable, clause_quoteValue callable_none _,
    clause_quoteValue callable_none _, ?_, ?_⟩
  · intro s hs
    obtain ⟨name, hname, hs⟩ := List.mem_filterMap.mp hs
    obtain ⟨text, htext, rfl⟩ := Option.map_eq_some_iff.mp hs
    exact ⟨hcolumns name hname, clause_columnText htext⟩
  · intro s hs
    obtain ⟨name, hname, rfl⟩ := List.mem_map.mp hs
    refine ⟨hcolumns name hname, ?_⟩
    show dialect.Clause 0 ((columnText model (record.object.getD []) name).getD _)
    cases htext : columnText model (record.object.getD []) name with
    | none => exact clause_nullableValue _ _
    | some text => exact clause_columnText htext

/-! ## The count that is added up -/

/-- `to_sql`: the text and the number of statements. -/
def toSqlText (record : Record) (model : Schema) (exists' : Bool) : String × Nat :=
  let first := if exists' || record.operation == "DELETE" then
      ("" ++ (toDeleteSql record).render, 0 + 1)
    else ("", 0)
  if record.operation == "DELETE" then first
  else (first.1 ++ (toMergeSql record model).render, first.2 + 1)

structure PlanText where
  query : String
  statementCount : Nat

def planTextRecord (registry : SchemaRegistry) (trackerHasKey : String → Bool) (plan : PlanText)
    (record : Record) : Except Exn PlanText :=
  if skipped record then .ok plan
  else do
    let schema ← registry.schemaOf record.table
    let (s, c) := toSqlText record schema (forced trackerHasKey record)
    pure ⟨plan.query ++ s, plan.statementCount + c⟩

/-- The query and the count of `plan_flush`. -/
def planFlushText (records : List Record) (registry : SchemaRegistry)
    (trackerHasKey : String → Bool) : Except Exn PlanText :=
  records.foldlM (planTextRecord registry trackerHasKey) ⟨"", 0⟩

def planAppendRecord (registry : SchemaRegistry) (query : String) (record : Record) :
    Except Exn String := do
  let schema ← registry.schemaOf record.table
  let a ← toAppendSql record schema
  pure (query ++ renderAppend a)

def planFlushAppend (records : List Record) (registry : SchemaRegistry) : Except Exn PlanText := do
  let query ← records.foldlM (planAppendRecord registry) ""
  pure ⟨query, records.length⟩

/-- The text of the statements that are planned, and their number. -/
def FlushPlan.text (plan : FlushPlan) : PlanText := ⟨plan.query, plan.statementCount⟩

theorem toSqlText_eq (record : Record) (model : Schema) (exists' : Bool) :
    toSqlText record model exists' =
      (String.join ((toSql record model exists').map Statement.render),
        (toSql record model exists').length) := by
  unfold toSqlText toSql
  cases exists' <;> cases record.operation == "DELETE" <;>
    simp [String.join_cons, String.join_nil]

theorem planFlushText_eq (records : List Record) (registry : SchemaRegistry)
    (trackerHasKey : String → Bool) :
    planFlushText records registry trackerHasKey =
      (planFlush records registry trackerHasKey).map FlushPlan.text := by
  have hfold : ∀ (records : List Record) (plan : FlushPlan),
      records.foldlM (planTextRecord registry trackerHasKey) plan.text =
        (records.foldlM (planRecord registry trackerHasKey) plan).map FlushPlan.text := by
    intro records
    induction records with
    | nil => intro plan; rfl
    | cons r rest ih =>
      intro plan
      have hstep : planTextRecord registry trackerHasKey plan.text r =
          (planRecord registry trackerHasKey plan r).map FlushPlan.text := by
        unfold planTextRecord planRecord
        split
        · rfl
        · cases registry.schemaOf r.table with
          | error e => rfl
          | ok schema =>
            simp only [toSqlText_eq]
            show Except.ok _ = Except.ok _
            simp [FlushPlan.text, FlushPlan.query, FlushPlan.statementCount, String.join_append]
      rw [List.foldlM_cons, List.foldlM_cons, hstep]
      cases planRecord registry trackerHasKey plan r with
      | error e => rfl
      | ok next => exact ih next
  exact hfold records ⟨[], [], []⟩

/-! ## What the server counts -/

theorem toSql_phrases {record : Record} {model : Schema} (htable : Named record.table)
    (hcolumns : ∀ name ∈ model.columns, Named name) (exists' : Bool) :
    ∀ statement ∈ toSql record model exists', dialect.Phrase 1 statement.render := by
  intro statement hmem
  rcases List.mem_append.mp hmem with hmem | hmem
  · split at hmem
    · rw [List.mem_singleton.mp hmem]
      exact phrase_delete htable (clause_quoteValue callable_none _)
    · cases hmem
  · split at hmem
    · cases hmem
    · rw [List.mem_singleton.mp hmem]
      exact toMergeSql_readable htable hcolumns

/-- The tables and columns of the batch have no double quotes. -/
def Readable (records : List Record) (registry : SchemaRegistry) : Prop :=
  ∀ r ∈ records, Named r.table ∧
    ∀ schema, registry.schemaOf r.table = .ok schema → ∀ name ∈ schema.columns, Named name

theorem planFlush_phrases {records : List Record} {registry : SchemaRegistry}
    {trackerHasKey : String → Bool} {plan : FlushPlan} (h : Readable records registry)
    (hplan : planFlush records registry trackerHasKey = .ok plan) :
    dialect.Phrase plan.statementCount plan.query := by
  have hall : ∀ statement ∈ plan.statements, dialect.Phrase 1 statement.render := by
    refine foldlM_invariant (P := fun plan : FlushPlan =>
      ∀ statement ∈ plan.statements, dialect.Phrase 1 statement.render) ?_ ?_ hplan
    · intro plan r next hr hbefore hnext
      unfold planRecord at hnext
      split at hnext
      · cases hnext
        exact hbefore
      · obtain ⟨schema, hschema, hnext⟩ := bind_eq_ok.mp hnext
        cases hnext
        intro statement hmem
        rcases List.mem_append.mp hmem with hmem | hmem
        · exact hbefore statement hmem
        · exact toSql_phrases (h r hr).1 ((h r hr).2 schema hschema) _ statement hmem
    · intro statement hmem
      cases hmem
  have hjoin := Phrase.join (List.forall_mem_map.mpr hall)
  rw [List.length_map] at hjoin
  exact hjoin

/-- Digits, signs, points and exponents, or nothing. -/
def Numeric (s : String) : Prop :=
  ∀ c ∈ s.toList, c.isDigit = true ∨ c ∈ ['+', '-', '.', 'e', 'E']

theorem clause_numeric {s : String} (h : Numeric s) : dialect.Clause 0 s := by
  refine (Phrase.inert (List.all_eq_true.mpr fun c hc => ?_)).clause
  rw [inert_iff]
  rcases h c hc with hdigit | hother
  · refine ⟨?_, ?_, ?_⟩ <;> intro hgiven <;> subst hgiven <;> cases hdigit
  · refine ⟨?_, ?_, ?_⟩ <;> intro hgiven <;> subst hgiven <;> revert hother <;> decide

theorem clause_mvccText {mvcc : Json} {text : String} (hnumeric : ∀ s, mvcc = .str s → Numeric s)
    (h : mvccText mvcc = .ok text) : dialect.Clause 0 text := by
  unfold mvccText at h
  split at h
  · cases h
    exact clause_word (s := "NULL") rfl
  · split at h
    · cases h
      exact clause_numeric (hnumeric _ rfl)
    · cases h

/-- What an append is written from. -/
structure AppendReadable (a : Append) : Prop where
  table : Named a.table
  values : ∀ v ∈ a.values, Named v.1 ∧ dialect.Clause 0 v.2
  operation : dialect.Clause 0 a.operationText
  mvcc : dialect.Clause 0 a.mvcc

/-- An append without its semicolon. -/
theorem clause_append {a : Append} (h : AppendReadable a) :
    dialect.Clause 0 ("INSERT INTO " ++ quoteIdentifier a.table ++ " (" ++
      a.columnsText quoteIdentifier ++ ")\nSELECT " ++ a.valuesText) := by
  have haudit : ∀ name ∈ auditColumns, Named name := by decide
  have hcolumns : dialect.Clause 0 (a.columnsText quoteIdentifier) := by
    refine clause_commas rfl (List.forall_mem_map.mpr fun name hname => clause_quoteIdentifier ?_)
    rcases List.mem_append.mp hname with hname | hname
    · obtain ⟨v, hv, rfl⟩ := List.mem_map.mp hname
      exact (h.values v hv).1
    · exact haudit name hname
  have hvalues : dialect.Clause 0 a.valuesText := by
    refine clause_commas rfl fun text htext => ?_
    rcases List.mem_append.mp htext with htext | htext
    · obtain ⟨v, hv, rfl⟩ := List.mem_map.mp htext
      exact (h.values v hv).2
    · rcases List.mem_cons.mp htext with rfl | htext
      · exact h.operation
      rcases List.mem_cons.mp htext with rfl | htext
      · exact h.mvcc
      · rw [List.mem_singleton.mp htext]
        exact (bare_int readsBare _).1.clause
  have hinto : dialect.Phrase 0 "INSERT INTO " := Phrase.inert rfl
  have hopen := phrase_then (hinto.append_clause (clause_quoteIdentifier h.table)) " (" rfl
    (List.cons_ne_nil _ _)
  have hselect := phrase_then (hopen.append_clause hcolumns) ")\nSELECT " rfl (List.cons_ne_nil _ _)
  exact hselect.append_clause hvalues

theorem phrase_append {a : Append} (h : AppendReadable a) : dialect.Phrase 1 (renderAppend a) :=
  (clause_append h).terminated rfl rfl

/-- The columns of an append, and its timestamp. -/
def appendValues (record : Record) (model : Schema) : Except Exn (List (String × String)) :=
  if record.operation == "DELETE" then
    model.columns.mapM fun name =>
      match model.primaryKeys.idxOf? name with
      | some i => do
        let v ← tombstoneKey record i
        pure (name, quoteValue v "")
      | none => pure (name, "NULL")
  else .ok (model.columns.map fun name =>
    (name, (columnText model (record.object.getD []) name).getD "NULL"))

def appendMvcc (record : Record) : Except Exn String :=
  match record.event with
  | some event => mvccText event.mvccTimestamp
  | none => .ok "NULL"

theorem toAppendSql_eq (record : Record) (model : Schema) :
    toAppendSql record model = (do
      let values ← appendValues record model
      let mvcc ← appendMvcc record
      pure ⟨record.table, values, .str record.operation, quoteValue (.str record.operation) "", mvcc,
        (record.event.map DBChangeEvent.timestamp).getD 0⟩) := by
  unfold toAppendSql appendValues appendMvcc
  cases record.operation == "DELETE" <;> cases record.event <;> rfl

theorem appendValues_readable {record : Record} {model : Schema} {values : List (String × String)}
    (hcolumns : ∀ name ∈ model.columns, Named name) (h : appendValues record model = .ok values) :
    ∀ v ∈ values, Named v.1 ∧ dialect.Clause 0 v.2 := by
  intro v hv
  unfold appendValues at h
  split at h
  · obtain ⟨name, hname, hv⟩ := exists_of_mem_mapM h hv
    split at hv
    · obtain ⟨key, _, hv⟩ := bind_eq_ok.mp hv
      cases hv
      exact ⟨hcolumns name hname, clause_quoteValue callable_none key⟩
    · cases hv
      exact ⟨hcolumns name hname, clause_word (s := "NULL") rfl⟩
  · cases h
    obtain ⟨name, hname, rfl⟩ := List.mem_map.mp hv
    refine ⟨hcolumns name hname, ?_⟩
    show dialect.Clause 0 ((columnText model (record.object.getD []) name).getD "NULL")
    cases htext : columnText model (record.object.getD []) name with
    | none => exact clause_word (s := "NULL") rfl
    | some text => exact clause_columnText htext

theorem toAppendSql_readable {record : Record} {model : Schema} {a : Append}
    (htable : Named record.table) (hcolumns : ∀ name ∈ model.columns, Named name)
    (hmvcc : ∀ event, record.event = some event → ∀ s, event.mvccTimestamp = .str s → Numeric s)
    (h : toAppendSql record model = .ok a) : AppendReadable a := by
  rw [toAppendSql_eq] at h
  obtain ⟨values, hvalues, h⟩ := bind_eq_ok.mp h
  obtain ⟨mvcc, hmvccText, h⟩ := bind_eq_ok.mp h
  cases h
  refine ⟨htable, appendValues_readable hcolumns hvalues, clause_quoteValue callable_none _, ?_⟩
  unfold appendMvcc at hmvccText
  split at hmvccText
  next event hevent => exact clause_mvccText (hmvcc event hevent) hmvccText
  · cases hmvccText
    exact clause_word (s := "NULL") rfl

/-- The timestamps of the events are numbers, or empty. -/
def NumericClocks (records : List Record) : Prop :=
  ∀ r ∈ records, ∀ event, r.event = some event → ∀ s, event.mvccTimestamp = .str s → Numeric s

theorem planAppend_phrase {records : List Record} {registry : SchemaRegistry} {query query' : String}
    {n : Nat} (h : Readable records registry) (hmvcc : NumericClocks records)
    (hquery : dialect.Phrase n query)
    (hplan : records.foldlM (planAppendRecord registry) query = .ok query') :
    dialect.Phrase (n + records.length) query' := by
  induction records generalizing n query with
  | nil =>
    cases hplan
    exact hquery
  | cons r rest ih =>
    rw [List.foldlM_cons] at hplan
    obtain ⟨next, hnext, hplan⟩ := bind_eq_ok.mp hplan
    obtain ⟨schema, hschema, hnext⟩ := bind_eq_ok.mp hnext
    obtain ⟨a, ha, hnext⟩ := bind_eq_ok.mp hnext
    cases hnext
    have hr := h r List.mem_cons_self
    have hreadable := toAppendSql_readable hr.1 (hr.2 schema hschema) (hmvcc r List.mem_cons_self) ha
    have hall := ih (fun r' hr' => h r' (List.mem_cons_of_mem r hr'))
      (fun r' hr' => hmvcc r' (List.mem_cons_of_mem r hr')) (hquery.append (phrase_append hreadable))
      hplan
    rw [List.length_cons, Nat.add_comm rest.length 1, ← Nat.add_assoc]
    exact hall

/-- The count that goes with a query is the number of statements in it. -/
theorem statementCount_exact {records : List Record} {registry : SchemaRegistry}
    (trackerHasKey : String → Bool) (h : Readable records registry) (hmvcc : NumericClocks records) :
    (∀ plan, planFlushText records registry trackerHasKey = .ok plan →
      ∃ tokens, dialect.read plan.query = some tokens ∧
        statementCount tokens = plan.statementCount) ∧
    ∀ plan, planFlushAppend records registry = .ok plan →
      ∃ tokens, dialect.read plan.query = some tokens ∧
        statementCount tokens = plan.statementCount := by
  constructor
  · intro plan hplan
    rw [planFlushText_eq] at hplan
    cases hflush : planFlush records registry trackerHasKey with
    | error e =>
      rw [hflush] at hplan
      cases hplan
    | ok flush =>
      rw [hflush] at hplan
      cases hplan
      exact (planFlush_phrases h hflush).counted
  · intro plan hplan
    obtain ⟨query, hquery, hplan⟩ := bind_eq_ok.mp hplan
    cases hplan
    have hall := planAppend_phrase h hmvcc Phrase.empty hquery
    rw [Nat.zero_add] at hall
    exact hall.counted

def keyedSchema : Schema where
  properties := Dict.empty
  primaryKeys := ["id"]
  table := "user"
  modelVersion := "1"

def keyedRegistry : SchemaRegistry where
  getTableVersion := fun _ => .ok (true, "1")
  getSchema := fun _ _ => .ok keyedSchema

/-- An id that tries to end its literal. -/
def quotedInsert : Record where
  table := "user"
  id := "1\\'; DROP"
  operation := "INSERT"
  diff := none
  object := some [("id", .str "1\\'; DROP")]
  event := none

theorem statementCount_exact_quotedInsert :
    ∃ plan, planFlushText [quotedInsert] keyedRegistry (fun _ => true) = .ok plan ∧
      plan.statementCount = 2 ∧
      ∃ tokens, dialect.read plan.query = some tokens ∧
        statementCount tokens = plan.statementCount := by
  have hplan : ∃ plan, planFlushText [quotedInsert] keyedRegistry (fun _ => true) = .ok plan ∧
      plan.statementCount = 2 := ⟨_, rfl, rfl⟩
  obtain ⟨plan, hplan, hcount⟩ := hplan
  refine ⟨plan, hplan, hcount, (statementCount_exact (fun _ => true) ?_ ?_).1 plan hplan⟩
  · intro r hr
    rw [List.mem_singleton.mp hr]
    refine ⟨by decide, fun schema hschema name hname => ?_⟩
    cases hschema
    have hcolumns : keyedSchema.columns = ["id"] := by
      simp [Schema.columns, keyedSchema, Dict.empty, Dict.keys]
    rw [hcolumns, List.mem_singleton] at hname
    rw [hname]
    decide
  · intro r hr event hevent
    rw [List.mem_singleton.mp hr] at hevent
    cases hevent

end Snowflake
end Drivers
end Eds
