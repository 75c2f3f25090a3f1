import Eds.Drivers.Appended
import Eds.Drivers.Sqlserver.Redelivery
import Eds.Drivers.Lexing

/-!
# What an append writes of a row

An append writes the values of an upsert, but a column of the history may always be null: a
column that is missing is not given a default, and nothing is coerced.
-/

namespace Eds
namespace Drivers

open Util Collections

/-- A column that is missing where an upsert writes an empty list or object for it. -/
def Defaulted (model : Schema) (o : List (String × Json)) (name : String) : Prop :=
  o.lookup name = none ∧ (model.property name).isArrayOrJson = true ∧
    (model.property name).isNotNull = true

/-- The two lists have the same value for the column, unless it is an exception; then the
append has `NULL`. -/
structure AgreesUnless (exception : Prop) (append upsert : List (String × String)) (name : String) :
    Prop where
  same_iff : append.lookup name = upsert.lookup name ↔ ¬exception
  null : exception → append.lookup name = some "NULL"

variable {model : Schema} {o : List (String × Json)} {name : String}

theorem agreesUnless_map {exception : Prop} {f g : String → String} (hname : name ∈ model.columns)
    (hsame : f name = g name ↔ ¬exception) (hnull : exception → f name = "NULL") :
    AgreesUnless exception (model.columns.map fun c => (c, f c))
      (model.columns.map fun c => (c, g c)) name := by
  constructor
  · rw [List.lookup_graph f hname, List.lookup_graph g hname, Option.some_inj]
    exact hsame
  · intro h
    rw [List.lookup_graph f hname, hnull h]

theorem null_eq_iff (prop : SchemaProperty) :
    "NULL" = toJsonStringVal "NULL" prop true ↔
      ¬(prop.isArrayOrJson = true ∧ prop.isNotNull = true) := by
  rw [toJsonStringVal_null, ← Bool.and_eq_true]
  split
  next h =>
    refine iff_of_false ?_ (not_not_intro h)
    split <;> decide
  next h => exact iff_of_true rfl h

namespace Postgresql

theorem appendText_eq_iff :
    appendText model o name = columnText model o name ↔ ¬Defaulted model o name := by
  unfold appendText columnText Defaulted
  cases o.lookup name with
  | some v => exact iff_of_true rfl fun h => nomatch h.1
  | none =>
    simp only [null_eq_iff, true_and]

theorem appendText_null (h : Defaulted model o name) : appendText model o name = "NULL" := by
  rw [appendText, h.1]

/-- The statement of an event that deletes nothing. -/
theorem toSql_values {c : DBChangeEvent} (hop : c.operation.eqStr "DELETE" = false)
    {table : String} {values : List (String × String)} {sets : List SetItem}
    (h : toSql c model = .ok (.upsert table values sets)) :
    values = model.columns.map fun name => (name, columnText model (afterObject c) name) := by
  rw [toSql, hop, if_neg Bool.false_ne_true, toSqlFromObject] at h
  split at h
  · obtain ⟨names, _, h⟩ := bind_eq_ok.mp h
    obtain ⟨sets', _, h⟩ := bind_eq_ok.mp h
    obtain ⟨table', _, h⟩ := bind_eq_ok.mp h
    cases h
    rfl
  · obtain ⟨sets', _, h⟩ := bind_eq_ok.mp h
    obtain ⟨table', _, h⟩ := bind_eq_ok.mp h
    cases h
    rfl

theorem toAppendSql_values {c : DBChangeEvent} (hop : c.operation.eqStr "DELETE" = false) {a : Append}
    (h : toAppendSql c model = .ok a) :
    a.values = model.columns.map fun name => (name, appendText model (afterObject c) name) := by
  have hvalues := (appends h).change hop
  rw [rowValues] at hvalues
  exact (Except.ok.inj (List.mapM_pure.symm.trans hvalues)).symm

end Postgresql

namespace Mysql

theorem appendText_eq_iff {t u : String} (happend : appendText model o name = .ok t)
    (hupsert : columnText model o name = .ok u) : t = u ↔ ¬Defaulted model o name := by
  unfold appendText at happend
  unfold columnText at hupsert
  unfold Defaulted
  cases ho : o.lookup name with
  | some v =>
    rw [ho] at happend hupsert
    rw [happend] at hupsert
    cases hupsert
    exact iff_of_true rfl fun h => nomatch h.1
  | none =>
    rw [ho] at happend hupsert
    cases happend
    cases hupsert
    simp only [null_eq_iff, true_and]

theorem appendText_null {t : String} (h : Defaulted model o name)
    (happend : appendText model o name = .ok t) : t = "NULL" := by
  rw [appendText, h.1] at happend
  exact (Except.ok.inj happend).symm

theorem toSql_values {c : DBChangeEvent} (hop : c.operation.eqStr "DELETE" = false)
    {table : String} {values : List (String × String)}
    (h : toSql c model = .ok (.replace table values)) :
    ∃ f : String → String, values = model.columns.map (fun name => (name, f name)) ∧
      ∀ name ∈ model.columns, columnText model (getObject c) name = .ok (f name) := by
  rw [toSql, hop, if_neg Bool.false_ne_true, toSqlFromObject] at h
  obtain ⟨values', hvalues, h⟩ := bind_eq_ok.mp h
  obtain ⟨table', _, h⟩ := bind_eq_ok.mp h
  cases h
  exact mapM_pair hvalues

theorem toAppendSql_values {c : DBChangeEvent} (hop : c.operation.eqStr "DELETE" = false) {a : Append}
    (h : toAppendSql c model = .ok a) :
    ∃ f : String → String, a.values = model.columns.map (fun name => (name, f name)) ∧
      ∀ name ∈ model.columns, appendText model (getObject c) name = .ok (f name) :=
  mapM_pair ((appends h).change hop)

end Mysql

namespace Sqlserver

/-- The id is not coerced, as the statement is not built without it. -/
theorem updateText_eq_iff {t u : String} {v : Json} (hid : o.lookup "id" = some v)
    (happend : updateText model o name = .ok t) (hupsert : insertText model o name = .ok u) :
    t = u ↔ ¬(name ≠ "id" ∧ Coerced model o name) := by
  by_cases hname : name = "id"
  · subst hname
    rw [updateText, hid] at happend
    simp only [insertText, hid, happend, bind, Except.bind, pure, Except.pure, if_true] at hupsert
    cases hupsert
    exact iff_of_true rfl fun h => h.1 rfl
  · rw [insertText_eq hname happend] at hupsert
    cases hupsert
    rcases handled_cases happend with
      ⟨hcoerced, hsame⟩ | ⟨hcoerced, rfl, ⟨_, hzero⟩ | ⟨_, hempty⟩⟩
    · exact iff_of_true hsame.symm fun h => hcoerced h.2
    · rw [hzero]
      exact iff_of_false (by decide) (not_not_intro ⟨hname, hcoerced⟩)
    · rw [hempty]
      exact iff_of_false (by decide) (not_not_intro ⟨hname, hcoerced⟩)

theorem updateText_null {t : String} (h : Coerced model o name)
    (happend : updateText model o name = .ok t) : t = "NULL" := by
  rcases handled_cases happend with ⟨hcoerced, _⟩ | ⟨_, hnull, _⟩
  · exact absurd h hcoerced
  · exact hnull

theorem toAppendSql_values {c : DBChangeEvent} (hop : c.operation.eqStr "DELETE" = false) {a : Append}
    (h : toAppendSql c model = .ok a) :
    ∃ f : String → String, a.values = model.columns.map (fun name => (name, f name)) ∧
      ∀ name ∈ model.columns, updateText model (getObject c) name = .ok (f name) :=
  mapM_pair ((appends h).change hop)

end Sqlserver

/-- An append and an upsert of one event have the same values, but for a list or an object that
is missing where it must not be null, and for what SQL Server coerces where it inserts. -/
theorem append_agrees_unless {c : DBChangeEvent} (hop : c.operation.eqStr "DELETE" = false)
    (hname : name ∈ model.columns) :
    (∀ table values sets a, Postgresql.toSql c model = .ok (.upsert table values sets) →
      Postgresql.toAppendSql c model = .ok a →
        AgreesUnless (Defaulted model (afterObject c) name) a.values values name) ∧
    (∀ table values a, Mysql.toSql c model = .ok (.replace table values) →
      Mysql.toAppendSql c model = .ok a →
        AgreesUnless (Defaulted model (getObject c) name) a.values values name) ∧
    ∀ str m a, Sqlserver.toSql str c model = .ok (.merge m) → Sqlserver.toAppendSql c model = .ok a →
      AgreesUnless (name ≠ "id" ∧ Sqlserver.Coerced model (getObject c) name) a.values m.inserts
        name := by
  refine ⟨fun table values sets a hupsert happend => ?_, fun table values a hupsert happend => ?_,
    fun str m a hupsert happend => ?_⟩
  · rw [Postgresql.toSql_values hop hupsert, Postgresql.toAppendSql_values hop happend]
    exact agreesUnless_map hname Postgresql.appendText_eq_iff Postgresql.appendText_null
  · obtain ⟨upsert, hvalues, hupsert⟩ := Mysql.toSql_values hop hupsert
    obtain ⟨append, happended, happend⟩ := Mysql.toAppendSql_values hop happend
    rw [hvalues, happended]
    exact agreesUnless_map hname (Mysql.appendText_eq_iff (happend name hname) (hupsert name hname))
      fun h => Mysql.appendText_null h (happend name hname)
  · rw [Sqlserver.toSql, hop, if_neg Bool.false_ne_true] at hupsert
    obtain ⟨names, update, insert, htexts⟩ := Sqlserver.toSqlFromObject_texts hupsert
    obtain ⟨append, happended, happend⟩ := Sqlserver.toAppendSql_values hop happend
    obtain ⟨v, hid, -⟩ := htexts.source
    rw [happended, htexts.inserts]
    exact agreesUnless_map hname
      (Sqlserver.updateText_eq_iff hid (happend name hname) (htexts.insert name hname))
      fun h => Sqlserver.updateText_null h.2 (happend name hname)

/-! ### A user without tags -/

def tagged : Schema where
  properties := ⟨[("id", ⟨"string", "", false, none⟩), ("tags", ⟨"array", "", true, none⟩)],
    by decide⟩
  primaryKeys := ["id"]
  table := "user"
  modelVersion := "v1"

theorem tagged_columns : tagged.columns = ["id", "tags"] := by
  simp [Schema.columns, tagged, Dict.keys]

def insertedUser : DBChangeEvent where
  operation := .str "INSERT"
  table := .str "user"
  modelVersion := .str "v1"
  object := some [("id", .str "u1")]
  diff := .null
  timestamp := 0
  schemaValidatedPath := none
  after := some (.obj [("id", .str "u1")])

theorem insertedUser_upsert : ∃ table sets, Postgresql.toSql insertedUser tagged =
    .ok (.upsert table (tagged.columns.map fun name =>
      (name, Postgresql.columnText tagged (afterObject insertedUser) name)) sets) := ⟨_, _, rfl⟩

theorem insertedUser_append : ∃ a, Postgresql.toAppendSql insertedUser tagged = .ok a := ⟨_, rfl⟩

/-- The upsert stores an empty list, the append a null. -/
theorem append_null_tags : ∃ table values sets a,
    Postgresql.toSql insertedUser tagged = .ok (.upsert table values sets) ∧
      Postgresql.toAppendSql insertedUser tagged = .ok a ∧
      values.lookup "tags" = some "'[]'" ∧ a.values.lookup "tags" = some "NULL" := by
  obtain ⟨table, sets, hupsert⟩ := insertedUser_upsert
  obtain ⟨a, happend⟩ := insertedUser_append
  have hname : "tags" ∈ tagged.columns := by
    rw [tagged_columns]
    exact List.mem_cons_of_mem _ List.mem_cons_self
  refine ⟨table, _, sets, a, hupsert, happend, ?_, ?_⟩
  · rw [List.lookup_graph _ hname]
    show some (toJsonStringVal "NULL" (tagged.property "tags") true) = _
    rw [toJsonStringVal_null]
    rfl
  · rw [Postgresql.toAppendSql_values (by decide) happend, List.lookup_graph _ hname]
    rfl

theorem append_agrees_unless_id : ∃ table values sets a,
    Postgresql.toSql insertedUser tagged = .ok (.upsert table values sets) ∧
      Postgresql.toAppendSql insertedUser tagged = .ok a ∧
      a.values.lookup "id" = values.lookup "id" := by
  obtain ⟨table, sets, hupsert⟩ := insertedUser_upsert
  obtain ⟨a, happend⟩ := insertedUser_append
  have hname : "id" ∈ tagged.columns := by
    rw [tagged_columns]
    exact List.mem_cons_self
  have hall := append_agrees_unless (c := insertedUser) (by decide) hname
  exact ⟨table, _, sets, a, hupsert, happend,
    (hall.1 _ _ _ _ hupsert happend).same_iff.mpr fun h => nomatch h.1⟩

end Drivers
end Eds
