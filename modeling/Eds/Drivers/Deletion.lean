import Eds.Drivers.Appended
import Eds.Drivers.Refinement
import Eds.Drivers.S3.Flush

/-!
# The row that a deletion addresses

The id of an object is the last element of its key.  PostgreSQL, MySQL and SQL Server take
the elements of the key in the order of the primary keys, and so take the first for the id.
-/

namespace Eds
namespace Drivers

open Util Collections

variable {V : Type}

/-- The statement deletes the row whose id is the value. -/
def Deletes [DecidableEq V] (engine : Engine V) (quote : Json → Except Exn String) (v : Json)
    (exec : Table V → Table V) : Prop :=
  ∃ text, quote v = .ok text ∧ ∀ t, exec t = t.delete (engine.eval "id" text)

/-- The row of the history has the value for its id. -/
def Buries (engine : Engine V) (quote : Json → Except Exn String) (v : Json)
    (values : List (String × String)) : Prop :=
  ∃ text text', quote v = .ok text ∧ values.lookup "id" = some text' ∧
    engine.eval "id" text' = engine.eval "id" text

/-- The server takes the literals of the two values for the same id. -/
def Coincide (engine : Engine V) (quote : Json → Except Exn String) (v v' : Json) : Prop :=
  ∃ text text', quote v = .ok text ∧ quote v' = .ok text' ∧
    engine.eval "id" text = engine.eval "id" text'

section Keys

variable {engine : Engine V} {quote : Json → Except Exn String} {v v' : Json} {text : String}

theorem delete_inj [DecidableEq V] {a b : Option V} :
    (∀ t : Table V, t.delete a = t.delete b) ↔ a = b := by
  have hgone : ∀ {a b : Option V}, (∀ t : Table V, t.delete a = t.delete b) → ∀ k, a = some k →
      b = some k := by
    intro a b h k ha
    subst ha
    -- in a table with a row for every key, the key that is missing afterwards tells what was deleted
    have hrow : (Table.delete b (fun _ => some Row.blank) : Table V) k = none := by
      rw [← h, Table.delete, Function.update_self]
    cases b with
    | none => cases hrow
    | some k' =>
      by_contra hne
      have hk : k ≠ k' := fun hk => hne (congrArg some hk.symm)
      rw [Table.delete, Function.update_of_ne hk] at hrow
      cases hrow
  constructor
  · intro h
    cases a with
    | some k => exact (hgone h k rfl).symm
    | none =>
      cases b with
      | none => rfl
      | some k => exact hgone (fun t => (h t).symm) k rfl
  · intro h t
    rw [h]

theorem deletes_iff [DecidableEq V] (htext : quote v = .ok text) :
    Deletes engine quote v' (Table.deleteWhere engine [("id", text)]) ↔ Coincide engine quote v v' := by
  constructor
  · intro hgiven
    obtain ⟨text', htext', h⟩ := hgiven
    refine ⟨text, text', htext, htext', delete_inj.mp fun t => ?_⟩
    rw [← Table.deleteWhere_id]
    exact h t
  · intro hgiven
    obtain ⟨text₀, text', htext₀, htext', h⟩ := hgiven
    rw [htext] at htext₀
    cases htext₀
    refine ⟨text', htext', fun t => ?_⟩
    rw [Table.deleteWhere_id, h]

theorem buries_iff (htext : quote v = .ok text) {values : List (String × String)}
    (hvalues : values.lookup "id" = some text) :
    Buries engine quote v' values ↔ Coincide engine quote v v' := by
  constructor
  · intro hgiven
    obtain ⟨text', text₀, htext', hlookup, h⟩ := hgiven
    rw [hvalues] at hlookup
    cases hlookup
    exact ⟨text, text', htext, htext', h⟩
  · intro hgiven
    obtain ⟨text₀, text', htext₀, htext', h⟩ := hgiven
    rw [htext] at htext₀
    cases htext₀
    exact ⟨text', text, htext', hvalues, h⟩

theorem keyAt_zero {vs : List Json} (hne : vs ≠ []) : keyAt (.arr vs) 0 = .ok (vs.head hne) := by
  cases vs with
  | nil => exact absurd rfl hne
  | cons v rest => rfl

theorem getPrimaryKey_arr {evt : DBChangeEvent} {vs : List Json} (hkey : evt.key = .arr vs)
    (hne : vs ≠ []) : S3.getPrimaryKey evt = .ok (vs.getLast hne) := by
  have hfalsy : isFalsy (.arr vs) = false := by
    cases vs with
    | nil => exact absurd rfl hne
    | cons v rest => rfl
  rw [S3.getPrimaryKey, hkey, if_neg (by rw [hfalsy]; decide)]
  simp only [List.getLast?_eq_some_getLast hne]

end Keys

section Events

variable {model : Schema} {evt : DBChangeEvent} {vs : List Json} (hne : vs ≠ [])

theorem Postgresql.toSql_head (hpk : model.primaryKeys = ["id"])
    (hdelete : evt.operation.eqStr "DELETE" = true) (hkey : evt.key = .arr vs)
    {s : Postgresql.Statement} (h : Postgresql.toSql evt model = .ok s) :
    ∃ table, s = .delete table [("id", Postgresql.quoteValue (vs.head hne))] := by
  obtain ⟨table, v, hv, rfl⟩ := Postgresql.toSql_delete hpk hdelete h
  rw [hkey, keyAt_zero hne] at hv
  cases hv
  exact ⟨table, rfl⟩

theorem Mysql.toSql_head (hpk : model.primaryKeys = ["id"])
    (hdelete : evt.operation.eqStr "DELETE" = true) (hkey : evt.key = .arr vs)
    {s : Mysql.Statement} (h : Mysql.toSql evt model = .ok s) :
    ∃ table text, Mysql.quoteValue (vs.head hne) = .ok text ∧ s = .delete table [("id", text)] := by
  obtain ⟨table, v, text, hv, htext, rfl⟩ := Mysql.toSql_delete hpk hdelete h
  rw [hkey, keyAt_zero hne] at hv
  cases hv
  exact ⟨table, text, htext, rfl⟩

theorem Sqlserver.toSql_head (str : Json → String) (hpk : model.primaryKeys = ["id"])
    (hdelete : evt.operation.eqStr "DELETE" = true) (hkey : evt.key = .arr vs)
    {s : Sqlserver.Statement} (h : Sqlserver.toSql str evt model = .ok s) :
    ∃ table text, Sqlserver.quoteValue (vs.head hne) = .ok text ∧ s = .delete table [("id", text)] := by
  rw [Sqlserver.toSql, if_pos hdelete, hpk] at h
  obtain ⟨conds, hconds, h⟩ := bind_eq_ok.mp h
  obtain ⟨table, _, h⟩ := bind_eq_ok.mp h
  cases h
  obtain ⟨v, text, hv, htext, rfl⟩ := conditions_id Sqlserver.quoteValue hconds
  rw [hkey, keyAt_zero hne] at hv
  cases hv
  exact ⟨table, text, htext, rfl⟩

/-- The id that a tombstone has is the first element of the key. -/
theorem tombstone_head {quote : Json → Except Exn String} (hpk : model.primaryKeys = ["id"])
    (hkey : evt.key = .arr vs) {values : List (String × String)}
    (h : tombstoneValues quote evt model = .ok values) :
    ∃ text, quote (vs.head hne) = .ok text ∧ values.lookup "id" = some text := by
  obtain ⟨v, text, hv, htext, rfl⟩ := tombstone_values quote hpk h
  rw [hkey, keyAt_zero hne] at hv
  cases hv
  refine ⟨text, htext, ?_⟩
  rw [List.lookup_graph (fun c => if c = "id" then text else "NULL") (columns_id hpk), if_pos rfl]

theorem Postgresql.toAppendSql_head (hpk : model.primaryKeys = ["id"])
    (hdelete : evt.operation.eqStr "DELETE" = true) (hkey : evt.key = .arr vs) {a : Append}
    (h : Postgresql.toAppendSql evt model = .ok a) :
    a.values.lookup "id" = some (Postgresql.quoteValue (vs.head hne)) := by
  obtain ⟨text, htext, hlookup⟩ := tombstone_head hne hpk hkey ((appends h).deletion hdelete)
  cases htext
  exact hlookup

theorem Mysql.toAppendSql_head (hpk : model.primaryKeys = ["id"])
    (hdelete : evt.operation.eqStr "DELETE" = true) (hkey : evt.key = .arr vs) {a : Append}
    (h : Mysql.toAppendSql evt model = .ok a) :
    ∃ text, Mysql.quoteValue (vs.head hne) = .ok text ∧ a.values.lookup "id" = some text :=
  tombstone_head hne hpk hkey ((appends h).deletion hdelete)

theorem Sqlserver.toAppendSql_head (hpk : model.primaryKeys = ["id"])
    (hdelete : evt.operation.eqStr "DELETE" = true) (hkey : evt.key = .arr vs) {a : Append}
    (h : Sqlserver.toAppendSql evt model = .ok a) :
    ∃ text, Sqlserver.quoteValue (vs.head hne) = .ok text ∧ a.values.lookup "id" = some text :=
  tombstone_head hne hpk hkey ((appends h).deletion hdelete)

end Events

/-- PostgreSQL writes every value. -/
def Postgresql.quote (v : Json) : Except Exn String := .ok (Postgresql.quoteValue v)

/-- Snowflake deletes the row of the last element of the key, which is the id of the object.  The
others delete it, and bury it in their histories, if the first element stands for the same id. -/
theorem delete_primaryKey_iff [DecidableEq V] (engine : Engine V) {model : Schema} {evt : DBChangeEvent}
    {vs : List Json} (hpk : model.primaryKeys = ["id"])
    (hdelete : evt.operation.eqStr "DELETE" = true) (hkey : evt.key = .arr vs) (hne : vs ≠ []) :
    S3.getPrimaryKey evt = .ok (vs.getLast hne) ∧
    (∀ record : Record, vs.getLast hne = .str record.id →
      Deletes engine (fun v => .ok (Snowflake.quoteValue v "")) (vs.getLast hne) fun t =>
        (Snowflake.toDeleteSql record).exec engine (fun _ => t) record.table) ∧
    (∀ s, Postgresql.toSql evt model = .ok s →
      (Deletes engine Postgresql.quote (vs.getLast hne) (s.exec engine) ↔
        Coincide engine Postgresql.quote (vs.head hne) (vs.getLast hne))) ∧
    (∀ a, Postgresql.toAppendSql evt model = .ok a →
      (Buries engine Postgresql.quote (vs.getLast hne) a.values ↔
        Coincide engine Postgresql.quote (vs.head hne) (vs.getLast hne))) ∧
    (∀ s, Mysql.toSql evt model = .ok s →
      (Deletes engine Mysql.quoteValue (vs.getLast hne) (s.exec engine) ↔
        Coincide engine Mysql.quoteValue (vs.head hne) (vs.getLast hne))) ∧
    (∀ a, Mysql.toAppendSql evt model = .ok a →
      (Buries engine Mysql.quoteValue (vs.getLast hne) a.values ↔
        Coincide engine Mysql.quoteValue (vs.head hne) (vs.getLast hne))) ∧
    (∀ str s, Sqlserver.toSql str evt model = .ok s →
      (Deletes engine Sqlserver.quoteValue (vs.getLast hne) (s.exec engine) ↔
        Coincide engine Sqlserver.quoteValue (vs.head hne) (vs.getLast hne))) ∧
    (∀ a, Sqlserver.toAppendSql evt model = .ok a →
      (Buries engine Sqlserver.quoteValue (vs.getLast hne) a.values ↔
        Coincide engine Sqlserver.quoteValue (vs.head hne) (vs.getLast hne))) := by
  refine ⟨getPrimaryKey_arr hkey hne, fun record hrecord => ?_, fun s h => ?_, fun a h => ?_,
    fun s h => ?_, fun a h => ?_, fun str s h => ?_, fun a h => ?_⟩
  · rw [hrecord]
    refine ⟨_, rfl, fun t => ?_⟩
    show Function.update (fun _ => t) record.table _ record.table = _
    rw [Function.update_self]
  · obtain ⟨table, rfl⟩ := Postgresql.toSql_head hne hpk hdelete hkey h
    exact deletes_iff rfl
  · exact buries_iff rfl (Postgresql.toAppendSql_head hne hpk hdelete hkey h)
  · obtain ⟨table, text, htext, rfl⟩ := Mysql.toSql_head hne hpk hdelete hkey h
    exact deletes_iff htext
  · obtain ⟨text, htext, hlookup⟩ := Mysql.toAppendSql_head hne hpk hdelete hkey h
    exact buries_iff htext hlookup
  · obtain ⟨table, text, htext, rfl⟩ := Sqlserver.toSql_head hne str hpk hdelete hkey h
    exact deletes_iff htext
  · obtain ⟨text, htext, hlookup⟩ := Sqlserver.toAppendSql_head hne hpk hdelete hkey h
    exact buries_iff htext hlookup

/-- A deletion in a table whose keys have two parts. -/
def composedDelete : DBChangeEvent where
  operation := .str "DELETE"
  table := .str "user"
  modelVersion := .str "v1"
  object := none
  diff := .null
  timestamp := 0
  schemaValidatedPath := none
  key := .arr [.str "c1", .str "u1"]

/-- The row of `c1` is deleted, and the object was `u1`. -/
theorem delete_first :
    S3.getPrimaryKey composedDelete = .ok (.str "u1") ∧
      ∃ s, Mysql.toSql composedDelete users = .ok s ∧
        ¬Deletes Engine.textual Mysql.quoteValue (.str "u1") (s.exec Engine.textual) := by
  have hrun : Mysql.toSql composedDelete users = .ok (.delete "user" [("id", "'c1'")]) := rfl
  refine ⟨rfl, _, hrun, fun h => ?_⟩
  have htext : Mysql.quoteValue (.str "c1") = .ok "'c1'" := rfl
  obtain ⟨text, text', hfirst, hlast, heval⟩ := (deletes_iff htext).mp h
  rw [htext] at hfirst
  have hlast' : Mysql.quoteValue (.str "u1") = .ok "'u1'" := rfl
  rw [hlast'] at hlast
  cases hfirst
  cases hlast
  exact absurd heval (by decide)

def keyedDelete (parts : List String) : DBChangeEvent :=
  { composedDelete with key := .arr (parts.map .str) }

/-- A key of one part, and one of several whose ends are the same. -/
theorem delete_primaryKey_iff_user :
    (∃ s, Mysql.toSql (keyedDelete ["u1"]) users = .ok s ∧
      Deletes Engine.textual Mysql.quoteValue (.str "u1") (s.exec Engine.textual)) ∧
    ∃ s, Mysql.toSql (keyedDelete ["u1", "c1", "u1"]) users = .ok s ∧
      Deletes Engine.textual Mysql.quoteValue (.str "u1") (s.exec Engine.textual) := by
  have hpk : users.primaryKeys = ["id"] := rfl
  have hdelete : ∀ parts, (keyedDelete parts).operation.eqStr "DELETE" = true := fun _ => rfl
  have hone : Mysql.toSql (keyedDelete ["u1"]) users = .ok (.delete "user" [("id", "'u1'")]) := rfl
  have hends : Mysql.toSql (keyedDelete ["u1", "c1", "u1"]) users =
      .ok (.delete "user" [("id", "'u1'")]) := rfl
  refine ⟨⟨_, hone, ?_⟩, ⟨_, hends, ?_⟩⟩
  · have hall := delete_primaryKey_iff Engine.textual hpk (hdelete ["u1"]) rfl (List.cons_ne_nil _ _)
    exact (hall.2.2.2.2.1 _ hone).mpr ⟨"'u1'", "'u1'", rfl, rfl, rfl⟩
  · have hall := delete_primaryKey_iff Engine.textual hpk (hdelete ["u1", "c1", "u1"]) rfl
      (List.cons_ne_nil _ _)
    exact (hall.2.2.2.2.1 _ hends).mpr ⟨"'u1'", "'u1'", rfl, rfl, rfl⟩

end Drivers
end Eds
