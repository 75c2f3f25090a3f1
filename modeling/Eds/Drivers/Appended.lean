import Eds.Collections.Traverse
import Eds.Drivers.Postgresql.Sql
import Eds.Drivers.Mysql.Sql
import Eds.Drivers.Sqlserver.Sql

/-!
# What the append builders have in common

PostgreSQL, MySQL and SQL Server build an append in one way: the key's values and `NULL` for a
deletion, a text for each column otherwise, then the operation, the table and the timestamp as
they are.  `appended` is that way, with the quoter and the text of a column left open.
-/

namespace Eds
namespace Drivers

open Collections

section Appended

variable (quote : Json → Except Exn String) (columnText : String → Except Exn String)
  (c : DBChangeEvent) (model : Schema)

/-- The values of a deletion. -/
def tombstoneValues : Except Exn (List (String × String)) :=
  model.columns.mapM fun name =>
    match model.primaryKeys.idxOf? name with
    | some i => do
      let v ← keyAt c.key i
      let text ← quote v
      pure (name, text)
    | none => pure (name, "NULL")

def rowValues : Except Exn (List (String × String)) :=
  model.columns.mapM fun name => do
    let text ← columnText name
    pure (name, text)

def appendWith (values : List (String × String)) : Except Exn Append := do
  let operationText ← quote c.operation
  let name ← tableName c.table
  let mvcc ← mvccText c.mvccTimestamp
  pure ⟨name, values, c.operation, operationText, mvcc, c.timestamp⟩

def appended : Except Exn Append :=
  if c.operation.eqStr "DELETE" then tombstoneValues quote c model >>= appendWith quote c
  else rowValues columnText model >>= appendWith quote c

/-- What an append has of its event. -/
structure Append.Of (a : Append) : Prop where
  operation : a.operation = c.operation
  operationText : quote c.operation = .ok a.operationText
  mvcc : mvccText c.mvccTimestamp = .ok a.mvcc
  timestamp : a.timestamp = c.timestamp

/-- And its values are the ones for what the event is. -/
structure Appends (a : Append) : Prop where
  deletion : c.operation.eqStr "DELETE" = true → tombstoneValues quote c model = .ok a.values
  change : c.operation.eqStr "DELETE" = false → rowValues columnText model = .ok a.values
  event : a.Of quote c

variable {quote columnText c model} {a : Append}

theorem appendWith_ok {values : Except Exn (List (String × String))}
    (h : values >>= appendWith quote c = .ok a) : values = .ok a.values ∧ a.Of quote c := by
  obtain ⟨texts, htexts, h⟩ := bind_eq_ok.mp h
  obtain ⟨operationText, hoperation, h⟩ := bind_eq_ok.mp h
  obtain ⟨table, _, h⟩ := bind_eq_ok.mp h
  obtain ⟨mvcc, hmvcc, h⟩ := bind_eq_ok.mp h
  cases h
  exact ⟨htexts, rfl, hoperation, hmvcc, rfl⟩

theorem appends_of_appended (h : appended quote columnText c model = .ok a) :
    Appends quote columnText c model a := by
  unfold appended at h
  split at h
  · next hdelete =>
    obtain ⟨hvalues, hevent⟩ := appendWith_ok h
    exact ⟨fun _ => hvalues, fun hother => absurd hdelete (Bool.eq_false_iff.mp hother), hevent⟩
  · next hother =>
    obtain ⟨hvalues, hevent⟩ := appendWith_ok h
    exact ⟨fun hdelete => absurd hdelete hother, fun _ => hvalues, hevent⟩

theorem Appends.length_values (h : Appends quote columnText c model a) :
    a.values.length = model.columns.length := by
  cases hdelete : c.operation.eqStr "DELETE" with
  | true => exact (mapM_eq_ok.mp (h.deletion hdelete)).length_eq.symm
  | false => exact (mapM_eq_ok.mp (h.change hdelete)).length_eq.symm

/-- What is known of each quoted value, of each column's text and of the null is known of all
values. -/
theorem Appends.forall_values (h : Appends quote columnText c model a) {P : String → Prop}
    (hquote : ∀ v text, quote v = .ok text → P text)
    (hcolumn : ∀ name text, columnText name = .ok text → P text) (hnull : P "NULL") :
    ∀ v ∈ a.values, v.1 ∈ model.columns ∧ P v.2 := by
  intro v hv
  cases hdelete : c.operation.eqStr "DELETE" with
  | true =>
    obtain ⟨name, hname, hv⟩ := exists_of_mem_mapM (h.deletion hdelete) hv
    split at hv
    · obtain ⟨key, _, hv⟩ := bind_eq_ok.mp hv
      obtain ⟨text, htext, hv⟩ := bind_eq_ok.mp hv
      cases hv
      exact ⟨hname, hquote key text htext⟩
    · cases hv
      exact ⟨hname, hnull⟩
  | false =>
    obtain ⟨name, hname, hv⟩ := exists_of_mem_mapM (h.change hdelete) hv
    obtain ⟨text, htext, hv⟩ := bind_eq_ok.mp hv
    cases hv
    exact ⟨hname, hcolumn name text htext⟩

end Appended

/-! ## The builders -/

section Builders

variable {c : DBChangeEvent} {model : Schema} {a : Append}

/-- An append of PostgreSQL never fails for a value. -/
theorem Postgresql.appends (h : Postgresql.toAppendSql c model = .ok a) :
    Appends (fun v => .ok (Postgresql.quoteValue v))
      (fun name => .ok (Postgresql.appendText model (afterObject c) name)) c model a := by
  refine appends_of_appended ?_
  have hrow : rowValues (fun name => .ok (Postgresql.appendText model (afterObject c) name)) model =
      pure (model.columns.map fun name => (name, Postgresql.appendText model (afterObject c) name)) :=
    List.mapM_pure
  rw [appended, hrow, pure_bind]
  exact h

theorem Mysql.appends (h : Mysql.toAppendSql c model = .ok a) :
    Appends Mysql.quoteValue (Mysql.appendText model (getObject c)) c model a :=
  appends_of_appended h

theorem Sqlserver.appends (h : Sqlserver.toAppendSql c model = .ok a) :
    Appends Sqlserver.quoteValue (Sqlserver.updateText model (getObject c)) c model a :=
  appends_of_appended h

end Builders

end Drivers
end Eds
