import Eds.Drivers.Postgresql.Sql
import Eds.Drivers.Mysql.Sql
import Eds.Collections.Keyed
import Eds.Collections.Traverse

/-!
# Redelivered events

A batch that is given back is delivered again, from any of its events on.  Each
statement of the two builders is a write to one row, and a PostgreSQL update patches a
row with values that its insert would have put there, so that running the end of a
log twice is running it once.
-/

namespace Eds
namespace Drivers

open Util Collections

variable {V : Type}

/-- An event as the redelivery of a table keyed by `id` meets it.  `object` is what the
builder reads the columns from. -/
structure Delivered (object : DBChangeEvent → List (String × Json)) (model : Schema)
    (evt : DBChangeEvent) : Prop where
  operation : evt.operation = .str "INSERT" ∨ evt.operation = .str "UPDATE" ∨
    evt.operation = .str "DELETE"
  key : ∃ id, evt.key = .arr [id]
  id : evt.operation ≠ .str "DELETE" → ((object evt).lookup "id").isSome = true
  diff : evt.operation ≠ .str "DELETE" → ∀ names, diffNames evt.diff = .ok names →
    ∀ name ∈ names, name ∈ model.columns → ((object evt).lookup name).isSome = true

theorem columns_id {model : Schema} (hpk : model.primaryKeys = ["id"]) : "id" ∈ model.columns := by
  simp [Schema.columns, hpk]

theorem columns_nodup {model : Schema} (hpk : model.primaryKeys = ["id"]) : model.columns.Nodup := by
  have hothers : (model.properties.keys.filter fun name => !(["id"].contains name)).Nodup :=
    model.properties.keys_nodup.filter _
  rw [Schema.columns, hpk, List.singleton_append, List.nodup_cons, List.mem_mergeSort, List.mem_filter]
  exact ⟨fun h => absurd h.2 (by decide), (List.mergeSort_perm _ _).nodup_iff.mpr hothers⟩

/-- A delete has one condition, on the id. -/
theorem conditions_id (quote : Json → Except Exn String) {key : Json} {conds : List (String × String)}
    (h : (["id"].zipIdx.mapM fun pk => do
      let v ← keyAt key pk.2
      let text ← quote v
      pure (pk.1, text)) = .ok conds) :
    ∃ v text, keyAt key 0 = .ok v ∧ quote v = .ok text ∧ conds = [("id", text)] := by
  obtain ⟨c, rest, hc, hrest, rfl⟩ := List.forall₂_cons_left_iff.mp (mapM_eq_ok.mp h)
  cases hrest
  obtain ⟨v, hv, hc⟩ := bind_eq_ok.mp hc
  obtain ⟨text, htext, hc⟩ := bind_eq_ok.mp hc
  cases hc
  exact ⟨v, text, hv, htext, rfl⟩

/-! ## PostgreSQL -/

namespace Postgresql

section Meaning

variable [DecidableEq V] (engine : Engine V)

/-- The write of a statement: its key and what it does to the row. -/
def Statement.meaning : Statement → Option (V × Write String (Option V))
  | .upsert _ values sets =>
    match setList? sets with
    | none => none
    | some assigned =>
      (Row.assign engine values Row.blank "id").map fun k =>
        (k, .put (Row.assign engine values Row.blank) (Row.patch engine assigned))
  | .delete _ conds =>
    match conds with
    | [(_, text)] => (engine.eval "id" text).map fun k => (k, .erase)
    | _ => none

variable {engine}

/-- The statements of a table keyed by `id`: the id is not assigned, and a delete is
by it. -/
def Statement.Plain : Statement → Prop
  | .upsert _ _ sets => ∀ assigned, setList? sets = some assigned → ∀ s ∈ assigned, s.1 ≠ "id"
  | .delete _ conds => ∃ text, conds = [("id", text)]

theorem exec_meaning {s : Statement} (hs : s.Plain) (t : Table V) :
    s.exec engine t = Collections.exec t (s.meaning engine) := by
  cases s with
  | delete table conds =>
    obtain ⟨text, rfl⟩ := hs
    rw [Statement.exec, Table.deleteWhere_id, Statement.meaning]
    cases engine.eval "id" text <;> rfl
  | upsert table values sets =>
    rw [Statement.exec, Statement.meaning]
    cases hassigned : setList? sets with
    | none => rfl
    | some assigned =>
      simp only
      cases hkey : Row.assign engine values Row.blank "id" with
      | none => rfl
      | some k =>
        simp only [Option.map_some, Collections.exec]
        cases hrow : t k with
        | none => exact Table.insert_of_free hkey hrow
        | some old =>
          have hpatch : Row.assign engine assigned old =
              fun c => (Row.patch engine assigned c).getD (old c) :=
            funext fun c => Row.assign_eq_patch engine assigned old c
          simp only [Write.apply]
          by_cases hempty : assigned = []
          · subst hempty
            simp only [List.isEmpty_nil, if_true, Row.patch, Option.getD_none]
            rw [← hrow, Function.update_eq_self]
          · rw [if_neg (by simpa using hempty), Table.update_same (Or.inl (hs assigned hassigned)),
              hpatch]

end Meaning

section Built

variable {model : Schema} {evt : DBChangeEvent} {s : Statement}

theorem assignments?_map (text : String → String) (names : List String) :
    assignments? (names.map fun name => .set name (text name)) =
      some (names.map fun name => (name, text name)) := by
  induction names with
  | nil => rfl
  | cons name rest ih => rw [List.map_cons, assignments?, ih, List.map_cons, Option.map_some]

theorem setList?_map (text : String → String) (names : List String) :
    setList? (names.map fun name => .set name (text name)) =
      if names.Nodup then some (names.map fun name => (name, text name)) else none := by
  have hnames : (names.map fun name => (name, text name)).map Prod.fst = names := by
    rw [List.map_map]
    exact List.map_id names
  rw [setList?, assignments?_map, Option.filter_some, hnames]
  simp only [decide_eq_true_eq]

theorem setList?_eq_some {text : String → String} {names : List String}
    {assigned : List (String × String)}
    (h : setList? (names.map fun name => .set name (text name)) = some assigned) :
    assigned = names.map fun name => (name, text name) := by
  rw [setList?_map] at h
  split at h
  · exact (Option.some.inj h).symm
  · cases h

/-- The columns that the upsert of an event sets. -/
def assignedNames (model : Schema) (evt : DBChangeEvent) : List String :=
  if evt.operation.eqStr "UPDATE" then
    ((diffNames evt.diff).toOption.getD []).filter fun name =>
      model.columns.contains name && name != "id"
  else model.columns.filter fun name => !(((afterObject evt).lookup name).isSome && name == "id")

theorem mem_assignedNames {name : String} (hid : ((afterObject evt).lookup "id").isSome = true)
    (h : name ∈ assignedNames model evt) : name ∈ model.columns ∧ name ≠ "id" := by
  unfold assignedNames at h
  split at h
  · simpa using (List.mem_filter.mp h).2
  · obtain ⟨hcol, hname⟩ := List.mem_filter.mp h
    refine ⟨hcol, fun heq => ?_⟩
    rw [heq] at hname
    simp [hid] at hname

theorem operation_ne (hdelete : ¬evt.operation.eqStr "DELETE" = true) :
    evt.operation ≠ .str "DELETE" := by
  intro hop
  simp [hop, Json.eqStr] at hdelete

/-- An upsert sets columns of the schema other than `id`, each to the text that the insert
has for it. -/
theorem toSql_upsert (hevt : Delivered afterObject model evt)
    (hdelete : ¬evt.operation.eqStr "DELETE" = true) (h : toSql evt model = .ok s) :
    ∃ table, s = .upsert table (model.columns.map fun c => (c, columnText model (afterObject evt) c))
      ((assignedNames model evt).map fun name => .set name (columnText model (afterObject evt) name)) := by
  rw [toSql, if_neg hdelete] at h
  simp only [toSqlFromObject, pure_bind] at h
  unfold assignedNames
  by_cases hop : evt.operation.eqStr "UPDATE" = true
  · rw [if_pos hop] at h
    rw [if_pos hop]
    obtain ⟨names, hnames, h⟩ := bind_eq_ok.mp h
    obtain ⟨name, _, h⟩ := bind_eq_ok.mp h
    cases h
    refine ⟨name, congrArg _ ?_⟩
    rw [hnames]
    refine List.map_congr_left fun c hc => ?_
    obtain ⟨hmem, hc⟩ := List.mem_filter.mp hc
    simp only [Bool.and_eq_true, List.contains_iff_mem] at hc
    obtain ⟨v, hv⟩ := Option.isSome_iff_exists.mp
      (hevt.diff (operation_ne hdelete) names hnames c hmem hc.1)
    simp only [columnText, hv]
  · rw [if_neg hop] at h
    rw [if_neg hop]
    obtain ⟨name, _, h⟩ := bind_eq_ok.mp h
    cases h
    exact ⟨name, rfl⟩

theorem toSql_delete (hpk : model.primaryKeys = ["id"]) (hdelete : evt.operation.eqStr "DELETE" = true)
    (h : toSql evt model = .ok s) :
    ∃ table v, keyAt evt.key 0 = .ok v ∧ s = .delete table [("id", quoteValue v)] := by
  rw [toSql, if_pos hdelete, hpk] at h
  obtain ⟨conds, hconds, h⟩ := bind_eq_ok.mp h
  obtain ⟨table, _, h⟩ := bind_eq_ok.mp h
  cases h
  obtain ⟨v, text, hv, htext, rfl⟩ := conditions_id (fun v => .ok (quoteValue v)) hconds
  cases htext
  exact ⟨table, v, hv, rfl⟩

end Built

section Delivered

variable {model : Schema} {evt : DBChangeEvent} {s : Statement}

theorem toSql_plain (hpk : model.primaryKeys = ["id"]) (hevt : Delivered afterObject model evt)
    (h : toSql evt model = .ok s) : s.Plain := by
  by_cases hdelete : evt.operation.eqStr "DELETE" = true
  · obtain ⟨table, v, _, rfl⟩ := toSql_delete hpk hdelete h
    exact ⟨_, rfl⟩
  · obtain ⟨table, rfl⟩ := toSql_upsert hevt hdelete h
    intro assigned hassigned c hc
    rw [setList?_eq_some hassigned] at hc
    obtain ⟨name, hname, rfl⟩ := List.mem_map.mp hc
    exact (mem_assignedNames (hevt.id (operation_ne hdelete)) hname).2

/-- What an update sets is what the insert would have put there. -/
theorem toSql_agrees {engine : Engine V} (hpk : model.primaryKeys = ["id"])
    (hevt : Delivered afterObject model evt) (h : toSql evt model = .ok s) {k : V}
    {w : Write String (Option V)} (hw : s.meaning engine = some (k, w)) : w.Agrees := by
  by_cases hdelete : evt.operation.eqStr "DELETE" = true
  · obtain ⟨table, v, _, rfl⟩ := toSql_delete hpk hdelete h
    obtain ⟨k', _, hw⟩ := Option.map_eq_some_iff.mp hw
    cases hw
    trivial
  · obtain ⟨table, rfl⟩ := toSql_upsert hevt hdelete h
    rw [Statement.meaning] at hw
    split at hw
    · cases hw
    · rename_i assigned hassigned
      obtain ⟨k', _, hw⟩ := Option.map_eq_some_iff.mp hw
      cases hw
      intro c v hv
      rw [setList?_eq_some hassigned, Row.patch_map] at hv
      rw [Row.assign_map]
      by_cases hc : c ∈ assignedNames model evt
      · rw [if_pos hc] at hv
        cases hv
        rw [if_pos (mem_assignedNames (hevt.id (operation_ne hdelete)) hc).1]
      · rw [if_neg hc] at hv
        cases hv

end Delivered

end Postgresql

/-! ## MySQL -/

namespace Mysql

section Meaning

variable (engine : Engine V)

/-- A replace puts the same row whether one is there or not. -/
def Statement.meaning : Statement → Option (V × Write String (Option V))
  | .replace _ values =>
    (Row.assign engine values Row.blank "id").map fun k =>
      (k, .put (Row.assign engine values Row.blank) fun c => some (Row.assign engine values Row.blank c))
  | .delete _ conds =>
    match conds with
    | [(_, text)] => (engine.eval "id" text).map fun k => (k, .erase)
    | _ => none

variable {engine}

def Statement.Plain : Statement → Prop
  | .replace _ _ => True
  | .delete _ conds => ∃ text, conds = [("id", text)]

theorem meaning_agrees {s : Statement} {k : V} {w : Write String (Option V)}
    (h : s.meaning engine = some (k, w)) : w.Agrees := by
  cases s with
  | delete table conds =>
    match conds, h with
    | [(_, text)], h =>
      obtain ⟨k', _, h⟩ := Option.map_eq_some_iff.mp h
      cases h
      trivial
    | [], h => cases h
    | _ :: _ :: _, h => cases h
  | replace table values =>
    obtain ⟨k', _, h⟩ := Option.map_eq_some_iff.mp h
    cases h
    intro c v hv
    exact Option.some.inj hv

theorem exec_meaning [DecidableEq V] {s : Statement} (hs : s.Plain) (t : Table V) :
    s.exec engine t = Collections.exec t (s.meaning engine) := by
  cases s with
  | delete table conds =>
    obtain ⟨text, rfl⟩ := hs
    rw [Statement.exec, Table.deleteWhere_id, Statement.meaning]
    cases engine.eval "id" text <;> rfl
  | replace table values =>
    rw [Statement.exec, Statement.meaning, Table.replace]
    cases Row.assign engine values Row.blank "id" with
    | none => rfl
    | some k =>
      simp only [Option.map_some, Collections.exec]
      cases t k <;> rfl

end Meaning

section Built

variable {model : Schema} {evt : DBChangeEvent} {s : Statement}

theorem toSql_delete (hpk : model.primaryKeys = ["id"]) (hdelete : evt.operation.eqStr "DELETE" = true)
    (h : toSql evt model = .ok s) :
    ∃ table v text, keyAt evt.key 0 = .ok v ∧ quoteValue v = .ok text ∧
      s = .delete table [("id", text)] := by
  rw [toSql, if_pos hdelete, hpk] at h
  obtain ⟨conds, hconds, h⟩ := bind_eq_ok.mp h
  obtain ⟨table, _, h⟩ := bind_eq_ok.mp h
  cases h
  obtain ⟨v, text, hv, htext, rfl⟩ := conditions_id quoteValue hconds
  exact ⟨table, v, text, hv, htext, rfl⟩

theorem toSql_replace (hdelete : ¬evt.operation.eqStr "DELETE" = true) (h : toSql evt model = .ok s) :
    ∃ table values, s = .replace table values ∧
      (model.columns.mapM fun name => do
        let text ← columnText model (getObject evt) name
        pure (name, text)) = .ok values := by
  rw [toSql, if_neg hdelete, toSqlFromObject] at h
  obtain ⟨values, hvalues, h⟩ := bind_eq_ok.mp h
  obtain ⟨table, _, h⟩ := bind_eq_ok.mp h
  cases h
  exact ⟨table, values, rfl, hvalues⟩

theorem toSql_plain (hpk : model.primaryKeys = ["id"]) (h : toSql evt model = .ok s) : s.Plain := by
  by_cases hdelete : evt.operation.eqStr "DELETE" = true
  · obtain ⟨table, v, text, _, _, rfl⟩ := toSql_delete hpk hdelete h
    exact ⟨_, rfl⟩
  · obtain ⟨table, values, rfl, _⟩ := toSql_replace hdelete h
    trivial

end Built

end Mysql

/-! ## The end of a log run twice -/

section Replay

variable [DecidableEq V] {engine : Engine V} {model : Schema} {events : List DBChangeEvent}

theorem Postgresql.replay {stmts : List Postgresql.Statement} (hpk : model.primaryKeys = ["id"])
    (hevents : ∀ evt ∈ events, Delivered afterObject model evt)
    (h : events.mapM (Postgresql.toSql · model) = .ok stmts) (k : Nat) (t : Table V) :
    (stmts ++ stmts.drop k).foldl (Postgresql.Statement.exec engine) t =
      stmts.foldl (Postgresql.Statement.exec engine) t := by
  have hbuilt : ∀ s ∈ stmts, ∃ evt, Delivered afterObject model evt ∧
      Postgresql.toSql evt model = .ok s := by
    intro s hs
    obtain ⟨evt, hmem, hevt⟩ := exists_of_mem_mapM h hs
    exact ⟨evt, hevents evt hmem, hevt⟩
  refine foldl_replay (Postgresql.Statement.meaning engine) (fun s hs t => ?_)
    (fun s hs k w hw => ?_) k t
  · obtain ⟨evt, hdelivered, hevt⟩ := hbuilt s hs
    exact Postgresql.exec_meaning (Postgresql.toSql_plain hpk hdelivered hevt) t
  · obtain ⟨evt, hdelivered, hevt⟩ := hbuilt s hs
    exact Postgresql.toSql_agrees hpk hdelivered hevt hw

theorem Mysql.replay {stmts : List Mysql.Statement} (hpk : model.primaryKeys = ["id"])
    (h : events.mapM (Mysql.toSql · model) = .ok stmts) (k : Nat) (t : Table V) :
    (stmts ++ stmts.drop k).foldl (Mysql.Statement.exec engine) t =
      stmts.foldl (Mysql.Statement.exec engine) t := by
  refine foldl_replay (Mysql.Statement.meaning engine) (fun s hs t => ?_)
    (fun s _ k w hw => Mysql.meaning_agrees hw) k t
  obtain ⟨evt, _, hevt⟩ := exists_of_mem_mapM h hs
  exact Mysql.exec_meaning (Mysql.toSql_plain hpk hevt) t

/-- Delivering any end of a log again leaves the tables as they were. -/
theorem redelivery_harmless (engine : Engine V) {model : Schema} (hpk : model.primaryKeys = ["id"])
    (events : List DBChangeEvent) (k : Nat) (t : Table V) :
    (∀ stmts, (∀ evt ∈ events, Delivered afterObject model evt) →
      events.mapM (Postgresql.toSql · model) = .ok stmts →
      (stmts ++ stmts.drop k).foldl (Postgresql.Statement.exec engine) t =
        stmts.foldl (Postgresql.Statement.exec engine) t) ∧
    (∀ stmts, events.mapM (Mysql.toSql · model) = .ok stmts →
      (stmts ++ stmts.drop k).foldl (Mysql.Statement.exec engine) t =
        stmts.foldl (Mysql.Statement.exec engine) t) :=
  ⟨fun _ hevents h => Postgresql.replay hpk hevents h k t, fun _ h => Mysql.replay hpk h k t⟩

end Replay

/-- A user inserted, renamed and deleted. -/
def userEvents : List DBChangeEvent :=
  let event (operation : String) (object : Option (List (String × Json))) (diff : List Json) :
      DBChangeEvent :=
    ⟨.str operation, .str "user", .str "v1", object, .arr diff, 0, none, .arr [.str "u1"],
      object.map .obj, .str "1.0"⟩
  let named (name : String) : List (String × Json) := [("id", .str "u1"), ("name", .str name)]
  [event "INSERT" (some (named "ada")) [], event "UPDATE" (some (named "eve")) [.str "name"],
    event "DELETE" none []]

theorem userEvents_delivered : ∀ evt ∈ userEvents, Delivered afterObject users evt := by
  intro evt hevt
  simp only [userEvents, List.mem_cons, List.not_mem_nil, or_false] at hevt
  rcases hevt with rfl | rfl | rfl
  · exact ⟨.inl rfl, ⟨_, rfl⟩, fun _ => rfl, fun _ names hnames => by cases hnames; simp⟩
  · refine ⟨.inr (.inl rfl), ⟨_, rfl⟩, fun _ => rfl, fun _ names hnames name hname _ => ?_⟩
    cases hnames
    obtain rfl : name = "name" := by simpa using hname
    rfl
  · exact ⟨.inr (.inr rfl), ⟨_, rfl⟩, fun h => absurd rfl h, fun h => absurd rfl h⟩

theorem redelivery_harmless_users :
    users.primaryKeys = ["id"] ∧ (∀ evt ∈ userEvents, Delivered afterObject users evt) ∧
    (∃ stmts, userEvents.mapM (Postgresql.toSql · users) = .ok stmts ∧
      (stmts ++ stmts.drop 1).foldl (Postgresql.Statement.exec Engine.textual) (fun _ => none) =
        stmts.foldl (Postgresql.Statement.exec Engine.textual) fun _ => none) ∧
    ∃ stmts, userEvents.mapM (Mysql.toSql · users) = .ok stmts ∧
      (stmts ++ stmts.drop 1).foldl (Mysql.Statement.exec Engine.textual) (fun _ => none) =
        stmts.foldl (Mysql.Statement.exec Engine.textual) fun _ => none := by
  have hall := redelivery_harmless Engine.textual (rfl : users.primaryKeys = ["id"]) userEvents 1
    fun _ => none
  refine ⟨rfl, userEvents_delivered, ?_, ?_⟩
  · cases h : userEvents.mapM (Postgresql.toSql · users) with
    | ok stmts => exact ⟨stmts, rfl, hall.1 stmts userEvents_delivered h⟩
    | error e => cases h
  · cases h : userEvents.mapM (Mysql.toSql · users) with
    | ok stmts => exact ⟨stmts, rfl, hall.2 stmts h⟩
    | error e =>
      simp only [userEvents, Mysql.toSql, Mysql.toSqlFromObject, users_columns] at h
      cases h

end Drivers
end Eds
