import Eds.Util.Sql
import Eds.Util.Optimize
import Eds.Drivers.Values
import Eds.Drivers.Audit

/-!
# Snowflake statements

The upsert is a `MERGE` that updates a row only if the event is newer than the row,
and inserts the row if there is none.  A builder returns the statements, `render`
gives their texts, and `exec` is what they do.
-/

namespace Eds
namespace Drivers
namespace Snowflake

open Util

variable {V : Type}

/-! ## Values -/

/-- `fn(...)` around the text, if there is a function. -/
def wrap (fn text : String) : String := if fn = "" then text else fn ++ "(" ++ text ++ ")"

def escape (c : Char) : String :=
  if c = '\\' then "\\\\" else if c = '\'' then "''" else String.ofList [c]

def quoteString (val fn : String) : String :=
  if val = "NULL" then "NULL"
  else wrap fn ("'" ++ String.join (val.toList.map escape) ++ "'")

def quoteValue (value : Json) (fn : String) : String :=
  match value with
  | .null => "NULL"
  | .bool b => if b then "true" else "false"
  | .float text => formatF text
  | .int n => toString n
  | .str s => quoteString s fn
  | .arr vs => quoteString (stringify (.arr vs)) fn
  | .obj fields => quoteString (stringify (.obj fields)) fn

def generateInsertFunction (prop : SchemaProperty) : String :=
  if prop.type = "object" then "PARSE_JSON"
  else if prop.type = "array" then
    match prop.items with
    | some items =>
      if items.type = "object" ∨ items.type = "string" then "PARSE_JSON" else "TO_VARIANT"
    | none => "TO_VARIANT"
  else ""

/-- The value of a column the object does not have; the builder always wraps it. -/
def nullableValue (c : SchemaProperty) (wrap : Bool) : String :=
  if c.nullable then "NULL"
  else if c.type = "object" then (if wrap then "PARSE_JSON('\x7b\x7d')" else "'\x7b\x7d'")
  else if c.type = "array" then (if wrap then "PARSE_JSON('[]')" else "'[]'")
  else if c.type = "number" ∨ c.type = "integer" then "0"
  else if c.type = "boolean" then "false"
  else "''"

/-! ## Statements -/

structure Merge where
  table : String
  id : String
  updatedDate : String
  sets : List (String × String)
  inserts : List (String × String)

inductive Statement where
  | delete (table id : String)
  | merge (m : Merge)

def Statement.render : Statement → String
  | .delete table id =>
    "DELETE FROM " ++ quoteIdentifier table ++ " WHERE " ++ quoteIdentifier "id" ++ "=" ++ id ++ ";\n"
  | .merge m =>
    let qiId := quoteIdentifier "id"
    let qiUd := quoteIdentifier "updatedDate"
    "MERGE INTO " ++ quoteIdentifier m.table ++ " AS target USING (SELECT " ++
      m.id ++ " AS " ++ qiId ++ ", " ++ m.updatedDate ++ " AS " ++ qiUd ++ ") AS source " ++
      "ON target." ++ qiId ++ " = source." ++ qiId ++ " " ++
      "WHEN MATCHED AND source." ++ qiUd ++ " > target." ++ qiUd ++ " THEN UPDATE SET " ++
      commas (m.sets.map fun s => quoteIdentifier s.1 ++ "=" ++ s.2) ++ " " ++
      "WHEN NOT MATCHED THEN INSERT (" ++ commas (m.inserts.map fun s => quoteIdentifier s.1) ++
      ") VALUES (" ++ commas (m.inserts.map Prod.snd) ++ ");\n"

def toDeleteSql (record : Record) : Statement :=
  .delete record.table (quoteValue (.str record.id) "")

/-- The text of a column that the object has. -/
def columnText (model : Schema) (obj : List (String × Json)) (name : String) : Option String :=
  (obj.lookup name).map fun v => quoteValue v (generateInsertFunction (model.property name))

/-- `updatedDate` is read from the event and the columns from the record. -/
def toMergeSql (record : Record) (model : Schema) : Statement :=
  let obj := record.object.getD []
  let after := (record.event.bind DBChangeEvent.object).getD []
  .merge
    { table := record.table
      id := quoteValue (.str record.id) ""
      updatedDate := quoteValue ((after.lookup "updatedDate").getD .null) ""
      sets := model.columns.filterMap fun name => (columnText model obj name).map (name, ·)
      inserts := model.columns.map fun name =>
        (name, (columnText model obj name).getD (nullableValue (model.property name) true)) }

def toSql (record : Record) (model : Schema) (exists' : Bool) : List Statement :=
  (if exists' || record.operation == "DELETE" then [toDeleteSql record] else []) ++
    (if record.operation == "DELETE" then [] else [toMergeSql record model])

/-! ## What they do -/

abbrev Db (V : Type) := String → Table V

section Exec

variable [DecidableEq V] (engine : Engine V)

def Merge.exec (m : Merge) (t : Table V) : Table V :=
  match engine.eval "id" m.id with
  | none => t.insert (Row.assign engine m.inserts Row.blank)
  | some k =>
    match t k with
    | none => t.insert (Row.assign engine m.inserts Row.blank)
    | some row =>
      if engine.newer (engine.eval "updatedDate" m.updatedDate) (row "updatedDate") then
        t.update engine m.sets k row
      else t

def Statement.exec (db : Db V) : Statement → Db V
  | .delete table id => Function.update db table ((db table).delete (engine.eval "id" id))
  | .merge m => Function.update db m.table (m.exec engine (db m.table))

def execAll (statements : List Statement) (db : Db V) : Db V :=
  statements.foldl (Statement.exec engine) db

end Exec

/-! ## The history table -/

/-- The key at `i`, or the id of the record where the key is empty or short. -/
def tombstoneKey (record : Record) (i : Nat) : Except Exn Json :=
  match record.event with
  | none => .ok (.str record.id)
  | some event =>
    if isFalsy event.key then .ok (.str record.id)
    else match event.key with
      | .arr vs => .ok ((vs[i]?).getD (.str record.id))
      | .str s => .ok (((s.toList[i]?).map fun c => .str (String.ofList [c])).getD (.str record.id))
      | .obj fields => if i < fields.length then keyAt event.key i else .ok (.str record.id)
      | _ => .error (.exception "object has no len()")

def toAppendSql (record : Record) (model : Schema) : Except Exn Append := do
  let values ← if record.operation == "DELETE" then
      model.columns.mapM fun name =>
        match model.primaryKeys.idxOf? name with
        | some i => do
          let v ← tombstoneKey record i
          pure (name, quoteValue v "")
        | none => pure (name, "NULL")
    else pure (model.columns.map fun name =>
      (name, (columnText model (record.object.getD []) name).getD "NULL"))
  let mvcc ← match record.event with
    | some event => mvccText event.mvccTimestamp
    | none => pure "NULL"
  let timestamp := ((record.event.map DBChangeEvent.timestamp).getD 0)
  pure ⟨record.table, values, .str record.operation, quoteValue (.str record.operation) "", mvcc,
    timestamp⟩

def renderAppend (a : Append) : String :=
  "INSERT INTO " ++ quoteIdentifier a.table ++ " (" ++ a.columnsText quoteIdentifier ++ ")\nSELECT " ++
    a.valuesText ++ ";\n"

/-! ## Views -/

/-- The order says that `NULL` is last, which is not what the engine does in it. -/
def currentOrder : List OrderItem :=
  [⟨.mvcc, true, true⟩, ⟨.timestamp, true, false⟩, ⟨.seq, true, false⟩]

def timelineOrder : List OrderItem :=
  [⟨.mvcc, false, false⟩, ⟨.timestamp, false, false⟩, ⟨.seq, false, false⟩]

def createCurrentViewSql (s : Schema) : String :=
  let objLines := String.intercalate ",\n" (s.columns.map fun c => "\t" ++ quoteIdentifier c)
  "CREATE OR REPLACE VIEW " ++ quoteIdentifier (s.table ++ "_current") ++ " AS\n" ++
    "SELECT\n" ++
    objLines ++ "\n" ++
    "FROM " ++ quoteIdentifier s.table ++ "\n" ++
    "QUALIFY ROW_NUMBER() OVER (\n" ++
    "\tPARTITION BY " ++ commas (s.primaryKeys.map quoteIdentifier) ++ "\n" ++
    "\tORDER BY " ++ orderText quoteIdentifier currentOrder ++ "\n" ++
    ") = 1\n" ++
    "\tAND " ++ quoteIdentifier "_eds_operation" ++ " <> 'DELETE';\n"

def createTimelineViewSql (s : Schema) : String :=
  "CREATE OR REPLACE VIEW " ++ quoteIdentifier (s.table ++ "_timeline") ++ " AS\n" ++
    "SELECT\n" ++
    String.join (s.columns.map fun c => "\t" ++ quoteIdentifier c ++ ",\n") ++
    "\t" ++ quoteIdentifier "_eds_operation" ++ ",\n" ++
    "\t" ++ quoteIdentifier "_eds_mvcc_timestamp" ++ " AS " ++ quoteIdentifier "valid_from" ++ ",\n" ++
    "\tLEAD(" ++ quoteIdentifier "_eds_mvcc_timestamp" ++ ") OVER (\n" ++
    "\t\tPARTITION BY " ++ commas (s.primaryKeys.map quoteIdentifier) ++ "\n" ++
    "\t\tORDER BY " ++ orderText quoteIdentifier timelineOrder ++ "\n" ++
    "\t) AS " ++ quoteIdentifier "valid_to" ++ "\n" ++
    "FROM " ++ quoteIdentifier s.table ++ ";\n"

end Snowflake
end Drivers
end Eds
