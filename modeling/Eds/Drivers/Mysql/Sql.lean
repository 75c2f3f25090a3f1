import Eds.Drivers.Values
import Eds.Drivers.Audit

/-!
# MySQL statements

The upsert replaces the whole row, whatever the diff.
-/

namespace Eds
namespace Drivers
namespace Mysql

open Util

variable {V : Type}

/-! ## Values -/

/-- The backtick, written by its code. -/
def backtick : String := "\x60"

def quoteIdentifier (val : String) : String := backtick ++ val ++ backtick

def escapeChar (c : Char) : String :=
  if c = '\x00' then "\\0"
  else if c = '\n' then "\\n"
  else if c = '\r' then "\\r"
  else if c = '\x1a' then "\\Z"
  else if c = '\'' then "\\'"
  else if c = '"' then "\\\""
  else if c = '\\' then "\\\\"
  else String.ofList [c]

def escapeString (s : String) : String := String.join (s.toList.map escapeChar)

/-- A string that looks like a timestamp and is not one raises. -/
def quoteValue : Json → Except Exn String
  | .null => .ok "NULL"
  | .bool b => .ok (if b then "1" else "0")
  | .float text => .ok (formatG text)
  | .int n => .ok (toString n)
  | .str s => quoteStringValue escapeString s
  | .arr vs => .ok ("'" ++ escapeString (stringify (.arr vs)) ++ "'")
  | .obj fields => .ok ("'" ++ escapeString (stringify (.obj fields)) ++ "'")

def presentText (model : Schema) (v : Json) (name : String) : Except Exn String := do
  let text ← quoteValue v
  pure (toJsonStringVal text (model.property name) true)

def columnText (model : Schema) (o : List (String × Json)) (name : String) : Except Exn String :=
  match o.lookup name with
  | some v => presentText model v name
  | none => .ok (toJsonStringVal "NULL" (model.property name) true)

/-! ## Statements -/

inductive Statement where
  | replace (table : String) (values : List (String × String))
  | delete (table : String) (conds : List (String × String))

def Statement.render : Statement → String
  | .replace table values =>
    "REPLACE INTO " ++ quoteIdentifier table ++ " (" ++
      commas (values.map fun v => quoteIdentifier v.1) ++ ") VALUES (" ++
      commas (values.map Prod.snd) ++ ");\n"
  | .delete table conds =>
    "DELETE FROM " ++ quoteIdentifier table ++ " WHERE " ++
      String.intercalate " AND " (conds.map fun c => quoteIdentifier c.1 ++ "=" ++ c.2) ++ ";\n"

/-- The operation and the diff are not looked at. -/
def toSqlFromObject (model : Schema) (table : Json) (o : List (String × Json)) :
    Except Exn Statement := do
  let values ← model.columns.mapM fun name => do
    let text ← columnText model o name
    pure (name, text)
  let name ← tableName table
  pure (.replace name values)

def toSql (c : DBChangeEvent) (model : Schema) : Except Exn Statement :=
  if c.operation.eqStr "DELETE" then do
    let conds ← model.primaryKeys.zipIdx.mapM fun pk => do
      let v ← keyAt c.key pk.2
      let text ← quoteValue v
      pure (pk.1, text)
    let name ← tableName c.table
    pure (.delete name conds)
  else toSqlFromObject model c.table (getObject c)

def Statement.exec [DecidableEq V] (engine : Engine V) (t : Table V) : Statement → Table V
  | .replace _ values => t.replace (Row.assign engine values Row.blank)
  | .delete _ conds => t.deleteWhere engine conds

/-! ## The history table -/

def appendText (model : Schema) (o : List (String × Json)) (name : String) : Except Exn String :=
  match o.lookup name with
  | some v => presentText model v name
  | none => .ok "NULL"

def toAppendSql (c : DBChangeEvent) (model : Schema) : Except Exn Append := do
  let values ← if c.operation.eqStr "DELETE" then
      model.columns.mapM fun name =>
        match model.primaryKeys.idxOf? name with
        | some i => do
          let v ← keyAt c.key i
          let text ← quoteValue v
          pure (name, text)
        | none => pure (name, "NULL")
    else model.columns.mapM fun name => do
      let text ← appendText model (getObject c) name
      pure (name, text)
  let operationText ← quoteValue c.operation
  let name ← tableName c.table
  let mvcc ← mvccText c.mvccTimestamp
  pure ⟨name, values, c.operation, operationText, mvcc, c.timestamp⟩

def renderAppend (a : Append) : String :=
  "INSERT INTO " ++ quoteIdentifier a.table ++ " (" ++ a.columnsText quoteIdentifier ++ ") VALUES (" ++
    a.valuesText ++ ");\n"

/-! ## Views -/

def currentOrder : List OrderItem :=
  [⟨.mvcc, true, false⟩, ⟨.timestamp, true, false⟩, ⟨.seq, true, false⟩]

def timelineOrder : List OrderItem :=
  [⟨.mvcc, false, false⟩, ⟨.timestamp, false, false⟩, ⟨.seq, false, false⟩]

def createCurrentViewSql (s : Schema) : String :=
  let objCsv := String.intercalate ", " (s.columns.map quoteIdentifier)
  "CREATE VIEW " ++ quoteIdentifier (s.table ++ "_current") ++ " AS\n" ++
    "SELECT " ++ objCsv ++ "\n" ++
    "FROM (\n" ++
    "\tSELECT " ++ objCsv ++ ", " ++ quoteIdentifier "_eds_operation" ++ ",\n" ++
    "\t\tROW_NUMBER() OVER (\n" ++
    "\t\t\tPARTITION BY " ++ commas (s.primaryKeys.map quoteIdentifier) ++ "\n" ++
    "\t\t\tORDER BY " ++ orderText quoteIdentifier currentOrder ++ "\n" ++
    "\t\t) AS " ++ quoteIdentifier "_eds_rn" ++ "\n" ++
    "\tFROM " ++ quoteIdentifier s.table ++ "\n" ++
    ") AS " ++ quoteIdentifier "_eds_ranked" ++ "\n" ++
    "WHERE " ++ quoteIdentifier "_eds_rn" ++ " = 1 AND " ++ quoteIdentifier "_eds_operation" ++
    " <> 'DELETE';\n"

def createTimelineViewSql (s : Schema) : String :=
  "CREATE VIEW " ++ quoteIdentifier (s.table ++ "_timeline") ++ " AS\n" ++
    "SELECT " ++ String.intercalate ", " (s.columns.map quoteIdentifier) ++ ", " ++
    quoteIdentifier "_eds_operation" ++ ",\n" ++
    "\t" ++ quoteIdentifier "_eds_mvcc_timestamp" ++ " AS " ++ quoteIdentifier "valid_from" ++ ",\n" ++
    "\tLEAD(" ++ quoteIdentifier "_eds_mvcc_timestamp" ++ ") OVER (\n" ++
    "\t\tPARTITION BY " ++ commas (s.primaryKeys.map quoteIdentifier) ++ "\n" ++
    "\t\tORDER BY " ++ orderText quoteIdentifier timelineOrder ++ "\n" ++
    "\t) AS " ++ quoteIdentifier "valid_to" ++ "\n" ++
    "FROM " ++ quoteIdentifier s.table ++ ";\n"

end Mysql
end Drivers
end Eds
