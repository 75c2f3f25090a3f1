import Eds.Drivers.Values
import Eds.Drivers.Audit

/-!
# SQL Server statements

The upsert is a `MERGE`.  The value of a column is coerced by its property where the
row is inserted, and is not where the row is updated.
-/

namespace Eds
namespace Drivers
namespace Sqlserver

open Util

variable {V : Type}

/-! ## Values -/

def quoteIdentifier (val : String) : String := "[" ++ val ++ "]"

def escapeChar (c : Char) : String :=
  if c = '\x00' then "\\0"
  else if c = '\n' then "\\n"
  else if c = '\r' then "\\r"
  else if c = '\x1a' then "\\Z"
  else if c = '\'' then "''"
  else if c = '"' then "\\\""
  else if c = '\\' then "\\\\"
  else String.ofList [c]

def escapeString (s : String) : String := String.join (s.toList.map escapeChar)

def quoteValue : Json → Except Exn String
  | .null => .ok "NULL"
  | .bool b => .ok (if b then "1" else "0")
  | .float text => .ok (formatG text)
  | .int n => .ok (toString n)
  | .str s => quoteStringValue escapeString s
  | .arr vs => .ok ("'" ++ escapeString (stringify (.arr vs)) ++ "'")
  | .obj fields => .ok ("'" ++ escapeString (stringify (.obj fields)) ++ "'")

def presentText (model : Schema) (v : Json) (name : String) : Except Exn String := do
  let text ← quoteValue v
  pure (toJsonStringVal text (model.property name) false)

/-- The three words it compares with have no letters outside ASCII to fold. -/
def handleSchemaProperty (prop : SchemaProperty) (v : String) : String :=
  if prop.type = "object" then v
  else if prop.type = "boolean" then
    if v.toLower = "true" ∨ v = "1" then "1"
    else if (prop.nullable = false ∧ v = "") ∨ v.toLower = "false" ∨ v.toLower = "null" then "0"
    else v
  else if prop.type = "integer" then (if v = "NULL" then "0" else v)
  else if prop.type = "array" then (if prop.nullable = false ∧ v = "NULL" then "''" else v)
  else v

/-! ## Statements -/

structure Merge where
  table : String
  sourceId : String
  sets : List (String × String)
  inserts : List (String × String)

inductive Statement where
  | merge (m : Merge)
  | delete (table : String) (conds : List (String × String))

def Statement.render : Statement → String
  | .merge m =>
    let matched := if m.sets.isEmpty then "" else " WHEN MATCHED THEN UPDATE SET " ++
      commas (m.sets.map fun s => quoteIdentifier s.1 ++ "=" ++ s.2)
    "MERGE " ++ quoteIdentifier m.table ++ " AS target USING (VALUES(" ++ m.sourceId ++
      ")) AS source (id) ON target.id=source.id" ++ matched ++ " WHEN NOT MATCHED THEN INSERT (" ++
      commas (m.inserts.map fun s => quoteIdentifier s.1) ++ ") VALUES (" ++
      commas (m.inserts.map Prod.snd) ++ ");"
  | .delete table conds =>
    "DELETE FROM " ++ quoteIdentifier table ++ " WHERE " ++
      String.intercalate " AND " (conds.map fun c => quoteIdentifier c.1 ++ "=" ++ c.2) ++ ";\n"

/-- The names that the update assigns: those of the diff, or all columns without one. -/
def assigned (model : Schema) (diff : Json) : Except Exn (List String) := do
  let names ← if isFalsy diff then pure model.columns else diffNames diff
  pure (names.filter fun name => model.columns.contains name && name != "id")

def updateText (model : Schema) (o : List (String × Json)) (name : String) : Except Exn String :=
  match o.lookup name with
  | some v => presentText model v name
  | none => .ok "NULL"

/-- The id is not coerced if it is there. -/
def insertText (model : Schema) (o : List (String × Json)) (name : String) : Except Exn String :=
  match o.lookup name with
  | some v => do
    let text ← presentText model v name
    pure (if name = "id" then text else handleSchemaProperty (model.property name) text)
  | none => .ok (handleSchemaProperty (model.property name) "NULL")

/-- `str` is Python's, which the id goes through without being quoted again. -/
def toSqlFromObject (str : Json → String) (model : Schema) (table : Json) (o : List (String × Json))
    (diff : Json) : Except Exn Statement := do
  let names ← assigned model diff
  let sets ← names.mapM fun name => do
    let text ← updateText model o name
    pure (name, text)
  let inserts ← model.columns.mapM fun name => do
    let text ← insertText model o name
    pure (name, text)
  let name ← tableName table
  match o.lookup "id" with
  | none => .error (.exception "'id'")
  | some v => pure (.merge ⟨name, "'" ++ str v ++ "'", sets, inserts⟩)

def toSql (str : Json → String) (c : DBChangeEvent) (model : Schema) : Except Exn Statement :=
  if c.operation.eqStr "DELETE" then do
    let conds ← model.primaryKeys.zipIdx.mapM fun pk => do
      let v ← keyAt c.key pk.2
      let text ← quoteValue v
      pure (pk.1, text)
    let name ← tableName c.table
    pure (.delete name conds)
  else toSqlFromObject str model c.table (getObject c) c.diff

/-! ## What they do -/

section Exec

variable [DecidableEq V] (engine : Engine V)

/-- A merge that assigns a column twice is refused. -/
def Merge.exec (m : Merge) (t : Table V) : Table V :=
  let row := Row.assign engine m.inserts Row.blank
  if (m.sets.map Prod.fst).Nodup then
    match engine.eval "id" m.sourceId with
    | none => t.insert row
    | some k =>
      match t k with
      | none => t.insert row
      | some old => if m.sets.isEmpty then t else t.update engine m.sets k old
  else t

def Statement.exec (t : Table V) : Statement → Table V
  | .merge m => m.exec engine t
  | .delete _ conds => t.deleteWhere engine conds

end Exec

/-! ## The history table -/

/-- A null that is there stays `NULL`: the values of an append are not coerced. -/
def toAppendSql (c : DBChangeEvent) (model : Schema) : Except Exn Append := do
  let values ← if c.operation.eqStr "DELETE" then
      model.columns.mapM fun name =>
        match model.primaryKeys.idxOf? name with
        | some i => do
          let v ← keyAt c.key i
          let text ← quoteValue v
          pure (name, text)
        | none => pure (name, "NULL")
    else model.columns.mapM fun name => do
      let text ← updateText model (getObject c) name
      pure (name, text)
  let operationText ← quoteValue c.operation
  let name ← tableName c.table
  let mvcc ← mvccText c.mvccTimestamp
  pure ⟨name, values, c.operation, operationText, mvcc, c.timestamp⟩

def renderAppend (a : Append) : String :=
  "INSERT INTO " ++ quoteIdentifier a.table ++ " (" ++ a.columnsText quoteIdentifier ++ ") VALUES (" ++
    a.valuesText ++ ");\n"

/-! ## Views -/

def currentOrder : List OrderItem :=
  [⟨.mvcc, true, false⟩, ⟨.timestamp, true, false⟩, ⟨.seq, true, false⟩]

def timelineOrder : List OrderItem :=
  [⟨.mvcc, false, false⟩, ⟨.timestamp, false, false⟩, ⟨.seq, false, false⟩]

def createCurrentViewSql (s : Schema) : String :=
  let objCsv := commas (s.columns.map quoteIdentifier)
  "CREATE VIEW " ++ quoteIdentifier (s.table ++ "_current") ++ " AS\n" ++
    "SELECT " ++ objCsv ++ "\n" ++
    "FROM (\n" ++
    "\tSELECT " ++ objCsv ++ "," ++ quoteIdentifier "_eds_operation" ++ ",\n" ++
    "\t\tROW_NUMBER() OVER (\n" ++
    "\t\t\tPARTITION BY " ++ commas (s.primaryKeys.map quoteIdentifier) ++ "\n" ++
    "\t\t\tORDER BY " ++ orderText quoteIdentifier currentOrder ++ "\n" ++
    "\t\t) AS _eds_rn\n" ++
    "\tFROM " ++ quoteIdentifier s.table ++ "\n" ++
    ") AS ranked\n" ++
    "WHERE _eds_rn = 1 AND " ++ quoteIdentifier "_eds_operation" ++ " <> 'DELETE'"

def createTimelineViewSql (s : Schema) : String :=
  "CREATE VIEW " ++ quoteIdentifier (s.table ++ "_timeline") ++ " AS\n" ++
    "SELECT " ++ commas (s.columns.map quoteIdentifier) ++ "," ++ quoteIdentifier "_eds_operation" ++
    ",\n" ++
    "\t" ++ quoteIdentifier "_eds_mvcc_timestamp" ++ " AS valid_from,\n" ++
    "\tLEAD(" ++ quoteIdentifier "_eds_mvcc_timestamp" ++ ") OVER (\n" ++
    "\t\tPARTITION BY " ++ commas (s.primaryKeys.map quoteIdentifier) ++ "\n" ++
    "\t\tORDER BY " ++ orderText quoteIdentifier timelineOrder ++ "\n" ++
    "\t) AS valid_to\n" ++
    "FROM " ++ quoteIdentifier s.table

end Sqlserver
end Drivers
end Eds
