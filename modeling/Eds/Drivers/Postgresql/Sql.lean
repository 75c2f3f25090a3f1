import Eds.Drivers.Values
import Eds.Drivers.Audit

/-!
# PostgreSQL statements

The upsert inserts the whole row and, if the id is taken, sets columns of the row
that is there: all of them for an insert, those of the diff for an update.
-/

namespace Eds
namespace Drivers
namespace Postgresql

open Util

variable {V : Type}

/-! ## Values -/

def isSafe (c : Char) : Bool :=
  c.isAlphanum || "\"/.,;:$%@!#^&*()\x7b\x7d[]|\\<>?~_- ".contains c

/-- Without the NULs; in quotes if every character is safe, else between `$_H_$`. -/
def quoteString (s : String) : String :=
  let stripped := String.ofList (s.toList.filter (· ≠ '\x00'))
  if stripped.toList.all isSafe then "'" ++ stripped ++ "'" else "$_H_$" ++ stripped ++ "$_H_$"

/-- Up to the first NUL, with double quotes doubled. -/
def quoteIdentifier (val : String) : String :=
  let named := val.toList.takeWhile (· ≠ '\x00')
  "\"" ++ String.ofList (named.flatMap fun c => if c = '"' then ['"', '"'] else [c]) ++ "\""

def quoteValue : Json → String
  | .null => "null"
  | .bool b => if b then "true" else "false"
  | .int n => toString n
  | .float text => formatF text
  | .str s => quoteString s
  | .arr vs => quoteString (stringify (.arr vs))
  | .obj fields => quoteString (stringify (.obj fields))

/-- The text of a column that the object has. -/
def presentText (model : Schema) (v : Json) (name : String) : String :=
  toJsonStringVal (quoteValue v) (model.property name) true

/-- The text of a column, `NULL` standing for one that is missing. -/
def columnText (model : Schema) (o : List (String × Json)) (name : String) : String :=
  match o.lookup name with
  | some v => presentText model v name
  | none => toJsonStringVal "NULL" (model.property name) true

/-! ## Statements -/

/-- A diff column that the object does not have is written without its name. -/
inductive SetItem where
  | set (name text : String)
  | bare (text : String)

inductive Statement where
  | upsert (table : String) (values : List (String × String)) (sets : List SetItem)
  | delete (table : String) (conds : List (String × String))

def SetItem.render : SetItem → String
  | .set name text => quoteIdentifier name ++ "=" ++ text
  | .bare text => text

def Statement.render : Statement → String
  | .upsert table values sets =>
    let tail := if sets.isEmpty then "NOTHING" else "UPDATE SET " ++ commas (sets.map SetItem.render)
    "INSERT INTO " ++ quoteIdentifier table ++ " (" ++
      commas (values.map fun v => quoteIdentifier v.1) ++ ") VALUES (" ++
      commas (values.map Prod.snd) ++ ") ON CONFLICT (id) DO " ++ tail ++ ";\n"
  | .delete table conds =>
    "DELETE FROM " ++ quoteIdentifier table ++ " WHERE " ++
      String.intercalate " AND " (conds.map fun c => quoteIdentifier c.1 ++ "=" ++ c.2) ++ ";\n"

/-- The columns that an update sets. -/
def updateSets (model : Schema) (o : List (String × Json)) (diff : List String) : List SetItem :=
  (diff.filter fun name => model.columns.contains name && name != "id").map fun name =>
    match o.lookup name with
    | some v => .set name (presentText model v name)
    | none => .bare (toJsonStringVal "NULL" (model.property name) true)

/-- An insert sets every column but an `id` that is there. -/
def insertSets (model : Schema) (o : List (String × Json)) : List SetItem :=
  (model.columns.filter fun name => !((o.lookup name).isSome && name == "id")).map fun name =>
    .set name (columnText model o name)

def toSqlFromObject (operation : Json) (model : Schema) (table : Json) (o : List (String × Json))
    (diff : Json) : Except Exn Statement := do
  let sets ← if operation.eqStr "UPDATE" then do
      let names ← diffNames diff
      pure (updateSets model o names)
    else pure (insertSets model o)
  let name ← tableName table
  pure (.upsert name (model.columns.map fun c => (c, columnText model o c)) sets)

def toSql (c : DBChangeEvent) (model : Schema) : Except Exn Statement :=
  if c.operation.eqStr "DELETE" then do
    let conds ← model.primaryKeys.zipIdx.mapM fun pk => do
      let v ← keyAt c.key pk.2
      pure (pk.1, quoteValue v)
    let name ← tableName c.table
    pure (.delete name conds)
  else toSqlFromObject c.operation model c.table (afterObject c) c.diff

/-! ## What they do -/

/-- A list with a bare value is not a `SET` list. -/
def assignments? : List SetItem → Option (List (String × String))
  | [] => some []
  | .set name text :: rest => (assignments? rest).map ((name, text) :: ·)
  | .bare _ :: _ => none

/-- One that assigns a column twice is refused, whether or not the id is taken. -/
def setList? (sets : List SetItem) : Option (List (String × String)) :=
  (assignments? sets).filter fun assigned => decide (assigned.map Prod.fst).Nodup

section Exec

variable [DecidableEq V] (engine : Engine V)

def Statement.exec (t : Table V) : Statement → Table V
  | .upsert _ values sets =>
    match setList? sets with
    | none => t
    | some assigned =>
      let row := Row.assign engine values Row.blank
      match row "id" with
      | none => t
      | some k =>
        match t k with
        | none => t.insert row
        | some old => if assigned.isEmpty then t else t.update engine assigned k old
  | .delete _ conds => t.deleteWhere engine conds

end Exec

/-! ## The history table -/

def appendText (model : Schema) (o : List (String × Json)) (name : String) : String :=
  match o.lookup name with
  | some v => presentText model v name
  | none => "NULL"

def toAppendSql (c : DBChangeEvent) (model : Schema) : Except Exn Append := do
  let values ← if c.operation.eqStr "DELETE" then
      model.columns.mapM fun name =>
        match model.primaryKeys.idxOf? name with
        | some i => do
          let v ← keyAt c.key i
          pure (name, quoteValue v)
        | none => pure (name, "NULL")
    else pure (model.columns.map fun name => (name, appendText model (afterObject c) name))
  let name ← tableName c.table
  let mvcc ← mvccText c.mvccTimestamp
  pure ⟨name, values, c.operation, quoteValue c.operation, mvcc, c.timestamp⟩

def renderAppend (a : Append) : String :=
  "INSERT INTO " ++ quoteIdentifier a.table ++ " (" ++ a.columnsText quoteIdentifier ++ ") VALUES (" ++
    a.valuesText ++ ");\n"

/-! ## Views -/

/-- The order says that `NULL` is last, which is not what the engine does in it. -/
def currentOrder : List OrderItem :=
  [⟨.mvcc, true, true⟩, ⟨.timestamp, true, false⟩, ⟨.seq, true, false⟩]

def timelineOrder : List OrderItem :=
  [⟨.mvcc, false, false⟩, ⟨.timestamp, false, false⟩, ⟨.seq, false, false⟩]

def createCurrentViewSql (s : Schema) : String :=
  let objCsv := commas (s.columns.map quoteIdentifier)
  let distinct := commas (s.primaryKeys.map quoteIdentifier)
  "CREATE OR REPLACE VIEW " ++ quoteIdentifier (s.table ++ "_current") ++ " AS\n" ++
    "SELECT " ++ objCsv ++ "\n" ++
    "FROM (\n" ++
    "\tSELECT DISTINCT ON (" ++ distinct ++ ")\n" ++
    "\t\t" ++ objCsv ++ "," ++ quoteIdentifier "_eds_operation" ++ "\n" ++
    "\tFROM " ++ quoteIdentifier s.table ++ "\n" ++
    "\tORDER BY " ++ distinct ++ ", " ++ orderText quoteIdentifier currentOrder ++ "\n" ++
    ") \"latest\"\n" ++
    "WHERE " ++ quoteIdentifier "_eds_operation" ++ " <> 'DELETE';\n"

def createTimelineViewSql (s : Schema) : String :=
  "CREATE OR REPLACE VIEW " ++ quoteIdentifier (s.table ++ "_timeline") ++ " AS\n" ++
    "SELECT\n" ++
    "\t" ++ commas (s.columns.map quoteIdentifier) ++ ",\n" ++
    "\t" ++ quoteIdentifier "_eds_operation" ++ ",\n" ++
    "\t" ++ quoteIdentifier "_eds_mvcc_timestamp" ++ " AS " ++ quoteIdentifier "valid_from" ++ ",\n" ++
    "\tLEAD(" ++ quoteIdentifier "_eds_mvcc_timestamp" ++ ") OVER (\n" ++
    "\t\tPARTITION BY " ++ commas (s.primaryKeys.map quoteIdentifier) ++ "\n" ++
    "\t\tORDER BY " ++ orderText quoteIdentifier timelineOrder ++ "\n" ++
    "\t) AS " ++ quoteIdentifier "valid_to" ++ "\n" ++
    "FROM " ++ quoteIdentifier s.table ++ ";\n"

end Postgresql
end Drivers
end Eds
