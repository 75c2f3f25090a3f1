import Eds.Drivers.Postgresql.Sql
import Eds.Drivers.Mysql.Sql
import Eds.Drivers.Sqlserver.Sql
import Eds.Importer.Run

/-!
# The import handler of the SQL drivers

Each event becomes one SQL text in a buffer, which is executed as one batch when it
holds enough bytes, after each event of a `single` import, at the end of a table and
at the end of the run.

A driver writes no empty text, so the byte count is zero only when the buffer is
empty: that is what the flush at the end of a table rests on, since it looks at the
byte count.  The text of `CREATE TABLE` is a hook.
-/

namespace Eds
namespace Drivers

open Effects Effects.Prog Effects.Traced Collections Importer

variable {W : Type}

/-! ## The texts of an import -/

def SqlText := { sql : String // 0 < sql.utf8ByteSize }

theorem size_append_pos (a : String) {b : String} (hb : 0 < b.utf8ByteSize) :
    0 < (a ++ b).utf8ByteSize := by
  rw [String.utf8ByteSize_append]
  omega

theorem Postgresql.Statement.render_pos (s : Postgresql.Statement) : 0 < s.render.utf8ByteSize := by
  cases s with
  | upsert table values sets => exact size_append_pos _ (by decide)
  | delete table conds => exact size_append_pos _ (by decide)

theorem Mysql.Statement.render_pos (s : Mysql.Statement) : 0 < s.render.utf8ByteSize := by
  cases s with
  | replace table values => exact size_append_pos _ (by decide)
  | delete table conds => exact size_append_pos _ (by decide)

theorem Sqlserver.Statement.render_pos (s : Sqlserver.Statement) : 0 < s.render.utf8ByteSize := by
  cases s with
  | merge m => exact size_append_pos _ (by decide)
  | delete table conds => exact size_append_pos _ (by decide)

/-- The drivers that share the handler. -/
inductive SqlDriver where
  | postgresql
  | mysql
  | mssql

/-- `to_sql_from_object("INSERT", data, table, o, None)` -/
def SqlDriver.toSqlFromObject (str : Json → String) (data : Schema) (table : Json)
    (o : List (String × Json)) : SqlDriver → Except Exn SqlText
  | .postgresql => do
    let s ← Postgresql.toSqlFromObject (.str "INSERT") data table o .null
    pure ⟨s.render, s.render_pos⟩
  | .mysql => do
    let s ← Mysql.toSqlFromObject data table o
    pure ⟨s.render, s.render_pos⟩
  | .mssql => do
    let s ← Sqlserver.toSqlFromObject str data table o .null
    pure ⟨s.render, s.render_pos⟩

/-! ## The handler -/

/-- `str` is Python's, and `maxBytes` is `MAX_BYTES_SIZE_INSERT`.  `exec` is the call that
a real executor makes. -/
structure Destination (W : Type) where
  driver : SqlDriver
  str : Json → String
  createTableSql : Schema → String
  maxBytes : Nat
  connect : Prog Exn W Unit
  exec : String → Prog Exn W Unit
  close : Prog Exn W Unit

def maxBytesSizeInsert : Nat := 5000000

/-- A connection to the database, with the attribute `_dbname`.  `connect` is `open_db`. -/
structure Connection (W : Type) where
  dbName : W → String
  setDbName : String → W → W
  connect : Prog Exn W Unit
  querySingleValue : Prog Exn W String
  buildSchema : String → Prog Exn W Unit
  exec : String → Prog Exn W Unit
  close : Prog Exn W Unit

namespace Connection

/-- The name of the database is asked for once. -/
def learnDbName (conn : Connection W) : Prog Exn W Unit := do
  let known ← asks conn.dbName
  if known = "" then do
    let name ← tryExcept conn.querySingleValue
      fun e => raise (.valueError s!"error getting current database name: {e.str}")
    update (conn.setDbName name)
  else pure ()

def refreshSchema (conn : Connection W) : Prog Exn W Unit := do
  conn.learnDbName
  let name ← asks conn.dbName
  tryExcept (conn.buildSchema name)
    fun e => raise (.valueError s!"error building database schema: {e.str}")

def connectToDb (conn : Connection W) : Prog Exn W Unit := do
  conn.connect
  tryExcept conn.refreshSchema fun e => do
    conn.close
    raise e

def destination (conn : Connection W) (driver : SqlDriver) (str : Json → String)
    (createTableSql : Schema → String) : Destination W where
  driver := driver
  str := str
  createTableSql := createTableSql
  maxBytes := maxBytesSizeInsert
  connect := conn.connectToDb
  exec := conn.exec
  close := conn.close

end Connection

def bytesOf (texts : List SqlText) : Nat := (texts.map fun t => t.1.utf8ByteSize).sum

structure ImportBuffer where
  pending : List SqlText
  count : Nat
  size : Nat
  size_eq : size = bytesOf pending

namespace ImportBuffer

def empty : ImportBuffer := ⟨[], 0, 0, rfl⟩

def add (sql : SqlText) (b : ImportBuffer) : ImportBuffer where
  pending := b.pending ++ [sql]
  count := b.count + 1
  size := b.size + sql.1.utf8ByteSize
  size_eq := by rw [b.size_eq]; simp [bytesOf]

/-- The count of a run is not reset. -/
def reset (b : ImportBuffer) : ImportBuffer := ⟨[], b.count, 0, rfl⟩

def texts (b : ImportBuffer) : List String := b.pending.map Subtype.val

theorem texts_add (sql : SqlText) (b : ImportBuffer) : (b.add sql).texts = b.texts ++ [sql.1] :=
  List.map_append

/-- Nothing is buffered exactly when the size is zero. -/
theorem texts_eq_nil {b : ImportBuffer} (h : ¬ 0 < b.size) : b.texts = [] := by
  have hsize := b.size_eq
  cases hpending : b.pending with
  | nil => rw [texts, hpending]; rfl
  | cons sql rest =>
    have hpos := sql.2
    rw [hpending, bytesOf, List.map_cons, List.sum_cons] at hsize
    omega

end ImportBuffer

/-- A batch handed to the database by a call that returned, one only written to the log,
and one whose call raised. -/
inductive ImportObs where
  | executed (texts : List String)
  | logged (texts : List String)
  | refused (texts : List String)
  deriving DecidableEq

abbrev ImportProg (W α : Type) := Prog Exn (Traced ImportBuffer W ImportObs) α

section

variable (dest : Destination W) (config : ImporterConfig)

/-- The executor that `create_import_executor(dry_run)` gives. -/
def executor (texts : List String) : ImportProg W Unit :=
  if config.dryRun then note (.logged texts)
  else do
    call (fun _ => .refused texts) (dest.exec (String.join texts))
    note (.executed texts)

def createTable (schema : Dict String Schema) (table : String) : ImportProg W Unit :=
  match schema.get? table with
  | none => raise (.exception s!"'{table}'")
  | some data => tryExcept (executor dest config [dest.createTableSql data])
      fun e => raise (.valueError s!"error creating table: {table}. {e.str}")

def createDatasource (schema : Dict String Schema) : ImportProg W Unit :=
  each (createTable dest config schema) config.tables

/-- Execute what is buffered, without a reset. -/
def executePending : ImportProg W Unit := do
  let b ← read id
  tryExcept (executor dest config b.texts)
    fun e => raise (.valueError s!"unable to execute sql: {e.str}")

def flushImport : ImportProg W Unit := do
  executePending dest config
  assign ImportBuffer.reset

def importEvent (event : ImportedEvent) (data : Schema) : ImportProg W Unit := do
  let sql ← ofExcept (dest.driver.toSqlFromObject dest.str data event.table (event.object.getD []))
  assign (ImportBuffer.add sql)
  let size ← read ImportBuffer.size
  if dest.maxBytes ≤ size ∨ config.single then flushImport dest config else pure ()

def importCompleted : ImportProg W Unit := do
  let size ← read ImportBuffer.size
  if 0 < size then executePending dest config else pure ()

def flushImported : ImportProg W Unit := do
  let size ← read ImportBuffer.size
  if 0 < size then flushImport dest config else pure ()

def sqlHandler : Handler ImportBuffer W ImportObs where
  createDatasource := createDatasource dest config
  importEvent := importEvent dest config
  importCompleted := importCompleted dest config
  flushImported := some (flushImported dest config)

/-- A fresh connection and an empty buffer for each run. -/
def runImport (sources : Sources W) : RunProg ImportBuffer W ImportObs Unit := do
  outside dest.connect
  assign fun _ => ImportBuffer.empty
  ensure (run config sources (sqlHandler dest config)) (outside dest.close)

end

/-! ## What the handler does to the buffer -/

/-- What a call of the executor that returns leaves in the trace. -/
def batch (config : ImporterConfig) (texts : List String) : ImportObs :=
  if config.dryRun then .logged texts else .executed texts

section Specs

variable {dest : Destination W} {config : ImporterConfig} {s : Traced ImportBuffer W ImportObs}

theorem executor_spec {texts : List String} :
    wp (executor dest config texts)
      (fun _ t => t.vars = s.vars ∧ t.trace = s.trace ++ [batch config texts])
      (fun _ t => t.vars = s.vars ∧ t.trace = s.trace ++ [.refused texts]) s := by
  rw [executor, batch]
  by_cases hdry : config.dryRun = true
  · rw [if_pos hdry, if_pos hdry]
    exact ⟨rfl, rfl⟩
  · rw [if_neg hdry, if_neg hdry, wp_bind]
    exact wp_call (fun _ _ _ => ⟨rfl, rfl⟩) (fun _ _ _ => ⟨rfl, rfl⟩)

theorem executePending_spec :
    wp (executePending dest config)
      (fun _ t => t.vars = s.vars ∧ t.trace = s.trace ++ [batch config s.vars.texts])
      (fun _ t => t.vars = s.vars ∧ t.trace = s.trace ++ [.refused s.vars.texts]) s := by
  rw [executePending, wp_bind, wp_read]
  refine wp_tryExcept (wp_mono executor_spec (fun _ _ h => h) (fun e t h => ?_))
  exact ⟨fun _ => h, fun _ => h⟩

/-- A flush that raises leaves the buffer as it was. -/
theorem flushImport_spec :
    wp (flushImport dest config)
      (fun _ t => t.vars = s.vars.reset ∧ t.trace = s.trace ++ [batch config s.vars.texts])
      (fun _ t => t.vars = s.vars ∧ t.trace = s.trace ++ [.refused s.vars.texts]) s := by
  rw [flushImport, wp_bind]
  refine wp_post executePending_spec (fun _ t h => ?_)
  rw [wp_assign]
  exact ⟨by rw [setVars_vars, h.1], h.2⟩

theorem flushImported_spec :
    wp (flushImported dest config)
      (fun _ t => (t.vars = s.vars.reset ∧ t.trace = s.trace ++ [batch config s.vars.texts]) ∨
        (¬ 0 < s.vars.size ∧ t.vars = s.vars ∧ t.trace = s.trace))
      (fun _ t => t.vars = s.vars ∧ t.trace = s.trace ++ [.refused s.vars.texts]) s := by
  rw [flushImported, wp_bind, wp_read]
  by_cases hsize : 0 < s.vars.size
  · rw [if_pos hsize]
    exact wp_post flushImport_spec fun _ _ h => Or.inl h
  · rw [if_neg hsize]
    exact Or.inr ⟨hsize, rfl, rfl⟩

theorem importCompleted_spec :
    wp (importCompleted dest config)
      (fun _ t => t.vars = s.vars ∧
        (t.trace = s.trace ++ [batch config s.vars.texts] ∨
          (¬ 0 < s.vars.size ∧ t.trace = s.trace)))
      (fun _ t => t.vars = s.vars ∧ t.trace = s.trace ++ [.refused s.vars.texts]) s := by
  rw [importCompleted, wp_bind, wp_read]
  by_cases hsize : 0 < s.vars.size
  · rw [if_pos hsize]
    exact wp_post executePending_spec fun _ _ h => ⟨h.1, Or.inl h.2⟩
  · rw [if_neg hsize]
    exact ⟨rfl, Or.inr ⟨hsize, rfl⟩⟩

/-- An event that is imported is buffered, and perhaps executed with the rest; one that
raises in the flush is still buffered. -/
theorem importEvent_spec {event : ImportedEvent} {data : Schema} :
    wp (importEvent dest config event data)
      (fun _ t => ∃ sql,
        dest.driver.toSqlFromObject dest.str data event.table (event.object.getD []) = .ok sql ∧
          ((t.vars = s.vars.add sql ∧ t.trace = s.trace) ∨
            (t.vars = (s.vars.add sql).reset ∧
              t.trace = s.trace ++ [batch config (s.vars.add sql).texts])))
      (fun _ t => (t.vars = s.vars ∧ t.trace = s.trace) ∨ ∃ sql,
        dest.driver.toSqlFromObject dest.str data event.table (event.object.getD []) = .ok sql ∧
          t.vars = s.vars.add sql ∧ t.trace = s.trace ++ [.refused (s.vars.add sql).texts]) s := by
  rw [importEvent]
  cases hsql : dest.driver.toSqlFromObject dest.str data event.table (event.object.getD []) with
  | error e => exact Or.inl ⟨rfl, rfl⟩
  | ok sql =>
    rw [wp_bind, wp_ofExcept_ok, wp_bind, wp_assign, wp_bind, wp_read]
    by_cases hfull : dest.maxBytes ≤ (s.setVars (ImportBuffer.add sql)).vars.size ∨ config.single = true
    · rw [if_pos hfull]
      refine wp_mono flushImport_spec (fun _ t h => ?_) (fun _ t h => ?_)
      · exact ⟨sql, rfl, Or.inr h⟩
      · exact Or.inr ⟨sql, rfl, h⟩
    · rw [if_neg hfull]
      exact ⟨sql, rfl, Or.inl ⟨rfl, rfl⟩⟩

end Specs

end Drivers
end Eds
