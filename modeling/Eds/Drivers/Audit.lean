import Eds.Collections.Collapse
import Eds.Collections.Ranked
import Eds.Drivers.Table
import Eds.Util.Gojson

/-!
# The history table and its views

In append mode each change is a row, and the state of an object is found by ranking
its rows.  A view is written from the terms of its `ORDER BY`, and the same terms are
what the view means here.

Where a term does not say where `NULL` goes, the engine decides: above all values or
below them.
-/

namespace Eds
namespace Drivers

open Collections Util

variable {V M : Type}

/-! ## Terms of an order -/

inductive AuditColumn where
  | mvcc
  | timestamp
  | seq

def AuditColumn.name : AuditColumn → String
  | .mvcc => "_eds_mvcc_timestamp"
  | .timestamp => "_eds_timestamp"
  | .seq => "_eds_seq"

structure OrderItem where
  column : AuditColumn
  desc : Bool
  nullsLast : Bool := false

def OrderItem.render (quoteIdentifier : String → String) (item : OrderItem) : String :=
  quoteIdentifier item.column.name ++ (if item.desc then " DESC" else " ASC") ++
    (if item.nullsLast then " NULLS LAST" else "")

def orderText (quoteIdentifier : String → String) (items : List OrderItem) : String :=
  String.intercalate ", " (items.map (OrderItem.render quoteIdentifier))

/-! ## Rows -/

/-- What an append writes; the sequence number and the time of the append are the
engine's. -/
structure Append where
  table : String
  values : List (String × String)
  operation : Json
  operationText : String
  mvcc : String
  timestamp : Int

def auditColumns : List String := ["_eds_operation", "_eds_mvcc_timestamp", "_eds_timestamp"]

def Append.columnsText (quoteIdentifier : String → String) (a : Append) : String :=
  commas ((a.values.map Prod.fst ++ auditColumns).map quoteIdentifier)

def Append.valuesText (a : Append) : String :=
  commas (a.values.map Prod.snd ++ [a.operationText, a.mvcc, toString a.timestamp])

/-- How an engine reads the texts of a history row. -/
structure HistoryEngine (V M : Type) extends Engine V where
  mvcc : String → Option M

structure Change (V M : Type) where
  cells : Row V
  operation : String
  mvcc : Option M
  timestamp : Int

structure HistoryRow (V M : Type) extends Change V M where
  seq : Nat

/-- The row of an append, which is refused if a key is `NULL` or the operation is not a
text. -/
def Append.change (engine : HistoryEngine V M) (model : Schema) (a : Append) : Option (Change V M) :=
  let cells := Row.assign engine.toEngine a.values Row.blank
  match a.operation with
  | .str operation =>
    if model.primaryKeys.all fun pk => (cells pk).isSome then
      some ⟨cells, operation, engine.mvcc a.mvcc, a.timestamp⟩
    else none
  | _ => none

/-- The rows of appends in turn, numbered by the engine. -/
def historyOf (engine : HistoryEngine V M) (model : Schema) (appends : List Append) :
    List (HistoryRow V M) :=
  (appends.filterMap (Append.change engine model)).zipIdx.map fun c => ⟨c.1, c.2⟩

/-- What the rows of one object have in common. -/
def Change.object (model : Schema) (c : Change V M) : List (Option V) := model.primaryKeys.map c.cells

/-! ## Views -/

section Views

variable [LinearOrder M]

/-- Whether `NULL` comes first under a term. -/
def OrderItem.nullsFirst (nullsHigh : Bool) (item : OrderItem) : Bool :=
  !item.nullsLast && (item.desc == nullsHigh)

def OrderItem.compare (nullsHigh : Bool) (item : OrderItem) (a b : HistoryRow V M) : Ordering :=
  match item.column with
  | .mvcc => compareNulls (item.nullsFirst nullsHigh) item.desc a.mvcc b.mvcc
  | .timestamp => directed item.desc (Ord.compare a.timestamp b.timestamp)
  | .seq => directed item.desc (Ord.compare a.seq b.seq)

/-- `ORDER BY` -/
def ranked (nullsHigh : Bool) (items : List OrderItem) (rows : List (HistoryRow V M)) :
    List (HistoryRow V M) :=
  rows.mergeSort fun a b => (compareBy (items.map (OrderItem.compare nullsHigh)) a b).isLE

variable [DecidableEq V]

/-- The row ranked first for each object: `DISTINCT ON`, or number one of its partition. -/
def latestRows (nullsHigh : Bool) (items : List OrderItem) (model : Schema)
    (history : List (HistoryRow V M)) : List (HistoryRow V M) :=
  (groupBy (fun r => r.toChange.object model) history).filterMap fun g =>
    (ranked nullsHigh items g.2).head?

/-- `_eds_operation <> 'DELETE'` -/
def selectedRows (nullsHigh : Bool) (items : List OrderItem) (model : Schema)
    (history : List (HistoryRow V M)) : List (HistoryRow V M) :=
  (latestRows nullsHigh items model history).filter fun r => r.operation != "DELETE"

/-- The object columns of the rows that are selected. -/
def currentView (nullsHigh : Bool) (items : List OrderItem) (model : Schema)
    (history : List (HistoryRow V M)) : List (List (Option V)) :=
  (selectedRows nullsHigh items model history).map fun r => model.columns.map r.cells

/-- Each row with its `valid_to`; its `valid_from` is its `mvcc`. -/
def timelineView (nullsHigh : Bool) (items : List OrderItem) (model : Schema)
    (history : List (HistoryRow V M)) : List (HistoryRow V M × Option M) :=
  (groupBy (fun r => r.toChange.object model) history).flatMap fun g =>
    withLead (fun r => r.mvcc) (ranked nullsHigh items g.2)

end Views

end Drivers
end Eds
