import Eds.Collections.Traverse
import Eds.Datetime.Isoformat
import Eds.Drivers.Values
import Eds.Import.Client
import Eds.Util.Loads

/-!
# The cutoffs of an export

The import writes the cutoffs of the tables to the tracker as a JSON array.  It reads them back as
a list (`loadTableExportInfo`), and the fork reads them as a dictionary (`Fork.loadTableExportInfo`).
-/

namespace Eds
namespace Import

open Util Collections Numeric Numeric.Calendar

/-! ## Writing -/

def TableExportInfo.gojson (i : TableExportInfo) : String :=
  "\x7b\"Table\":" ++ encodeString i.table ++ ",\"Timestamp\":" ++
    encodeString (String.ofList (rfc3339 i.timestamp)) ++ "\x7d"

def marshalTableExportInfo (infos : List TableExportInfo) : String :=
  "[" ++ commas (infos.map TableExportInfo.gojson) ++ "]"

/-! ## Reading -/

/-- The table of an entry is whatever is found there. -/
structure Loaded where
  table : Json
  timestamp : Datetime

/-- What a `for` loop over the document runs through. -/
def iterate : Json → Except Exn (List Json)
  | .arr vs => .ok vs
  | .obj fields => .ok (fields.map fun f => .str f.1)
  | .str s => .ok (s.toList.map fun c => .str (String.ofList [c]))
  | _ => .error (.exception "object is not iterable")

/-- `item.get(name)` -/
def getField (item : Json) (name : String) : Except Exn (Option Json) :=
  match item with
  | .obj fields => .ok (fields.lookup name)
  | _ => .error (.exception "object has no attribute 'get'")

/-- `parse_rfc3339(str(ts))`: of the other values no text is a date. -/
def parseTimestamp : Json → Except Exn Datetime
  | .str s =>
    match parseRfc3339 s.toList with
    | some t => .ok t
    | none => .error (.valueError "Invalid isoformat string")
  | _ => .error (.valueError "Invalid isoformat string")

/-- Nothing, or a value that counts as nothing. -/
def isMissing : Option Json → Bool
  | none => true
  | some v => Drivers.isFalsy v

section

variable (repr : List Char → String)

/-- `json.loads` -/
def decode (text : String) : Except Exn Json :=
  match loads repr text with
  | some v => .ok v
  | none => .error (.valueError "not a JSON document")

def loadItem (item : Json) : Except Exn Loaded := do
  let ts ← getField item "Timestamp"
  let timestamp ← if isMissing ts then .ok (Datetime.utc 0) else parseTimestamp (ts.getD .null)
  let table ← getField item "Table"
  pure ⟨table.getD (.str ""), timestamp⟩

/-- `stored` is what the tracker has under `table-export`. -/
def loadTableExportInfo (stored : Option String) : Except Exn (Option (List Loaded)) :=
  match stored with
  | none => .ok none
  | some val => do
    let data ← decode repr val
    let items ← iterate data
    let out ← items.mapM loadItem
    pure (some out)

namespace Fork

/-- A key of a dictionary: numbers are one key if they are equal, lists and dictionaries are
none. -/
inductive Key where
  | none
  | str (s : String)
  | number (q : ℚ)
  | word (text : String)
  deriving DecidableEq

def keyOf : Json → Except Exn Key
  | .null => .ok .none
  | .bool b => .ok (.number (if b then 1 else 0))
  | .int n => .ok (.number n)
  | .float text =>
    .ok (if isFinite text then .number (Binary64.round (Decimal.ofRepr text).value) else .word text)
  | .str s => .ok (.str s)
  | _ => .error (.exception "unhashable type")

/-- A time that is not read is none. -/
def cutoffOf (ts : Option Json) : Except Exn (Option Datetime) :=
  if isMissing ts then .ok none
  else match parseTimestamp (ts.getD .null) with
    | .ok t => .ok (some t)
    | .error (.valueError _) => .ok none
    | .error e => .error e

def loadItem (item : Json) : Except Exn (Key × Option Datetime) := do
  let table ← getField item "Table"
  let ts ← getField item "Timestamp"
  let cutoff ← cutoffOf ts
  let key ← keyOf (table.getD (.str ""))
  pure (key, cutoff)

/-- `_load_table_export_info` -/
def loadTableExportInfo (stored : Option String) :
    Except Exn (Option (Dict Key (Option Datetime))) :=
  match stored with
  | none => .ok none
  | some val => do
    let data ← decode repr val
    let items ← iterate data
    let entries ← items.mapM loadItem
    pure (some (Dict.ofList entries))

end Fork

end

/-! ## What is read back -/

variable {repr : List Char → String} {infos : List TableExportInfo}

def TableExportInfo.json (i : TableExportInfo) : Json :=
  .obj [("Table", .str i.table), ("Timestamp", .str (String.ofList (rfc3339 i.timestamp)))]

theorem gojson_eq (i : TableExportInfo) :
    i.gojson = "\x7b" ++ commas [writtenField "Table" (encodeString i.table),
      writtenField "Timestamp" (encodeString (String.ofList (rfc3339 i.timestamp)))] ++ "\x7d" := by
  have htable : encodeString "Table" = "\"Table\"" := encodeString_clean (by decide)
  have htime : encodeString "Timestamp" = "\"Timestamp\"" := encodeString_clean (by decide)
  rw [TableExportInfo.gojson, writtenField, writtenField, htable, htime, ← String.toList_inj]
  simp only [String.toList_append, toList_commas, List.map_cons, List.map_nil, Lexing.Json.joined,
    List.intercalate_cons_cons, List.intercalate_singleton, List.append_assoc]
  generalize (encodeString i.table).toList = table
  generalize (encodeString (String.ofList (rfc3339 i.timestamp))).toList = timestamp
  rfl

theorem denotes_gojson (i : TableExportInfo) : Denotes repr i.json i.gojson := by
  rw [gojson_eq]
  have hmembers : ∀ m ∈ [("Table", Json.str i.table, encodeString i.table),
      ("Timestamp", Json.str (String.ofList (rfc3339 i.timestamp)),
        encodeString (String.ofList (rfc3339 i.timestamp)))], Denotes repr m.2.1 m.2.2 :=
    List.forall_mem_cons.mpr ⟨denotes_str _, List.forall_mem_singleton.mpr (denotes_str _)⟩
  have hobj := Denotes.obj (by simp) hmembers
  rw [List.map_cons, List.map_cons, List.map_nil, List.map_cons, List.map_cons, List.map_nil] at hobj
  exact hobj

theorem decode_marshal : decode repr (marshalTableExportInfo infos) =
    .ok (.arr (infos.map TableExportInfo.json)) := by
  have hparts : ∀ p ∈ infos.map fun i => (i.json, i.gojson), Denotes repr p.1 p.2 := by
    intro p hp
    obtain ⟨i, -, rfl⟩ := List.mem_map.mp hp
    exact denotes_gojson i
  have harr := Denotes.arr hparts
  have hvalues : (infos.map fun i => (i.json, i.gojson)).map Prod.fst = infos.map TableExportInfo.json :=
    List.map_map
  have htexts : (infos.map fun i => (i.json, i.gojson)).map Prod.snd = infos.map TableExportInfo.gojson :=
    List.map_map
  rw [hvalues, htexts] at harr
  rw [decode, marshalTableExportInfo, harr.loads]

/-- The instants whose year has four digits. -/
def FourDigits (t : Int) : Prop := 1000 ≤ (civil t).year ∧ (civil t).year ≤ 9999

theorem fourDigits_iff {t : Int} :
    FourDigits t ↔ yearStart 1000 ≤ (t / 1000000 + yearStart 1970).toNat ∧
      (t / 1000000 + yearStart 1970).toNat < yearStart 10000 := by
  rw [← Nat.not_lt, ← year_ofSeconds_lt_iff, ← year_ofSeconds_lt_iff, Nat.not_lt, Nat.lt_succ_iff]
  rfl

theorem parseTimestamp_rfc3339 {t : Int} (h : FourDigits t) :
    parseTimestamp (.str (String.ofList (rfc3339 t))) = .ok (Datetime.utc t) := by
  rw [parseTimestamp, String.toList_ofList, parseRfc3339_rfc3339 h.1 h.2]

theorem not_isMissing (t : Int) : isMissing (some (.str (String.ofList (rfc3339 t)))) = false := by
  refine beq_false_of_ne fun hempty => ?_
  have hnil := congrArg String.toList hempty
  rw [String.toList_ofList, rfc3339, String.toList_empty] at hnil
  exact List.append_ne_nil_of_right_ne_nil _ (List.cons_ne_nil 'Z' []) hnil

theorem getField_table (i : TableExportInfo) : getField i.json "Table" = .ok (some (.str i.table)) := by
  simp only [getField, TableExportInfo.json, List.lookup_cons, beq_self_eq_true]

theorem getField_timestamp (i : TableExportInfo) :
    getField i.json "Timestamp" = .ok (some (.str (String.ofList (rfc3339 i.timestamp)))) := by
  have hother : ("Timestamp" == "Table") = false := by decide
  simp only [getField, TableExportInfo.json, List.lookup_cons, hother, beq_self_eq_true]

theorem loadItem_json {i : TableExportInfo} (h : FourDigits i.timestamp) :
    loadItem i.json = .ok ⟨.str i.table, Datetime.utc i.timestamp⟩ := by
  refine bind_eq_ok.mpr ⟨_, getField_timestamp i, ?_⟩
  simp only [not_isMissing, Bool.false_eq_true, if_false, Option.getD_some,
    parseTimestamp_rfc3339 h, getField_table]
  rfl

theorem Fork.loadItem_json {i : TableExportInfo} (h : FourDigits i.timestamp) :
    Fork.loadItem i.json = .ok (.str i.table, some (Datetime.utc i.timestamp)) := by
  have hcutoff : cutoffOf (some (.str (String.ofList (rfc3339 i.timestamp)))) =
      .ok (some (Datetime.utc i.timestamp)) := by
    rw [cutoffOf, not_isMissing, Option.getD_some, parseTimestamp_rfc3339 h]
    rfl
  refine bind_eq_ok.mpr ⟨_, getField_table i, bind_eq_ok.mpr ⟨_, getField_timestamp i, ?_⟩⟩
  exact bind_eq_ok.mpr ⟨_, hcutoff, rfl⟩

theorem mapM_json {α : Type} {load : Json → Except Exn α} {f : TableExportInfo → α}
    (h : ∀ i ∈ infos, load i.json = .ok (f i)) :
    (infos.map TableExportInfo.json).mapM load = .ok (infos.map f) := by
  refine mapM_eq_ok.mpr (List.forall₂_map_left_iff.mpr ?_)
  exact List.forall₂_map_right_iff.mpr (List.forall₂_same.mpr h)

/-- The list that was stored is read back, and the fork finds the last time of each table. -/
theorem cutoffs_round_trip (repr : List Char → String) (infos : List TableExportInfo)
    (h : ∀ i ∈ infos, FourDigits i.timestamp) :
    loadTableExportInfo repr (some (marshalTableExportInfo infos)) =
        .ok (some (infos.map fun i => ⟨.str i.table, Datetime.utc i.timestamp⟩)) ∧
      ∃ cutoffs, Fork.loadTableExportInfo repr (some (marshalTableExportInfo infos)) =
          .ok (some cutoffs) ∧
        ∀ key, cutoffs.get? key =
          ((infos.map fun i => (Fork.Key.str i.table, some (Datetime.utc i.timestamp))).reverse.lookup
            key) := by
  constructor
  · show (do
      let data ← decode repr (marshalTableExportInfo infos)
      let items ← iterate data
      let out ← items.mapM loadItem
      pure (some out)) = _
    rw [decode_marshal]
    show (do
      let out ← (infos.map TableExportInfo.json).mapM loadItem
      pure (some out)) = _
    rw [mapM_json fun i hi => loadItem_json (h i hi)]
    rfl
  · refine ⟨Dict.ofList (infos.map fun i => (Fork.Key.str i.table, some (Datetime.utc i.timestamp))),
      ?_, fun key => Dict.get?_ofList _ key⟩
    show (do
      let data ← decode repr (marshalTableExportInfo infos)
      let items ← iterate data
      let entries ← items.mapM Fork.loadItem
      pure (some (Dict.ofList entries))) = _
    rw [decode_marshal]
    show (do
      let entries ← (infos.map TableExportInfo.json).mapM Fork.loadItem
      pure (some (Dict.ofList entries))) = _
    rw [mapM_json fun i hi => Fork.loadItem_json (h i hi)]
    rfl

/-- A table that stands twice, and one with a name in quotes, at times with and without fractions. -/
def exportTimes : List TableExportInfo :=
  [⟨"order", 1728235829951123⟩, ⟨"\"é\"", 1728235829500000⟩, ⟨"order", 1728235830000000⟩]

theorem cutoffs_round_trip_tables :
    loadTableExportInfo String.ofList (some (marshalTableExportInfo exportTimes)) =
        .ok (some (exportTimes.map fun i => ⟨.str i.table, Datetime.utc i.timestamp⟩)) ∧
      ∃ cutoffs, Fork.loadTableExportInfo String.ofList
          (some (marshalTableExportInfo exportTimes)) = .ok (some cutoffs) ∧
        cutoffs.get? (.str "order") = some (some (Datetime.utc 1728235830000000)) ∧
        cutoffs.get? (.str "\"é\"") = some (some (Datetime.utc 1728235829500000)) ∧
        cutoffs.get? (.str "user") = none := by
  have hdigits : ∀ i ∈ exportTimes, FourDigits i.timestamp := by
    intro i hi
    rw [fourDigits_iff]
    revert i
    decide +kernel
  obtain ⟨hread, cutoffs, hload, hget⟩ := cutoffs_round_trip String.ofList exportTimes hdigits
  refine ⟨hread, cutoffs, hload, ?_, ?_, ?_⟩
  · rw [hget]
    rfl
  · rw [hget]
    rfl
  · rw [hget]
    rfl

end Import
end Eds
