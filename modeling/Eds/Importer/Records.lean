import Eds.Event
import Mathlib.Data.List.TakeWhile

/-!
# The records of an export file

An export file is read line by line.  Blank lines are skipped, and each other line
is one JSON value, which becomes an insert event of the table the file is for.

A `Reading` is the outcome of one `readline`.  The readings of a file go on behind
a failed one, with the lines that a reader without the failure would have seen, so
that the contents of the file do not depend on where reading it fails.
-/

namespace Eds
namespace Importer

/-! ## The decoder -/

/-- `str.isspace` of one character. -/
def isSpace (c : Char) : Bool :=
  let n := c.toNat
  (9 ≤ n && n ≤ 13) || (28 ≤ n && n ≤ 32) || (0x2000 ≤ n && n ≤ 0x200A) ||
    [0x85, 0xA0, 0x1680, 0x2028, 0x2029, 0x202F, 0x205F, 0x3000].contains n

def strip (s : String) : String :=
  String.ofList ((s.toList.dropWhile isSpace).reverse.dropWhile isSpace).reverse

/-- `cut` is an `OSError` or an `EOFError`, as a truncated file gives; `raised` is any
other exception, as a line that is not UTF-8 gives. -/
inductive Reading where
  | line (text : String)
  | cut
  | raised (e : Exn)
  deriving DecidableEq

def Reading.isCut : Reading → Bool
  | cut => true
  | _ => false

/-- The record that a reading holds; a blank line has none. -/
def Reading.record? : Reading → Option String
  | line text => if strip text = "" then none else some (strip text)
  | _ => none

/-- The records of the file in full. -/
def contents (lines : List Reading) : List String := lines.filterMap Reading.record?

/-- What is read before the first `cut`. -/
def readable (lines : List Reading) : List Reading := lines.takeWhile fun r => !r.isCut

theorem readable_eq_self {lines : List Reading} (h : Reading.cut ∉ lines) : readable lines = lines := by
  rw [readable, List.takeWhile_eq_self_iff]
  intro r hr
  cases r with
  | cut => exact absurd hr h
  | line text => rfl
  | raised e => rfl

theorem contents_readable_blank {text : String} (h : strip text = "") (rest : List Reading) :
    contents (readable (.line text :: rest)) = contents (readable rest) := by
  have hnone : (Reading.line text).record? = none := if_pos h
  rw [readable, List.takeWhile_cons_of_pos rfl, contents, List.filterMap_cons_none hnone]
  rfl

theorem contents_readable_line {text : String} (h : strip text ≠ "") (rest : List Reading) :
    contents (readable (.line text :: rest)) = strip text :: contents (readable rest) := by
  have hsome : (Reading.line text).record? = some (strip text) := if_neg h
  rw [readable, List.takeWhile_cons_of_pos rfl, contents, List.filterMap_cons_some hsome]
  rfl

/-! ## The event -/

/-- `loads` is `json.loads` with integers read as doubles, and `checkJson` the call that
rejects `NaN` and the infinities; both raise what they raise. -/
structure JsonLib where
  checkJson : String → Except Exn Unit
  loads : String → Except Exn Json

/-- A JSON null yields no object. -/
def objectOf : Json → Except Exn (Option (List (String × Json)))
  | .null => .ok none
  | .obj fields => .ok (some fields)
  | _ => .error (.valueError "before/after is malformed")

def getObject (json : JsonLib) (raw : String) : Except Exn (Option (List (String × Json))) := do
  let value ← json.loads raw
  objectOf value

/-- `o.get(name)`, if it is a string. -/
def textAt (o : Option (List (String × Json))) (name : String) : Option String :=
  match (o.getD []).lookup name with
  | some (.str v) => some v
  | _ => none

/-- The fields of a change event that only an import sets. -/
structure ImportedEvent extends DBChangeEvent where
  id : String
  locationId : Option String
  userId : Option String
  imported : Bool

/-- A company id takes the place of the location id. -/
def syntheticEvent (json : JsonLib) (eventId : String) (table : String) (data : Schema)
    (unixNano : Int) (raw : String) (o : Option (List (String × Json))) : ImportedEvent where
  operation := .str "INSERT"
  table := .str table
  modelVersion := .str data.modelVersion
  object := o
  diff := .null
  timestamp := unixNano / 1000000
  schemaValidatedPath := none
  key := .arr [.str ((textAt o "id").getD "")]
  after := (json.loads raw).toOption
  mvccTimestamp := .str (toString unixNano)
  id := eventId
  locationId := (textAt o "companyId").or (textAt o "locationId")
  userId := textAt o "userId"
  imported := true

end Importer
end Eds
