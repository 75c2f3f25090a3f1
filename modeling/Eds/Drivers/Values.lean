import Eds.Util.Gojson
import Eds.Util.Sql

/-!
# What the builders read of an event

`key`, `diff`, `table` and `mvccTimestamp` are whatever JSON the message had there.
The builders index, iterate and join them, and raise where the value does not allow
it.
-/

namespace Eds
namespace Drivers

open Util

/-- `v or []` is the empty list. -/
def isFalsy : Json → Bool
  | .null => true
  | .bool b => !b
  | .int n => n == 0
  | .float text => text == "0.0" || text == "-0.0"
  | .str s => s == ""
  | .arr vs => vs.isEmpty
  | .obj fields => fields.isEmpty

/-- `(c.key or [])[i]` -/
def keyAt (key : Json) (i : Nat) : Except Exn Json :=
  if isFalsy key then .error (.exception "list index out of range")
  else match key with
    | .arr vs =>
      match vs[i]? with
      | some v => .ok v
      | none => .error (.exception "list index out of range")
    | .str s =>
      match s.toList[i]? with
      | some c => .ok (.str (String.ofList [c]))
      | none => .error (.exception "string index out of range")
    | .obj _ => .error (.exception (toString i))
    | _ => .error (.exception "object is not subscriptable")

/-- The names in `diff or []`.  What is not a string is not a column. -/
def diffNames (diff : Json) : Except Exn (List String) :=
  if isFalsy diff then .ok []
  else match diff with
    | .arr vs => .ok (vs.filterMap fun v => match v with | .str s => some s | _ => none)
    | .str s => .ok (s.toList.map fun c => String.ofList [c])
    | .obj fields => .ok (fields.map Prod.fst)
    | _ => .error (.exception "object is not iterable")

def tableName : Json → Except Exn String
  | .str s => .ok s
  | _ => .error (.exception "the table is not a string")

/-- A bare numeric literal, or `NULL` for nothing. -/
def mvccText (mvcc : Json) : Except Exn String :=
  if isFalsy mvcc then .ok "NULL"
  else match mvcc with
    | .str s => .ok s
    | _ => .error (.exception "sequence item: expected str instance")

/-- `json.loads(c.after.value, parse_int=float)`, if it is an object. -/
def afterObject (evt : DBChangeEvent) : List (String × Json) :=
  match evt.after with
  | some (.obj fields) => fields
  | _ => []

/-- `c.get_object() or {}` -/
def getObject (evt : DBChangeEvent) : List (String × Json) := evt.object.getD []

/-! ## Timestamps in strings -/

def isDigits (cs : List Char) : Bool := cs.all isAsciiDigit

/-- `_atoi`: base 10, with a sign or without.  `int` reads 4300 digits and no more. -/
def atoi (s : String) : Option Int :=
  let value (ds : List Char) : Option Int :=
    if ds.isEmpty ∨ ¬ isDigits ds ∨ 4300 < ds.length then none
    else some (ds.foldl (fun n d => 10 * n + (d.toNat - '0'.toNat : Nat)) 0)
  match s.toList with
  | '-' :: ds => (value ds).map fun n => -n
  | '+' :: ds => value ds
  | ds => value ds

/-- A string that looks like a timestamp, in its parts.  `tail` stands between the
seconds and the final `Z`: nothing, or a character and digits. -/
structure Stamp where
  year : List Char
  month : List Char
  day : List Char
  hour : List Char
  minute : List Char
  second : List Char
  tail : List Char

/-- `[0-9]{4}-[0-9]{2}-[0-9]{2}T[0-9]{2}:[0-9]{2}:[0-9]{2}(.[0-9]{1,})?Z`, where the
point stands for any character but a newline. -/
def stamp? (s : String) : Option Stamp :=
  match s.toList with
  | y₁ :: y₂ :: y₃ :: y₄ :: '-' :: m₁ :: m₂ :: '-' :: d₁ :: d₂ :: 'T' :: h₁ :: h₂ :: ':' ::
      n₁ :: n₂ :: ':' :: s₁ :: s₂ :: rest =>
    let digits := isDigits [y₁, y₂, y₃, y₄, m₁, m₂, d₁, d₂, h₁, h₂, n₁, n₂, s₁, s₂]
    let tail := rest.dropLast
    let matchesTail := match tail with
      | [] => true
      | c :: ds => c != '\n' && !ds.isEmpty && isDigits ds
    if digits && rest.getLast? == some 'Z' && matchesTail then
      some ⟨[y₁, y₂, y₃, y₄], [m₁, m₂], [d₁, d₂], [h₁, h₂], [n₁, n₂], [s₁, s₂], tail⟩
    else none
  | _ => none

def daysIn (year month : Nat) : Nat :=
  if month = 2 then (if year % 4 = 0 ∧ (year % 100 ≠ 0 ∨ year % 400 = 0) then 29 else 28)
  else if month = 4 ∨ month = 6 ∨ month = 9 ∨ month = 11 then 30
  else 31

/-- `strptime` of the part before the fraction; a tail without a point is part of it. -/
def Stamp.check (t : Stamp) (year : Nat) : Except String Unit :=
  let fraction := t.tail.head? == some '.'
  let base := t.year ++ ['-'] ++ t.month ++ ['-'] ++ t.day ++ ['T'] ++ t.hour ++ [':'] ++ t.minute ++
    [':'] ++ t.second ++ (if fraction then [] else t.tail)
  let month := readNat t.month
  let day := readNat t.day
  let second := readNat t.second
  if month < 1 ∨ 12 < month ∨ day < 1 ∨ 31 < day ∨ 23 < readNat t.hour ∨ 59 < readNat t.minute then
    .error ("time data '" ++ String.ofList base ++ "' does not match format '%Y-%m-%dT%H:%M:%S'")
  else if 61 < second then
    .error ("unconverted data remains: " ++
      String.ofList (t.second.drop 1 ++ (if fraction then [] else t.tail)))
  else if !fraction && !t.tail.isEmpty then
    .error ("unconverted data remains: " ++ String.ofList t.tail)
  else if daysIn year month < day then .error "day is out of range for month"
  else if 59 < second then .error "second must be in 0..59"
  else .ok ()

/-- Microseconds, without trailing zeros; the rest of the fraction is cut. -/
def Stamp.fractionText (t : Stamp) : String :=
  match (((t.tail.drop 1 ++ ['0', '0', '0', '0', '0', '0']).take 6).reverse.dropWhile (· = '0')).reverse with
  | [] => ""
  | ds => "." ++ String.ofList ds

/-- The text of a string value, with timestamps rewritten and floored at 1970. -/
def quoteStringValue (escape : String → String) (v : String) : Except Exn String :=
  match stamp? v with
  | none => .ok ("'" ++ escape v ++ "'")
  | some t =>
    let year := readNat t.year
    let t' := if year < 1 then { t with year := ['2', '0', '0', '0'] } else t
    match t'.check (if year < 1 then 2000 else year) with
    | .error e => .error (.valueError ("error parsing: " ++ v ++ ". " ++ e))
    | .ok () =>
      if year < 1970 then .ok "'1970-01-01 00:00:01'"
      else .ok ("'" ++ String.ofList (t.year ++ ['-'] ++ t.month ++ ['-'] ++ t.day ++ [' '] ++ t.hour ++
        [':'] ++ t.minute ++ [':'] ++ t.second) ++ t.fractionText ++ "'")

end Drivers
end Eds
