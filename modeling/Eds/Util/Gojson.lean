import Eds.Event
import Eds.Util.Gofloat

/-!
# JSON texts

`marshal` writes a value the way the upstream encoder does: compact, keys in code
point order, `<`, `>` and `&` escaped; `marshalWith` has a choice for the keys.  A
non-finite number is an error, and `stringify` turns the error into the empty text.
-/

namespace Eds
namespace Util

def hexDigits (n : Nat) : String :=
  let ds := Nat.toDigits 16 n
  String.ofList (List.replicate (4 - ds.length) '0' ++ ds)

def escapeChar (c : Char) : String :=
  if c = '"' then "\\\""
  else if c = '\\' then "\\\\"
  else if c = '\n' then "\\n"
  else if c = '\r' then "\\r"
  else if c = '\t' then "\\t"
  else if c.toNat < 0x20 ∨ c = '<' ∨ c = '>' ∨ c = '&' ∨ c.toNat = 0x2028 ∨ c.toNat = 0x2029 then
    "\\u" ++ hexDigits c.toNat
  else String.ofList [c]

def encodeString (s : String) : String :=
  "\"" ++ String.join (s.toList.map escapeChar) ++ "\""

def commas (parts : List String) : String := String.intercalate "," parts

/-- A field of an object as it is written. -/
def writtenField (key text : String) : String := encodeString key ++ ":" ++ text

/-- In the order of the keys. -/
def byKey {α : Type} (fields : List (String × α)) : List (String × α) :=
  fields.mergeSort fun p q => decide (p.1 ≤ q.1)

/-- The fields of an object in the order in which they are written. -/
def keyOrder {α : Type} (sort : Bool) (fields : List (String × α)) : List (String × α) :=
  if sort then byKey fields else fields

mutual

/-- `marshal(val, sort_keys=sort)` -/
def marshalWith (sort : Bool) : Json → Except String String
  | .null => .ok "null"
  | .bool b => .ok (if b then "true" else "false")
  | .int n => .ok (toString n)
  | .float text => formatJson text
  | .str s => .ok (encodeString s)
  | .arr vs => (marshalItemsWith sort vs).map fun parts => "[" ++ commas parts ++ "]"
  | .obj fields => (marshalFieldsWith sort fields).map fun parts =>
    "\x7b" ++ commas ((keyOrder sort parts).map fun p => writtenField p.1 p.2) ++ "\x7d"

def marshalItemsWith (sort : Bool) : List Json → Except String (List String)
  | [] => .ok []
  | v :: rest => do
    let part ← marshalWith sort v
    let parts ← marshalItemsWith sort rest
    pure (part :: parts)

def marshalFieldsWith (sort : Bool) : List (String × Json) → Except String (List (String × String))
  | [] => .ok []
  | (name, v) :: rest => do
    let part ← marshalWith sort v
    let parts ← marshalFieldsWith sort rest
    pure ((name, part) :: parts)

end

/-- The keys are sorted unless the caller says otherwise. -/
def marshal (v : Json) : Except String String := marshalWith true v

def stringify (v : Json) : String :=
  match marshal v with
  | .ok text => text
  | .error _ => ""

end Util
end Eds
