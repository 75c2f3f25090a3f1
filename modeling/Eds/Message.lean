import Eds.Drivers.S3.Flush

/-!
# From a message to an event

`from_message` asks little: that the message is a JSON object, that `before` and
`after` are objects or null, and that a primary key can be found in one of several
places.  The other fields are copied with the values they have.

`before` and `after` are written out again and parsed from that text with all
numbers read as doubles.  The text fails on a number that is not finite, and is read
back as the value otherwise, so that only the numbers change.
-/

namespace Eds

open Drivers

/-- The decoder of bytes (`errors="replace"`), `json.loads` or the text of its
`ValueError`, `int(v)`, the shortest text of `float(n)`, and `str(v)`. -/
structure Runtime where
  decode : List UInt8 → String
  loads : List UInt8 → Except String Json
  toInt : Json → Except Exn Int
  toFloat : Int → String
  str : Json → String

namespace Message

variable (rt : Runtime)

mutual

/-- `parse_int=float` -/
def floated : Json → Json
  | .int n => .float (rt.toFloat n)
  | .arr vs => .arr (floatedItems vs)
  | .obj fields => .obj (floatedFields fields)
  | .null => .null
  | .bool b => .bool b
  | .float text => .float text
  | .str s => .str s

def floatedItems : List Json → List Json
  | [] => []
  | v :: rest => floated v :: floatedItems rest

def floatedFields : List (String × Json) → List (String × Json)
  | [] => []
  | (name, v) :: rest => (name, floated v) :: floatedFields rest

end

/-- `m.get(key, default)` -/
def field (m : List (String × Json)) (key : String) (default : Json) : Json :=
  (m.lookup key).getD default

/-- The raw field, as the value that its text is parsed to. -/
def rawField (m : List (String × Json)) (key : String) : Except Exn (Option Json) :=
  match m.lookup key with
  | none => .ok none
  | some v =>
    match Util.marshal v with
    | .error msg => .error (.valueError msg)
    | .ok _ => .ok (some (floated rt v))

def parseObject : Json → Except String (Option (List (String × Json)))
  | .null => .ok none
  | .obj fields => .ok (some fields)
  | _ => .error "before/after is malformed"

/-- `after` counts when it is there, be it null. -/
def getObject (before after : Option Json) : Except String (Option (List (String × Json))) :=
  match after, before with
  | some v, _ => parseObject v
  | none, some v => parseObject v
  | none, none => .ok none

def fromMessage (data : List UInt8) (seq : Int) : Except Exn DBChangeEvent :=
  let ending := s!" (seq:{seq}) raw message:\n" ++ rt.decode data
  match rt.loads data with
  | .error e =>
    .error (.valueError ("error unmarshalling message into DBChangeEvent: " ++ e ++ ending))
  | .ok (.obj m) => do
    let before ← rawField rt m "before"
    let after ← rawField rt m "after"
    let timestamp ← rt.toInt (field m "timestamp" (.int 0))
    match getObject before after with
    | .error e =>
      .error (.valueError ("error getting object (before/after is malformed): " ++ e ++ ending))
    | .ok object => do
      let evt : DBChangeEvent :=
        { operation := field m "operation" (.str "")
          table := field m "table" (.str "")
          modelVersion := field m "modelVersion" (.str "")
          object := object
          diff := field m "diff" .null
          timestamp := timestamp
          schemaValidatedPath := none
          key := field m "key" .null
          after := after
          mvccTimestamp := field m "mvccTimestamp" (.str "") }
      let pk ← S3.getPrimaryKey evt
      if pk.eqStr "" then
        .error (.valueError ("primary key is empty: " ++ rt.str (field m "id" (.str "")) ++ ending))
      else .ok evt
  | .ok _ =>
    .error (.valueError ("error unmarshalling message into DBChangeEvent: not an object" ++ ending))

/-! ## What an accepted message has -/

variable {rt} {data : List UInt8} {seq : Int} {c : DBChangeEvent}

/-- The primary key of an accepted message was found and is not the empty string. -/
theorem getPrimaryKey_of_fromMessage (h : fromMessage rt data seq = .ok c) :
    ∃ pk, S3.getPrimaryKey c = .ok pk ∧ pk.eqStr "" = false := by
  rw [fromMessage] at h
  split at h
  · cases h
  · next m _ =>
    obtain ⟨before, _, h⟩ := Collections.bind_eq_ok.mp h
    obtain ⟨after, _, h⟩ := Collections.bind_eq_ok.mp h
    obtain ⟨timestamp, _, h⟩ := Collections.bind_eq_ok.mp h
    split at h
    · cases h
    · obtain ⟨pk, hpk, h⟩ := Collections.bind_eq_ok.mp h
      split at h
      · cases h
      · next hne =>
        cases h
        exact ⟨pk, hpk, by simpa using hne⟩
  · cases h

/-- A key that is there has a first element. -/
theorem keyAt_of_fromMessage (h : fromMessage rt data seq = .ok c) (hkey : isFalsy c.key = false) :
    ∃ v, keyAt c.key 0 = .ok v := by
  obtain ⟨pk, hpk, _⟩ := getPrimaryKey_of_fromMessage h
  cases hjson : c.key with
  | arr vs =>
    rw [hjson] at hkey
    cases vs with
    | nil => cases hkey
    | cons v rest => exact ⟨v, rfl⟩
  | str s =>
    rw [hjson] at hkey
    cases hs : s.toList with
    | nil =>
      rw [String.toList_eq_nil_iff] at hs
      rw [hs] at hkey
      cases hkey
    | cons first rest =>
      refine ⟨.str (String.ofList [first]), ?_⟩
      simp only [keyAt, hkey, hs, List.getElem?_cons_zero]
      rfl
  | _ =>
    rw [hjson] at hkey
    simp only [S3.getPrimaryKey, hjson, hkey] at hpk
    cases hpk

end Message
end Eds
