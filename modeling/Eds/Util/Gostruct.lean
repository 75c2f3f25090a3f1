import Eds.Drivers.Values
import Eds.Util.Loads

/-!
# Structs as JSON

A dataclass is written in the order of its declaration, each field under its key unless its
rule omits it; a dictionary of dataclasses is written in the order of its keys.  The rule for
raw JSON belongs to the fields of an event and is left out.  `denotes_encode` says what is
read back: the object of the fields that were not omitted.
-/

namespace Eds
namespace Util

open Collections

inductive OmitEmpty
  | never
  | ifNone
  | ifFalsy

/-- A plain value, a dataclass with its metadata, or a dictionary of such values. -/
inductive Value where
  | plain (v : Json)
  | struct (fields : List (String × OmitEmpty × Value))
  | map (entries : List (String × Value))

def Value.isNone : Value → Bool
  | .plain .null => true
  | _ => false

/-- A dataclass is never falsy. -/
def Value.isFalsy : Value → Bool
  | .plain v => Drivers.isFalsy v
  | .struct _ => false
  | .map entries => entries.isEmpty

def omitted : OmitEmpty → Value → Bool
  | .never, _ => false
  | .ifNone, v => v.isNone
  | .ifFalsy, v => v.isFalsy

mutual

/-- `_encode` for what has dataclasses in it, and `gojson_struct` for a dataclass. -/
def encode : Value → Except String String
  | .plain v => marshal v
  | .struct fields => (encodeStruct fields).map fun parts => "\x7b" ++ commas parts ++ "\x7d"
  | .map entries => (encodeEntries entries).map fun parts =>
    "\x7b" ++ commas ((byKey parts).map fun p => writtenField p.1 p.2) ++ "\x7d"

def encodeStruct : List (String × OmitEmpty × Value) → Except String (List String)
  | [] => .ok []
  | (key, rule, v) :: rest =>
    if omitted rule v then encodeStruct rest
    else do
      let text ← encode v
      let parts ← encodeStruct rest
      pure (("\"" ++ key ++ "\":" ++ text) :: parts)

def encodeEntries : List (String × Value) → Except String (List (String × String))
  | [] => .ok []
  | (name, v) :: rest => do
    let text ← encode v
    let parts ← encodeEntries rest
    pure ((name, text) :: parts)

end

def stringifyValue (v : Value) : String :=
  match encode v with
  | .ok text => text
  | .error _ => ""

mutual

/-- The JSON value that is written. -/
def Value.json : Value → Json
  | .plain v => sortKeys v
  | .struct fields => .obj (structJson fields)
  | .map entries => .obj (byKey (entriesJson entries))

def structJson : List (String × OmitEmpty × Value) → List (String × Json)
  | [] => []
  | (key, rule, v) :: rest =>
    if omitted rule v then structJson rest else (key, v.json) :: structJson rest

def entriesJson : List (String × Value) → List (String × Json)
  | [] => []
  | (name, v) :: rest => (name, v.json) :: entriesJson rest

end

section

variable (repr : List Char → String)

mutual

/-- The keys of a dataclass need no escape, and no key occurs twice. -/
def Value.Regular : Value → Prop
  | .plain v => Readable repr v
  | .struct fields => (fields.map Prod.fst).Nodup ∧ RegularStruct fields
  | .map entries => (entries.map Prod.fst).Nodup ∧ RegularEntries entries

def RegularStruct : List (String × OmitEmpty × Value) → Prop
  | [] => True
  | (key, _, v) :: rest => Clean key ∧ v.Regular ∧ RegularStruct rest

def RegularEntries : List (String × Value) → Prop
  | [] => True
  | (_, v) :: rest => v.Regular ∧ RegularEntries rest

end

end

variable {repr : List Char → String}

theorem writtenField_clean {key : String} (h : Clean key) (text : String) :
    writtenField key text = "\"" ++ key ++ "\":" ++ text := by
  have hcolon : "\"" ++ ":" = "\":" := rfl
  rw [writtenField, encodeString_clean h, ← hcolon]
  simp only [String.append_assoc]

theorem encode_struct {fields : List (String × OmitEmpty × Value)} {parts : List String}
    (h : encodeStruct fields = .ok parts) :
    encode (.struct fields) = .ok ("\x7b" ++ commas parts ++ "\x7d") := by
  rw [encode, h]
  rfl

theorem encode_map {entries : List (String × Value)} {parts : List (String × String)}
    (h : encodeEntries entries = .ok parts) :
    encode (.map entries) =
      .ok ("\x7b" ++ commas ((byKey parts).map fun p => writtenField p.1 p.2) ++ "\x7d") := by
  rw [encode, h]
  rfl

mutual

theorem denotes_encode : ∀ v : Value, v.Regular repr →
    ∃ text, encode v = .ok text ∧ Denotes repr v.json text
  | .plain v, h => by
    rw [Value.json, encode]
    exact denotes_marshal v h
  | .struct fields, h => by
    obtain ⟨members, hencode, hjson, hkeys, hdenotes⟩ := denotes_encodeStruct fields h.2
    refine ⟨_, encode_struct hencode, ?_⟩
    rw [Value.json, hjson]
    exact Denotes.obj (h.1.sublist hkeys) hdenotes
  | .map entries, h => by
    obtain ⟨members, hencode, hjson, hkeys, hdenotes⟩ := denotes_encodeEntries entries h.2
    refine ⟨_, encode_map hencode, ?_⟩
    rw [Value.json, hjson]
    exact Denotes.sorted (hkeys ▸ h.1) hdenotes

theorem denotes_encodeStruct : ∀ fields, RegularStruct repr fields →
    ∃ members : List (String × Json × String),
      encodeStruct fields = .ok (members.map fun m => writtenField m.1 m.2.2) ∧
      structJson fields = members.map (fun m => (m.1, m.2.1)) ∧
      (members.map Prod.fst).Sublist (fields.map Prod.fst) ∧
      ∀ m ∈ members, Denotes repr m.2.1 m.2.2
  | [], _ => ⟨[], rfl, rfl, List.Sublist.refl [], fun _ hm => absurd hm List.not_mem_nil⟩
  | (key, rule, v) :: rest, h => by
    obtain ⟨members, hrest, hjson, hkeys, hmembers⟩ := denotes_encodeStruct rest h.2.2
    by_cases homitted : omitted rule v = true
    · refine ⟨members, ?_, ?_, hkeys.cons key, hmembers⟩
      · rw [encodeStruct, if_pos homitted, hrest]
      · rw [structJson, if_pos homitted, hjson]
    · obtain ⟨text, hencode, hdenotes⟩ := denotes_encode v h.2.1
      refine ⟨(key, v.json, text) :: members, ?_, ?_, hkeys.cons_cons key, fun m hm => ?_⟩
      · rw [encodeStruct, if_neg homitted, hencode, hrest, List.map_cons,
          writtenField_clean h.1]
        rfl
      · rw [structJson, if_neg homitted, hjson, List.map_cons]
      · rcases List.mem_cons.mp hm with rfl | hm
        · exact hdenotes
        · exact hmembers m hm

theorem denotes_encodeEntries : ∀ entries, RegularEntries repr entries →
    ∃ members : List (String × Json × String),
      encodeEntries entries = .ok (members.map fun m => (m.1, m.2.2)) ∧
      entriesJson entries = members.map (fun m => (m.1, m.2.1)) ∧
      entries.map Prod.fst = members.map Prod.fst ∧ ∀ m ∈ members, Denotes repr m.2.1 m.2.2
  | [], _ => ⟨[], rfl, rfl, rfl, fun _ hm => absurd hm List.not_mem_nil⟩
  | (name, v) :: rest, h => by
    obtain ⟨text, hencode, hdenotes⟩ := denotes_encode v h.1
    obtain ⟨members, hrest, hjson, hkeys, hmembers⟩ := denotes_encodeEntries rest h.2
    refine ⟨(name, v.json, text) :: members, ?_, ?_, ?_, fun m hm => ?_⟩
    · rw [encodeEntries, hencode, hrest]
      rfl
    · rw [entriesJson, hjson, List.map_cons]
    · rw [List.map_cons, List.map_cons, hkeys]
    · rcases List.mem_cons.mp hm with rfl | hm
      · exact hdenotes
      · exact hmembers m hm

end

/-- What is written is read back as the value that was written. -/
theorem loads_stringifyValue {v : Value} (h : v.Regular repr) :
    loads repr (stringifyValue v) = some v.json := by
  obtain ⟨text, hencode, hdenotes⟩ := denotes_encode v h
  rw [stringifyValue, hencode]
  exact hdenotes.loads

/-- A field of a dataclass is found under its key unless it was omitted. -/
theorem lookup_structJson {fields : List (String × OmitEmpty × Value)} {key : String}
    {rule : OmitEmpty} {v : Value} (hkeys : (fields.map Prod.fst).Nodup)
    (h : fields.lookup key = some (rule, v)) :
    (structJson fields).lookup key = if omitted rule v then none else some v.json := by
  have habsent : ∀ rest : List (String × OmitEmpty × Value), key ∉ rest.map Prod.fst →
      (structJson rest).lookup key = none := by
    intro rest
    induction rest with
    | nil => exact fun _ => rfl
    | cons f rest ih =>
      obtain ⟨key', rule', v'⟩ := f
      intro hnot
      rw [List.map_cons, List.mem_cons, not_or] at hnot
      rw [structJson]
      split
      · exact ih hnot.2
      · rw [Dict.lookup_entry, if_neg hnot.1, ih hnot.2]
  induction fields with
  | nil => cases h
  | cons f rest ih =>
    obtain ⟨key', rule', v'⟩ := f
    rw [List.map_cons, List.nodup_cons] at hkeys
    rw [Dict.lookup_entry] at h
    rw [structJson]
    by_cases hkey : key = key'
    · subst hkey
      rw [if_pos rfl] at h
      cases h
      split
      · exact habsent rest hkeys.1
      · rw [Dict.lookup_entry, if_pos rfl]
    · rw [if_neg hkey] at h
      split
      · exact ih hkeys.2 h
      · rw [Dict.lookup_entry, if_neg hkey, ih hkeys.2 h]

end Util
end Eds
