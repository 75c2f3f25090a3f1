import Eds.Util.Gostruct
import Eds.Collections.Ranked
import Eds.Collections.Traverse

/-!
# The text that a schema is stored as

The registry writes a schema with `gojson` and reads it with `from_dict` after a restart.  The
records have all their fields here; `view` is what the drivers read of them.  An empty list of
values for the items of an array is omitted from the text, and nothing else is lost.
-/

namespace Eds
namespace Registry
namespace Stored

open Collections Util

structure ItemsType where
  type : String
  enum : Option (List String)
  format : String
  deriving DecidableEq

structure SchemaProperty where
  type : String
  format : String
  nullable : Bool
  items : Option ItemsType
  additionalProperties : Option Bool
  comment : Option String
  deprecated : Option Bool
  deriving DecidableEq

structure Schema where
  properties : Dict String SchemaProperty
  required : List String
  primaryKeys : List String
  table : String
  modelVersion : String
  deriving DecidableEq

/-! ## What is written -/

abbrev Fields := List (String × OmitEmpty × Value)

def str (s : String) : Value := .plain (.str s)

def strings (ss : List String) : Value := .plain (.arr (ss.map .str))

/-- Nothing is written for `None`, by the rules of the fields that can be `None`. -/
def optional {α : Type} (write : α → Value) : Option α → Value
  | none => .plain .null
  | some a => write a

def bool (b : Bool) : Value := .plain (.bool b)

def ItemsType.fields (i : ItemsType) : Fields :=
  [("type", .never, str i.type), ("enum", .ifFalsy, optional strings i.enum),
    ("format", .ifFalsy, str i.format)]

def SchemaProperty.fields (p : SchemaProperty) : Fields :=
  [("type", .never, str p.type), ("format", .ifFalsy, str p.format),
    ("nullable", .ifFalsy, bool p.nullable),
    ("items", .ifNone, optional (fun i => .struct (ItemsType.fields i)) p.items),
    ("additionalProperties", .ifNone, optional bool p.additionalProperties),
    ("$comment", .ifNone, optional str p.comment), ("deprecated", .ifNone, optional bool p.deprecated)]

def Schema.fields (s : Schema) : Fields :=
  [("properties", .never, .map (s.properties.items.map fun p => (p.1, .struct p.2.fields))),
    ("required", .never, strings s.required), ("primaryKeys", .never, strings s.primaryKeys),
    ("table", .never, str s.table), ("modelVersion", .never, str s.modelVersion)]

def stringify (s : Schema) : String := stringifyValue (.struct s.fields)

/-! ## What is read

The readers give nothing where `from_dict` raises and where a field would get a value that is
not of its declared type. -/

abbrev Object := List (String × Json)

/-- `d.get(name, "")` -/
def getStr (d : Object) (name : String) : Option String :=
  match d.lookup name with
  | none => some ""
  | some (.str s) => some s
  | some _ => none

def strings? (vs : List Json) : Option (List String) :=
  vs.mapM fun v => match v with | .str s => some s | _ => none

/-- `d.get(name)`, for a field that can be `None`. -/
def getOptional {α : Type} (read : Json → Option α) (d : Object) (name : String) :
    Option (Option α) :=
  match d.lookup name with
  | none | some .null => some none
  | some v => (read v).map some

def bool? : Json → Option Bool
  | .bool b => some b
  | _ => none

def str? : Json → Option String
  | .str s => some s
  | _ => none

def list? : Json → Option (List String)
  | .arr vs => strings? vs
  | _ => none

/-- `bool(d.get(name, False))` -/
def getTruth (d : Object) (name : String) : Bool :=
  match d.lookup name with
  | none => false
  | some v => !Drivers.isFalsy v

/-- `list(d.get(name) or [])` -/
def getList (d : Object) (name : String) : Option (List String) :=
  match d.lookup name with
  | none => some []
  | some v =>
    if Drivers.isFalsy v then some []
    else match v with
      | .arr vs => strings? vs
      | .str s => some (s.toList.map fun c => String.ofList [c])
      | .obj fields => some (fields.map Prod.fst)
      | _ => none

def ItemsType.fromDict (d : Object) : Option ItemsType := do
  let type ← getStr d "type"
  let enum ← getOptional list? d "enum"
  let format ← getStr d "format"
  pure ⟨type, enum, format⟩

/-- What is not a dictionary is no description of items. -/
def getItems (d : Object) : Option (Option ItemsType) :=
  match d.lookup "items" with
  | some (.obj items) => (ItemsType.fromDict items).map some
  | _ => some none

def SchemaProperty.fromDict (d : Object) : Option SchemaProperty := do
  let type ← getStr d "type"
  let format ← getStr d "format"
  let items ← getItems d
  let additionalProperties ← getOptional bool? d "additionalProperties"
  let comment ← getOptional str? d "$comment"
  let deprecated ← getOptional bool? d "deprecated"
  pure ⟨type, format, getTruth d "nullable", items, additionalProperties, comment, deprecated⟩

def readProperty (entry : String × Json) : Option (String × SchemaProperty) :=
  match entry.2 with
  | .obj d => (SchemaProperty.fromDict d).map fun p => (entry.1, p)
  | _ => none

/-- `d.get("properties") or {}` -/
def getProperties (d : Object) : Option Object :=
  match d.lookup "properties" with
  | none => some []
  | some v =>
    if Drivers.isFalsy v then some []
    else match v with
      | .obj fields => some fields
      | _ => none

def Schema.fromDict (d : Object) : Option Schema := do
  let props ← getProperties d
  let properties ← props.mapM readProperty
  let required ← getList d "required"
  let primaryKeys ← getList d "primaryKeys"
  let table ← getStr d "table"
  let modelVersion ← getStr d "modelVersion"
  pure ⟨Dict.ofList properties, required, primaryKeys, table, modelVersion⟩

def Schema.blank : Schema := ⟨Dict.empty, [], [], "", ""⟩

section

variable (repr : List Char → String)

/-- `_decode_schema` -/
def decodeSchema (body : String) : Option Schema :=
  match loads repr body with
  | some .null => some Schema.blank
  | some (.obj d) => Schema.fromDict d
  | _ => none

/-- The schema of a response, stored and read again. -/
def restart (d : Object) : Option Schema :=
  (Schema.fromDict d).bind fun s => decodeSchema repr (stringify s)

end

/-! ## What the drivers read -/

def ItemsType.view (i : ItemsType) : Eds.ItemsType := ⟨i.type, i.enum⟩

def SchemaProperty.view (p : SchemaProperty) : Eds.SchemaProperty :=
  ⟨p.type, p.format, p.nullable, p.items.map ItemsType.view⟩

def Schema.view (s : Schema) : Eds.Schema where
  properties := s.properties.map SchemaProperty.view
  primaryKeys := s.primaryKeys
  table := s.table
  modelVersion := s.modelVersion

/-! ## Fields, read back -/

section Fields

variable {fields : Fields} {name : String} {rule : OmitEmpty} (hkeys : (fields.map Prod.fst).Nodup)
include hkeys

theorem getStr_field {s : String} (h : fields.lookup name = some (rule, str s)) :
    getStr (structJson fields) name = some s := by
  rw [getStr, lookup_structJson hkeys h]
  cases rule with
  | never => rfl
  | ifNone => rfl
  | ifFalsy =>
    by_cases hs : s = ""
    · subst hs
      rfl
    · have hkept : omitted .ifFalsy (str s) = false := beq_false_of_ne hs
      rw [hkept]
      rfl

theorem getTruth_field {b : Bool} (h : fields.lookup name = some (.ifFalsy, bool b)) :
    getTruth (structJson fields) name = b := by
  rw [getTruth, lookup_structJson hkeys h]
  cases b <;> rfl

theorem getOptional_field {α : Type} {read : Json → Option α} {write : α → Value}
    (hread : ∀ a, (write a).isNone = false ∧ (write a).json ≠ .null ∧
      read (write a).json = some a)
    {a : Option α} (h : fields.lookup name = some (.ifNone, optional write a)) :
    getOptional read (structJson fields) name = some a := by
  rw [getOptional, lookup_structJson hkeys h]
  cases a with
  | none => rfl
  | some a =>
    obtain ⟨hsome, hnull, hvalue⟩ := hread a
    have hkept : omitted .ifNone (optional write (some a)) = false := hsome
    rw [hkept, if_neg Bool.false_ne_true]
    show (match some (write a).json with
      | none | some .null => some none
      | some v => (read v).map some) = _
    split
    · next heq => cases heq
    · next heq => exact absurd (Option.some.inj heq) hnull
    · next heq =>
      rw [← Option.some.inj heq, hvalue]
      rfl

end Fields

theorem bool_reads (b : Bool) : (bool b).isNone = false ∧ (bool b).json ≠ .null ∧
    bool? (bool b).json = some b := ⟨rfl, Json.noConfusion, rfl⟩

theorem str_reads (s : String) : (str s).isNone = false ∧ (str s).json ≠ .null ∧
    str? (str s).json = some s := ⟨rfl, Json.noConfusion, rfl⟩

theorem json_strings (ss : List String) : (strings ss).json = .arr (ss.map .str) := by
  have hitems : sortItems (ss.map .str) = ss.map .str := by
    induction ss with
    | nil => rfl
    | cons s ss ih =>
      rw [List.map_cons, sortItems, ih]
      rfl
  exact congrArg Json.arr hitems

theorem strings?_map (ss : List String) : strings? (ss.map .str) = some ss := by
  induction ss with
  | nil => rfl
  | cons s ss ih =>
    rw [strings?] at ih ⊢
    rw [List.map_cons, List.mapM_cons, ih]
    rfl

section Fields

variable {fields : Fields} {name : String} (hkeys : (fields.map Prod.fst).Nodup)
include hkeys

theorem getList_field {ss : List String} (h : fields.lookup name = some (.never, strings ss)) :
    getList (structJson fields) name = some ss := by
  rw [getList, lookup_structJson hkeys h]
  show (if Drivers.isFalsy (strings ss).json then some [] else _) = _
  rw [json_strings]
  cases ss with
  | nil => rfl
  | cons s ss => exact strings?_map (s :: ss)

/-- A list without values is omitted, and read as no list. -/
theorem getEnum_field {enum : Option (List String)}
    (h : fields.lookup name = some (.ifFalsy, optional strings enum)) :
    getOptional list? (structJson fields) name = some (enum.filter fun values => values ≠ []) := by
  rw [getOptional, lookup_structJson hkeys h]
  match enum with
  | none => rfl
  | some [] => rfl
  | some (value :: values) =>
    have hlist : list? (strings (value :: values)).json = some (value :: values) := by
      rw [json_strings]
      exact strings?_map _
    show (match some (strings (value :: values)).json with
      | none | some .null => some none
      | some v => (list? v).map some) = _
    rw [json_strings] at hlist ⊢
    show (list? _).map some = _
    rw [hlist]
    rfl

end Fields

/-! ## Records, read back -/

/-- What a restart keeps: everything but empty lists of values. -/
def ItemsType.kept (i : ItemsType) : ItemsType :=
  { i with enum := i.enum.filter fun values => values ≠ [] }

def SchemaProperty.kept (p : SchemaProperty) : SchemaProperty :=
  { p with items := p.items.map ItemsType.kept }

def Schema.kept (s : Schema) : Schema := { s with properties := s.properties.map SchemaProperty.kept }

theorem ItemsType.keys_nodup (i : ItemsType) : (i.fields.map Prod.fst).Nodup := by
  show ["type", "enum", "format"].Nodup
  decide

theorem SchemaProperty.keys_nodup (p : SchemaProperty) : (p.fields.map Prod.fst).Nodup := by
  show ["type", "format", "nullable", "items", "additionalProperties", "$comment",
    "deprecated"].Nodup
  decide

theorem Schema.keys_nodup (s : Schema) : (s.fields.map Prod.fst).Nodup := by
  show ["properties", "required", "primaryKeys", "table", "modelVersion"].Nodup
  decide

theorem ItemsType.fromDict_fields (i : ItemsType) :
    ItemsType.fromDict (structJson i.fields) = some i.kept := by
  have htype : getStr (structJson i.fields) "type" = some i.type := getStr_field i.keys_nodup rfl
  have henum : getOptional list? (structJson i.fields) "enum" = some i.kept.enum :=
    getEnum_field i.keys_nodup rfl
  have hformat : getStr (structJson i.fields) "format" = some i.format :=
    getStr_field i.keys_nodup rfl
  rw [ItemsType.fromDict, htype, henum, hformat]
  rfl

theorem getItems_fields (p : SchemaProperty) :
    getItems (structJson p.fields) = some p.kept.items := by
  have hlookup : p.fields.lookup "items" =
      some (.ifNone, optional (fun i => .struct (ItemsType.fields i)) p.items) := rfl
  rw [getItems, lookup_structJson p.keys_nodup hlookup, SchemaProperty.kept]
  cases p.items with
  | none => rfl
  | some i =>
    show (ItemsType.fromDict (structJson i.fields)).map some = _
    rw [ItemsType.fromDict_fields]
    rfl

theorem SchemaProperty.fromDict_fields (p : SchemaProperty) :
    SchemaProperty.fromDict (structJson p.fields) = some p.kept := by
  have htype : getStr (structJson p.fields) "type" = some p.type := getStr_field p.keys_nodup rfl
  have hformat : getStr (structJson p.fields) "format" = some p.format :=
    getStr_field p.keys_nodup rfl
  have hnullable : getTruth (structJson p.fields) "nullable" = p.nullable :=
    getTruth_field p.keys_nodup rfl
  have hadditional : getOptional bool? (structJson p.fields) "additionalProperties" =
      some p.additionalProperties := getOptional_field p.keys_nodup bool_reads rfl
  have hcomment : getOptional str? (structJson p.fields) "$comment" = some p.comment :=
    getOptional_field p.keys_nodup str_reads rfl
  have hdeprecated : getOptional bool? (structJson p.fields) "deprecated" = some p.deprecated :=
    getOptional_field p.keys_nodup bool_reads rfl
  rw [SchemaProperty.fromDict, htype, hformat, getItems_fields, hadditional, hcomment,
    hdeprecated, hnullable]
  rfl

/-! ## Schemas, read back -/

/-- The properties in the order in which they are written. -/
def Schema.written (s : Schema) : List (String × SchemaProperty) :=
  (byKey s.properties.items).map fun e => (e.1, e.2.kept)

/-- The schema that is read. -/
def Schema.restored (s : Schema) : Schema := { s with properties := Dict.ofList s.written }

theorem json_properties (entries : List (String × SchemaProperty)) :
    (Value.map (entries.map fun e => (e.1, .struct e.2.fields))).json =
      .obj ((byKey entries).map fun e => (e.1, .obj (structJson e.2.fields))) := by
  have hentries : entriesJson (entries.map fun e => (e.1, .struct e.2.fields)) =
      entries.map fun e => (e.1, .obj (structJson e.2.fields)) := by
    induction entries with
    | nil => rfl
    | cons e rest ih =>
      rw [List.map_cons, entriesJson, ih]
      rfl
  rw [Value.json, hentries]
  exact congrArg Json.obj (byKey_map (fun p : SchemaProperty =>
    Json.obj (structJson p.fields)) entries)

theorem mapM_readProperty (entries : List (String × SchemaProperty)) :
    (entries.map fun e => (e.1, Json.obj (structJson e.2.fields))).mapM readProperty =
      some (entries.map fun e => (e.1, e.2.kept)) := by
  induction entries with
  | nil => rfl
  | cons e rest ih =>
    have hread : readProperty (e.1, .obj (structJson e.2.fields)) = some (e.1, e.2.kept) := by
      show (SchemaProperty.fromDict (structJson e.2.fields)).map _ = _
      rw [SchemaProperty.fromDict_fields]
      rfl
    rw [List.map_cons, List.mapM_cons, hread, ih]
    rfl

theorem getProperties_fields (s : Schema) :
    getProperties (structJson s.fields) =
      some ((byKey s.properties.items).map fun e => (e.1, .obj (structJson e.2.fields))) := by
  have hlookup : s.fields.lookup "properties" =
      some (.never, .map (s.properties.items.map fun p => (p.1, .struct p.2.fields))) := rfl
  rw [getProperties, lookup_structJson s.keys_nodup hlookup]
  show (match some (Value.map (s.properties.items.map fun p => (p.1, .struct p.2.fields))).json with
    | none => some []
    | some v => if Drivers.isFalsy v then some [] else _) = _
  rw [json_properties]
  show (if (List.isEmpty _) = true then some [] else some _) = _
  split
  · next hempty => rw [List.isEmpty_iff.mp hempty]
  · rfl

theorem Schema.fromDict_fields (s : Schema) :
    Schema.fromDict (structJson s.fields) = some s.restored := by
  have hrequired : getList (structJson s.fields) "required" = some s.required :=
    getList_field s.keys_nodup rfl
  have hprimary : getList (structJson s.fields) "primaryKeys" = some s.primaryKeys :=
    getList_field s.keys_nodup rfl
  have htable : getStr (structJson s.fields) "table" = some s.table :=
    getStr_field s.keys_nodup rfl
  have hversion : getStr (structJson s.fields) "modelVersion" = some s.modelVersion :=
    getStr_field s.keys_nodup rfl
  have hproperties := mapM_readProperty (byKey s.properties.items)
  rw [Schema.fromDict, getProperties_fields, Option.bind_eq_bind, Option.bind_some, hproperties,
    hrequired, hprimary, htable, hversion]
  rfl

/-! ## What is written can be read -/

variable {repr : List Char → String}

theorem regular_str (s : String) : (str s).Regular repr := trivial

theorem regular_bool (b : Bool) : (bool b).Regular repr := trivial

theorem regular_strings (ss : List String) : (strings ss).Regular repr := by
  have hitems : ReadableItems repr (ss.map .str) := by
    induction ss with
    | nil => exact trivial
    | cons s ss ih => exact ⟨trivial, ih⟩
  exact hitems

theorem regular_optional {α : Type} {write : α → Value} (h : ∀ a, (write a).Regular repr)
    (a : Option α) : (optional write a).Regular repr := by
  cases a with
  | none => exact trivial
  | some a => exact h a

theorem ItemsType.regular (i : ItemsType) : (Value.struct i.fields).Regular repr :=
  ⟨i.keys_nodup, by decide, trivial, by decide, regular_optional regular_strings i.enum, by decide,
    trivial, trivial⟩

theorem SchemaProperty.regular (p : SchemaProperty) : (Value.struct p.fields).Regular repr :=
  ⟨p.keys_nodup, by decide, trivial, by decide, trivial, by decide, trivial, by decide,
    regular_optional ItemsType.regular p.items, by decide,
    regular_optional regular_bool p.additionalProperties, by decide,
    regular_optional regular_str p.comment, by decide,
    regular_optional regular_bool p.deprecated, trivial⟩

theorem Schema.regular (s : Schema) : (Value.struct s.fields).Regular repr := by
  have hentries : ∀ entries : List (String × SchemaProperty),
      RegularEntries repr (entries.map fun e => (e.1, .struct e.2.fields)) := by
    intro entries
    induction entries with
    | nil => exact trivial
    | cons e rest ih => exact ⟨e.2.regular, ih⟩
  have hproperties : (Value.map (s.properties.items.map fun p => (p.1, .struct p.2.fields))).Regular
      repr := by
    refine ⟨?_, hentries _⟩
    rw [List.map_map]
    exact s.properties.nodup
  exact ⟨s.keys_nodup, by decide, hproperties, by decide, regular_strings _, by decide,
    regular_strings _, by decide, trivial, by decide, trivial, trivial⟩

theorem decodeSchema_stringify (s : Schema) :
    decodeSchema repr (stringify s) = some s.restored := by
  rw [decodeSchema, stringify, loads_stringifyValue s.regular, Value.json]
  exact s.fromDict_fields

/-! ## Equal schemas -/

/-- The equality of dataclasses: dictionaries are equal in any order. -/
structure Schema.Equal (s s' : Schema) : Prop where
  properties : ∀ name, s.properties.get? name = s'.properties.get? name
  required : s.required = s'.required
  primaryKeys : s.primaryKeys = s'.primaryKeys
  table : s.table = s'.table
  modelVersion : s.modelVersion = s'.modelVersion

/-- No description of items has a list of values without a value. -/
def Schema.Valued (s : Schema) : Prop :=
  ∀ name p, s.properties.get? name = some p → ∀ i, p.items = some i → i.enum ≠ some []

theorem ItemsType.kept_eq_self {i : ItemsType} : i.kept = i ↔ i.enum ≠ some [] := by
  obtain ⟨type, enum, format⟩ := i
  match enum with
  | none => exact ⟨fun _ => nofun, fun _ => rfl⟩
  | some [] =>
    refine ⟨fun h => ?_, fun h => absurd rfl h⟩
    have hnone : (none : Option (List String)) = some [] := congrArg ItemsType.enum h
    cases hnone
  | some (value :: values) => exact ⟨fun _ => nofun, fun _ => rfl⟩

theorem SchemaProperty.kept_eq_self {p : SchemaProperty} :
    p.kept = p ↔ ∀ i, p.items = some i → i.enum ≠ some [] := by
  constructor
  · intro h i hi
    have hitems := congrArg SchemaProperty.items h
    rw [SchemaProperty.kept, hi] at hitems
    exact ItemsType.kept_eq_self.mp (Option.some.inj hitems)
  · intro h
    rw [SchemaProperty.kept]
    cases hi : p.items with
    | none => rw [Option.map_none, ← hi]
    | some i => rw [Option.map_some, ItemsType.kept_eq_self.mpr (h i hi), ← hi]

theorem Schema.written_perm (s : Schema) :
    (Dict.ofList s.written).items.Perm s.kept.properties.items := by
  have hperm : s.written.Perm s.kept.properties.items :=
    (byKey_perm s.properties.items).map fun e : String × SchemaProperty => (e.1, e.2.kept)
  have hnodup : (s.written.map Prod.fst).Nodup :=
    (hperm.map Prod.fst).nodup_iff.mpr s.kept.properties.nodup
  rw [Dict.items_ofList hnodup]
  exact hperm

theorem Schema.restored_equal (s : Schema) : s.restored.Equal s.kept where
  properties := Dict.get?_eq_of_perm s.written_perm
  required := rfl
  primaryKeys := rfl
  table := rfl
  modelVersion := rfl

theorem Schema.kept_equal_iff (s : Schema) : s.kept.Equal s ↔ s.Valued := by
  constructor
  · intro h name p hp
    have hproperty := h.properties name
    rw [Schema.kept, Dict.get?_map, hp] at hproperty
    exact SchemaProperty.kept_eq_self.mp (Option.some.inj hproperty)
  · intro h
    refine ⟨fun name => ?_, rfl, rfl, rfl, rfl⟩
    rw [Schema.kept, Dict.get?_map]
    cases hp : s.properties.get? name with
    | none => rfl
    | some p => exact congrArg some (SchemaProperty.kept_eq_self.mpr (h name p hp))

theorem Schema.Equal.trans {s s' s'' : Schema} (h : s.Equal s') (h' : s'.Equal s'') :
    s.Equal s'' where
  properties name := (h.properties name).trans (h'.properties name)
  required := h.required.trans h'.required
  primaryKeys := h.primaryKeys.trans h'.primaryKeys
  table := h.table.trans h'.table
  modelVersion := h.modelVersion.trans h'.modelVersion

theorem Schema.Equal.symm {s s' : Schema} (h : s.Equal s') : s'.Equal s where
  properties name := (h.properties name).symm
  required := h.required.symm
  primaryKeys := h.primaryKeys.symm
  table := h.table.symm
  modelVersion := h.modelVersion.symm

end Stored
end Registry
end Eds
