import Eds.Exceptions
import Eds.Lexing.Percent
import Eds.Util.Equality
import Eds.Util.Gostruct

/-!
# Events, written and read again

An event is read from a message field by field and written in the order of its fields.  `before`
and `after` are kept as texts; the other fields are values, written with sorted keys, and some are
left out.

An event that is written and read again is written with the same text, and its fields are the same,
if and only if the message is stable (`reencoding_iff`).  A number that is not finite is accepted in
every field but `before` and `after`, and then there is no text; a negative zero is written `-0`,
and read back as the integer zero; and the shortest text of a large double is that of another
integer.
-/

namespace Eds
namespace Dbchange

open Collections Lexing Lexing.Percent Util

/-- The fields of an event that are written, as `from_message` leaves them. -/
structure DBChangeEvent where
  operation : Json
  id : Json
  table : Json
  key : Json
  modelVersion : Json
  companyId : Json
  locationId : Json
  userId : Json
  before : Option String
  after : Option String
  diff : Json
  timestamp : Int
  mvccTimestamp : Json
  imported : Bool

/-! ## Writing -/

/-- A field with its rule, or a raw text with the rule for it. -/
inductive Slot where
  | plain (rule : OmitEmpty) (v : Json)
  | raw (text : Option String)

def Slot.omitted : Slot → Bool
  | .plain rule v => Util.omitted rule (.plain v)
  | .raw text => text.getD "" == ""

def Slot.text : Slot → Except String String
  | .plain _ v => marshal v
  | .raw none => .ok "null"
  | .raw (some text) => .ok (String.ofList (compactRaw text.toList))

def gojsonStruct : List (String × Slot) → Except String (List String)
  | [] => .ok []
  | (key, slot) :: rest =>
    if slot.omitted then gojsonStruct rest
    else do
      let text ← slot.text
      let parts ← gojsonStruct rest
      pure (("\"" ++ key ++ "\":" ++ text) :: parts)

def DBChangeEvent.slots (e : DBChangeEvent) : List (String × Slot) :=
  [("operation", .plain .never e.operation), ("id", .plain .never e.id),
    ("table", .plain .never e.table), ("key", .plain .never e.key),
    ("modelVersion", .plain .never e.modelVersion), ("companyId", .plain .ifNone e.companyId),
    ("locationId", .plain .ifNone e.locationId), ("userId", .plain .ifNone e.userId),
    ("before", .raw e.before), ("after", .raw e.after), ("diff", .plain .ifFalsy e.diff),
    ("timestamp", .plain .never (.int e.timestamp)), ("mvccTimestamp", .plain .never e.mvccTimestamp),
    ("imported", .plain .ifFalsy (.bool e.imported))]

def DBChangeEvent.toJson (e : DBChangeEvent) : Except String String :=
  (gojsonStruct e.slots).map fun parts => "\x7b" ++ commas parts ++ "\x7d"

/-! ## Reading -/

/-- What is used of the interpreter: the text that `json.loads` takes bytes for and what it says of
a text that it refuses, `decode(errors="replace")`, the text of a double, `int(v)` and `str(v)`.  A
text with half a surrogate pair is among those that are refused. -/
structure Interpreter where
  text : List UInt8 → Option (List Char)
  refusal : List UInt8 → String
  decode : List UInt8 → String
  repr : List Char → String
  toInt : Json → Except Exn Int
  str : Json → String

section

variable (repr : List Char → String)

mutual

/-- `parse_int=float` -/
def floatTree : Json.Tree → Json
  | .null => .null
  | .bool b => .bool b
  | .number w => .float (repr w)
  | .str s => .str (String.ofList s)
  | .arr items => .arr (floatItems items)
  | .obj fields => .obj (Dict.ofList (floatFields fields)).items

def floatItems : List Json.Tree → List Json
  | [] => []
  | t :: rest => floatTree t :: floatItems rest

def floatFields : List (List Char × Json.Tree) → List (String × Json)
  | [] => []
  | (key, t) :: rest => (String.ofList key, floatTree t) :: floatFields rest

end

end

section

variable (py : Interpreter)

def loads (data : List UInt8) : Option Json :=
  (py.text data).bind fun s => (Json.parse s).map (ofTree py.repr)

def parseObject (raw : String) : Except String (Option (List (String × Json))) :=
  match (Json.parse raw.toList).map (floatTree py.repr) with
  | none => .error (py.refusal (utf8 raw.toList))
  | some .null => .ok none
  | some (.obj fields) => .ok (some fields)
  | some _ => .error "before/after is malformed"

/-- `after`, else `before`, unless they are empty. -/
def getObject (e : DBChangeEvent) : Except String (Option (List (String × Json))) :=
  match (e.after.filter (· != "")).or (e.before.filter (· != "")) with
  | some raw => parseObject py raw
  | none => .ok none

/-- `v[-1]` -/
def last : Json → Except Exn Json
  | .arr vs =>
    match vs.getLast? with
    | some v => .ok v
    | none => .error (.exception "list index out of range")
  | .str s =>
    match s.toList.getLast? with
    | some c => .ok (.str (String.ofList [c]))
    | none => .error (.exception "string index out of range")
  | .obj _ => .error (.exception "-1")
  | _ => .error (.exception "object is not subscriptable")

def getPrimaryKey (e : DBChangeEvent) (object : Option (List (String × Json))) : Except Exn Json :=
  if Drivers.isFalsy e.key then
    match object.bind (·.lookup "id") with
    | some (.str s) => .ok (.str s)
    | _ => .ok (.str "")
  else last e.key

/-- `m.get(name, default)` -/
def field (m : List (String × Json)) (name : String) (default : Json) : Json :=
  (m.lookup name).getD default

def rawField (m : List (String × Json)) (name : String) : Except Exn (Option String) :=
  match m.lookup name with
  | none => .ok none
  | some v =>
    match marshalWith false v with
    | .error msg => .error (.valueError msg)
    | .ok text => .ok (some text)

/-- The event with the fields of the message. -/
def event (m : List (String × Json)) (before after : Option String) (timestamp : Int) :
    DBChangeEvent where
  operation := field m "operation" (.str "")
  id := field m "id" (.str "")
  table := field m "table" (.str "")
  key := field m "key" .null
  modelVersion := field m "modelVersion" (.str "")
  companyId := field m "companyId" .null
  locationId := field m "locationId" .null
  userId := field m "userId" .null
  before := before
  after := after
  diff := field m "diff" .null
  timestamp := timestamp
  mvccTimestamp := field m "mvccTimestamp" (.str "")
  imported := !Drivers.isFalsy (field m "imported" (.bool false))

def fromMessage (data : List UInt8) (seq : Int) : Except Exn DBChangeEvent :=
  let ending := s!" (seq:{seq}) raw message:\n" ++ py.decode data
  match loads py data with
  | none =>
    .error (.valueError
      ("error unmarshalling message into DBChangeEvent: " ++ py.refusal data ++ ending))
  | some (.obj m) => do
    let before ← rawField m "before"
    let after ← rawField m "after"
    let timestamp ← py.toInt (field m "timestamp" (.int 0))
    let evt := event m before after timestamp
    match getObject py evt with
    | .error e =>
      .error (.valueError ("error getting object (before/after is malformed): " ++ e ++ ending))
    | .ok object => do
      let pk ← getPrimaryKey evt object
      if pk.eqStr "" then
        .error (.valueError ("primary key is empty: " ++ py.str evt.id ++ ending))
      else .ok evt
  | some _ =>
    .error (.valueError ("error unmarshalling message into DBChangeEvent: not an object" ++ ending))

end

/-! ## What is written -/

/-- The slot is written as the value, or left out. -/
def Slot.Shows : Slot → Option Json → Prop
  | .plain rule v, w => w = if Util.omitted rule (.plain v) then none else some (sortKeys v)
  | .raw none, w => w = none
  | .raw (some text), w => ∃ v, w = some v ∧ marshalWith false v = .ok text

/-- The fields that are not left out. -/
def shown (fields : List (String × Option Json)) : List (String × Json) :=
  fields.filterMap fun f => f.2.map fun v => (f.1, v)

theorem shown_cons_some (name : String) (v : Json) (rest : List (String × Option Json)) :
    shown ((name, some v) :: rest) = (name, v) :: shown rest := rfl

theorem mem_shown {fields : List (String × Option Json)} {name : String} {v : Json} :
    (name, v) ∈ shown fields ↔ (name, some v) ∈ fields := by
  rw [shown, List.mem_filterMap]
  constructor
  · rintro ⟨⟨name', w⟩, hmem, hf⟩
    obtain ⟨v', rfl, heq⟩ := Option.map_eq_some_iff.mp hf
    cases heq
    exact hmem
  · exact fun h => ⟨_, h, rfl⟩

theorem keys_shown_sublist (fields : List (String × Option Json)) :
    ((shown fields).map Prod.fst).Sublist (fields.map Prod.fst) := by
  induction fields with
  | nil => exact List.Sublist.refl []
  | cons f rest ih =>
    obtain ⟨name, v | v⟩ := f
    · exact ih.cons name
    · exact ih.cons_cons name

theorem lookup_shown {fields : List (String × Option Json)} (h : (fields.map Prod.fst).Nodup)
    (name : String) : (shown fields).lookup name = (fields.lookup name).join := by
  have hkeys : ((shown fields).map Prod.fst).Nodup := h.sublist (keys_shown_sublist fields)
  refine Option.ext fun v => ?_
  rw [lookup_eq_some_iff hkeys, mem_shown, ← lookup_eq_some_iff h, Option.join_eq_some_iff]

/-- A value that is written has a text that is not empty. -/
theorem ne_empty_of_marshalWith {v : Json} {text : String} (hprinted : Printed v)
    (h : marshalWith false v = .ok text) : text ≠ "" := by
  rintro rfl
  obtain ⟨text', htext', hreads⟩ := reads_kept v hprinted (finite_of_marshalWith false v _ h)
  rw [h] at htext'
  cases htext'
  have hparse := hreads.parse
  cases hparse

theorem compactRaw_of_marshalWith {v : Json} {text : String} (hprinted : Printed v)
    (h : marshalWith false v = .ok text) : String.ofList (compactRaw text.toList) = text := by
  rw [compactRaw_of_kept (whole_marshalWith false v text hprinted h), String.ofList_toList]

/-- A slot that is left out, and one that is written. -/
theorem Slot.Shows.omitted_eq {slot : Slot} {w : Option Json} (h : slot.Shows w)
    (hprinted : ∀ v, w = some v → Printed v) : slot.omitted = w.isNone := by
  cases slot with
  | plain rule v =>
    rw [h, Slot.omitted]
    split
    · next homitted => exact homitted
    · next homitted => exact Bool.eq_false_of_not_eq_true homitted
  | raw text =>
    cases text with
    | none =>
      rw [show w = none from h]
      rfl
    | some text =>
      obtain ⟨v, rfl, htext⟩ := h
      exact beq_false_of_ne (ne_empty_of_marshalWith (hprinted v rfl) htext)

theorem Slot.Shows.text_eq {slot : Slot} {v : Json} (h : slot.Shows (some v)) (hprinted : Printed v)
    (hfinite : Finite v) : slot.text = marshalWith false v := by
  cases slot with
  | plain rule u =>
    rw [Slot.Shows] at h
    split at h
    · cases h
    · cases h
      obtain ⟨text, t, hmarshal, -, -⟩ :=
        reads_marshal u (each_of_sortKeys u hprinted) (each_of_sortKeys u hfinite)
      rw [Slot.text, hmarshal, marshal_sortKeys u text hmarshal]
  | raw text =>
    cases text with
    | none => cases h
    | some text =>
      obtain ⟨u, hu, htext⟩ := h
      cases hu
      rw [Slot.text, compactRaw_of_marshalWith hprinted htext, htext]

theorem Slot.Shows.finite {slot : Slot} {v : Json} {text : String} (h : slot.Shows (some v))
    (htext : slot.text = .ok text) : Finite v := by
  cases slot with
  | plain rule u =>
    rw [Slot.Shows] at h
    split at h
    · cases h
    · cases h
      exact each_sortKeys u (finite_of_marshalWith true u text htext)
  | raw raw =>
    cases raw with
    | none => cases h
    | some raw =>
      obtain ⟨u, hu, hraw⟩ := h
      cases hu
      exact finite_of_marshalWith false v raw hraw

/-- The slots with the values that they show. -/
structure Showing (members : List (String × Slot × Option Json)) : Prop where
  clean : ∀ m ∈ members, Clean m.1
  shows : ∀ m ∈ members, m.2.1.Shows m.2.2
  printed : ∀ m ∈ members, ∀ v, m.2.2 = some v → Printed v

theorem Showing.tail {m : String × Slot × Option Json} {members : List (String × Slot × Option Json)}
    (h : Showing (m :: members)) : Showing members where
  clean n hn := h.clean n (List.mem_cons_of_mem m hn)
  shows n hn := h.shows n (List.mem_cons_of_mem m hn)
  printed n hn := h.printed n (List.mem_cons_of_mem m hn)

/-- What is written is an object of the values that are shown, in their order. -/
theorem gojsonStruct_eq {members : List (String × Slot × Option Json)} (h : Showing members)
    (hfinite : ∀ m ∈ members, ∀ v, m.2.2 = some v → Finite v) :
    gojsonStruct (members.map fun m => (m.1, m.2.1)) =
      (marshalFieldsWith false (shown (members.map fun m => (m.1, m.2.2)))).map fun parts =>
        parts.map fun p => writtenField p.1 p.2 := by
  induction members with
  | nil => rfl
  | cons m members ih =>
    obtain ⟨key, slot, w⟩ := m
    obtain ⟨hfirst, hrest⟩ := List.forall_mem_cons.mp hfinite
    have hprinted := h.printed _ List.mem_cons_self
    have homitted := (h.shows _ List.mem_cons_self).omitted_eq hprinted
    rw [List.map_cons, List.map_cons, gojsonStruct, homitted, ih h.tail hrest]
    cases w with
    | none => rfl
    | some v =>
      have htext := (h.shows _ List.mem_cons_self).text_eq (hprinted v rfl) (hfirst v rfl)
      dsimp only at htext
      rw [Option.isNone_some, if_neg Bool.false_ne_true, htext, shown_cons_some, marshalFieldsWith]
      obtain ⟨text, hv, -⟩ := reads_kept v (hprinted v rfl) (hfirst v rfl)
      have hclean : Clean key := h.clean _ List.mem_cons_self
      simp only [hv, ← writtenField_clean hclean]
      cases marshalFieldsWith false (shown (members.map fun m => (m.1, m.2.2))) with
      | error e => rfl
      | ok parts => rfl

theorem finite_of_gojsonStruct {members : List (String × Slot × Option Json)} (h : Showing members)
    {parts : List String} (hok : gojsonStruct (members.map fun m => (m.1, m.2.1)) = .ok parts) :
    ∀ m ∈ members, ∀ v, m.2.2 = some v → Finite v := by
  induction members generalizing parts with
  | nil => nofun
  | cons m members ih =>
    obtain ⟨key, slot, w⟩ := m
    have homitted := (h.shows _ List.mem_cons_self).omitted_eq (h.printed _ List.mem_cons_self)
    rw [List.map_cons, gojsonStruct, homitted] at hok
    cases w with
    | none => exact List.forall_mem_cons.mpr ⟨nofun, ih h.tail hok⟩
    | some v =>
      obtain ⟨text, htext, hok⟩ := bind_eq_ok.mp hok
      obtain ⟨texts, hrest, -⟩ := bind_eq_ok.mp hok
      refine List.forall_mem_cons.mpr ⟨fun u hu => ?_, ih h.tail hrest⟩
      cases hu
      exact (h.shows _ List.mem_cons_self).finite htext

/-! ## What is written of a message -/

def kept (rule : OmitEmpty) (v : Json) : Option Json :=
  if Util.omitted rule (.plain v) then none else some (sortKeys v)

/-- The values that are written for the fields of a message. -/
def values (m : List (String × Json)) (timestamp : Int) : List (String × Option Json) :=
  [("operation", kept .never (field m "operation" (.str ""))),
    ("id", kept .never (field m "id" (.str ""))),
    ("table", kept .never (field m "table" (.str ""))),
    ("key", kept .never (field m "key" .null)),
    ("modelVersion", kept .never (field m "modelVersion" (.str ""))),
    ("companyId", kept .ifNone (field m "companyId" .null)),
    ("locationId", kept .ifNone (field m "locationId" .null)),
    ("userId", kept .ifNone (field m "userId" .null)),
    ("before", m.lookup "before"), ("after", m.lookup "after"),
    ("diff", kept .ifFalsy (field m "diff" .null)),
    ("timestamp", kept .never (.int timestamp)),
    ("mvccTimestamp", kept .never (field m "mvccTimestamp" (.str ""))),
    ("imported", kept .ifFalsy (.bool (!Drivers.isFalsy (field m "imported" (.bool false)))))]

/-- The slots of an event beside the values. -/
def members (e : DBChangeEvent) (m : List (String × Json)) (timestamp : Int) :
    List (String × Slot × Option Json) :=
  (e.slots.zip (values m timestamp)).map fun p => (p.1.1, p.1.2, p.2.2)

def fieldNames : List String :=
  ["operation", "id", "table", "key", "modelVersion", "companyId", "locationId", "userId", "before",
    "after", "diff", "timestamp", "mvccTimestamp", "imported"]

section

variable {m : List (String × Json)} {timestamp : Int} {before after : Option String}

theorem nodup_fieldNames : fieldNames.Nodup := by decide

theorem nodup_values : ((values m timestamp).map Prod.fst).Nodup := nodup_fieldNames

theorem clean_fieldNames : ∀ name ∈ fieldNames, Clean name := by decide

theorem kept_eq_some {rule : OmitEmpty} {v w : Json} (h : kept rule v = some w) : w = sortKeys v := by
  rw [kept] at h
  split at h
  · cases h
  · exact (Option.some.inj h).symm

theorem forall_field {P : Json → Prop} (hm : ∀ f ∈ m, P f.2) {default : Json} (hdefault : P default)
    (name : String) : P (field m name default) := by
  rw [field]
  cases hlookup : m.lookup name with
  | none => exact hdefault
  | some v =>
    obtain ⟨l, r, rfl, -⟩ := List.lookup_eq_some_iff.mp hlookup
    exact hm (name, v) (List.mem_append_right l List.mem_cons_self)

/-- What holds of the values in a message holds of the values that are written. -/
theorem forall_values {P : Json → Prop} (hsort : ∀ v, P v → P (sortKeys v)) (hnull : P .null)
    (hstr : P (.str "")) (hbool : ∀ b, P (.bool b)) (hint : ∀ n, P (.int n))
    (hm : ∀ f ∈ m, P f.2) : ∀ f ∈ values m timestamp, ∀ v, f.2 = some v → P v := by
  have hkept : ∀ {v : Json} (rule : OmitEmpty), P v → ∀ w, kept rule v = some w → P w := by
    intro v rule hv w hw
    rw [kept_eq_some hw]
    exact hsort v hv
  have hraw : ∀ name v, m.lookup name = some v → P v := by
    intro name v hlookup
    obtain ⟨l, r, rfl, -⟩ := List.lookup_eq_some_iff.mp hlookup
    exact hm (name, v) (List.mem_append_right l List.mem_cons_self)
  simp only [values, List.forall_mem_cons]
  exact ⟨hkept _ (forall_field hm hstr _), hkept _ (forall_field hm hstr _),
    hkept _ (forall_field hm hstr _), hkept _ (forall_field hm hnull _),
    hkept _ (forall_field hm hstr _), hkept _ (forall_field hm hnull _),
    hkept _ (forall_field hm hnull _), hkept _ (forall_field hm hnull _), hraw _, hraw _,
    hkept _ (forall_field hm hnull _), hkept _ (hint _), hkept _ (forall_field hm hstr _),
    hkept _ (hbool _), nofun⟩

theorem shows_rawField {name : String} {raw : Option String}
    (h : rawField m name = .ok raw) : (Slot.raw raw).Shows (m.lookup name) := by
  rw [rawField] at h
  split at h
  · next hlookup =>
    cases h
    exact hlookup
  · next v hlookup =>
    split at h
    · cases h
    · next text htext =>
      cases h
      exact ⟨v, hlookup, htext⟩

theorem slots_members : (members (event m before after timestamp) m timestamp).map
    (fun x => (x.1, x.2.1)) = (event m before after timestamp).slots := rfl

theorem values_members : (members (event m before after timestamp) m timestamp).map
    (fun x => (x.1, x.2.2)) = values m timestamp := rfl

theorem showing_members (hprinted : ∀ f ∈ m, Printed f.2) (hbefore : rawField m "before" = .ok before)
    (hafter : rawField m "after" = .ok after) :
    Showing (members (event m before after timestamp) m timestamp) where
  clean x hx := clean_fieldNames x.1 (List.mem_map_of_mem hx)
  shows := by
    simp only [members, values, DBChangeEvent.slots, List.zip_cons_cons, List.map_cons,
      List.forall_mem_cons]
    exact ⟨rfl, rfl, rfl, rfl, rfl, rfl, rfl, rfl, shows_rawField hbefore,
      shows_rawField hafter, rfl, rfl, rfl, rfl, nofun⟩
  printed x hx := by
    have hvalues : ∀ f ∈ values m timestamp, ∀ v, f.2 = some v → Printed v :=
      forall_values (P := Printed) (fun v hv => each_sortKeys v hv) trivial trivial (fun _ => trivial)
        (fun _ => trivial) hprinted
    exact hvalues (x.1, x.2.2) (List.mem_map_of_mem (f := fun x => (x.1, x.2.2)) hx)

end

theorem lookup_settledFields (fields : List (String × Json)) (name : String) :
    (settledFields fields).lookup name = (fields.lookup name).map settled := by
  induction fields with
  | nil => rfl
  | cons f rest ih =>
    obtain ⟨name', v⟩ := f
    rw [settledFields, Dict.lookup_entry, Dict.lookup_entry, ih]
    split <;> rfl

theorem shown_settled (fields : List (String × Option Json)) :
    shown (fields.map fun f => (f.1, f.2.map settled)) = settledFields (shown fields) := by
  induction fields with
  | nil => rfl
  | cons f rest ih =>
    obtain ⟨name, v | v⟩ := f
    · exact ih
    · exact congrArg (List.cons (name, settled v)) ih

theorem omitted_settled {repr : List Char → String} (hrepr : PrintsBack repr) (rule : OmitEmpty)
    {v : Json} (hdoubles : Doubles repr v) (hfinite : Finite v) :
    Util.omitted rule (.plain (settled (sortKeys v))) = Util.omitted rule (.plain v) := by
  cases rule with
  | never => rfl
  | ifNone =>
    cases v with
    | float text =>
      show Value.isNone (.plain (settled (.float text))) = false
      rw [settled]
      split <;> rfl
    | _ => rfl
  | ifFalsy =>
    exact (isFalsy_settled hrepr (each_sortKeys v hdoubles) (each_sortKeys v hfinite)).trans
      (isFalsy_sortKeys v)

/-- The message that is read back. -/
def back (m : List (String × Json)) (timestamp : Int) : List (String × Json) :=
  settledFields (shown (values m timestamp))

section

variable {repr : List Char → String} {m : List (String × Json)} {timestamp : Int}

theorem lookup_back (name : String) : (back m timestamp).lookup name =
    (((values m timestamp).lookup name).join).map settled := by
  rw [back, lookup_settledFields, lookup_shown nodup_values]

/-- A field that is written is read back settled, and one that is left out is its default. -/
theorem field_back {name : String} (rule : OmitEmpty) {v default : Json}
    (hvalue : (values m timestamp).lookup name = some (kept rule v)) :
    field (back m timestamp) name default =
      if Util.omitted rule (.plain v) then default else settled (sortKeys v) := by
  rw [field, lookup_back, hvalue, Option.join_some, kept]
  split <;> rfl

theorem kept_back (hrepr : PrintsBack repr) {name : String} {rule : OmitEmpty} {v default : Json}
    (hvalue : (values m timestamp).lookup name = some (kept rule v))
    (hdefault : Util.omitted rule (.plain v) = true → Util.omitted rule (.plain default) = true)
    (hdoubles : Doubles repr v)
    (hfinite : ∀ f ∈ values m timestamp, ∀ w, f.2 = some w → Finite w) :
    kept rule (field (back m timestamp) name default) = (kept rule v).map settled := by
  rw [field_back rule hvalue]
  by_cases homitted : Util.omitted rule (.plain v) = true
  · rw [if_pos homitted, kept, kept, if_pos homitted, if_pos (hdefault homitted)]
    rfl
  · have hkept : kept rule v = some (sortKeys v) := if_neg homitted
    have hmem := (lookup_eq_some_iff nodup_values).mp hvalue
    have hv : Finite v := each_of_sortKeys v (hfinite _ hmem _ hkept)
    rw [if_neg homitted, hkept, kept, omitted_settled hrepr rule hdoubles hv, if_neg homitted,
      sortKeys_settled, sortKeys_sortKeys, Option.map_some]

/-- The values that are written of the message that is read back are the settled ones. -/
theorem values_back (hrepr : PrintsBack repr) (hdoubles : ∀ f ∈ m, Doubles repr f.2)
    (hfinite : ∀ f ∈ values m timestamp, ∀ w, f.2 = some w → Finite w) :
    values (back m timestamp) timestamp =
      (values m timestamp).map fun f => (f.1, f.2.map settled) := by
  have hnull : Doubles repr .null := trivial
  have hstr : Doubles repr (.str "") := trivial
  have hplain : ∀ name default, Doubles repr default →
      (values m timestamp).lookup name = some (kept .never (field m name default)) →
      kept .never (field (back m timestamp) name default) =
        (kept .never (field m name default)).map settled := fun name default hdefault hvalue =>
    kept_back hrepr hvalue nofun (forall_field hdoubles hdefault name) hfinite
  have hoptional : ∀ name rule, Util.omitted rule (.plain .null) = true →
      (values m timestamp).lookup name = some (kept rule (field m name .null)) →
      kept rule (field (back m timestamp) name .null) = (kept rule (field m name .null)).map settled :=
    fun name rule hrule hvalue =>
      kept_back hrepr hvalue (fun _ => hrule) (forall_field hdoubles hnull name) hfinite
  have hraw : ∀ name, (values m timestamp).lookup name = some (m.lookup name) →
      (back m timestamp).lookup name = (m.lookup name).map settled := by
    intro name hvalue
    rw [lookup_back, hvalue, Option.join_some]
  have himported : kept .ifFalsy (.bool (!Drivers.isFalsy
      (field (back m timestamp) "imported" (.bool false)))) =
      (kept .ifFalsy (.bool (!Drivers.isFalsy (field m "imported" (.bool false))))).map settled := by
    rw [field_back .ifFalsy rfl]
    cases Drivers.isFalsy (field m "imported" (.bool false)) <;> rfl
  show fieldNames.zip ((values (back m timestamp) timestamp).map Prod.snd) =
    fieldNames.zip ((values m timestamp).map fun f => f.2.map settled)
  simp only [values, List.map_cons, List.map_nil, hplain "operation" _ hstr rfl,
    hplain "id" _ hstr rfl, hplain "table" _ hstr rfl, hplain "key" _ hnull rfl,
    hplain "modelVersion" _ hstr rfl, hoptional "companyId" .ifNone rfl rfl,
    hoptional "locationId" .ifNone rfl rfl, hoptional "userId" .ifNone rfl rfl, hraw "before" rfl,
    hraw "after" rfl, hoptional "diff" .ifFalsy rfl rfl, hplain "mvccTimestamp" _ hstr rfl, himported]
  rfl

end

/-! ## Stable messages -/

def plainNames : List String :=
  ["operation", "id", "table", "key", "modelVersion", "companyId", "locationId", "userId", "diff",
    "mvccTimestamp"]

def rawNames : List String := ["before", "after"]

/-- The fields that are compared. -/
def comparedNames : List String := ["operation", "id", "table", "key", "diff", "mvccTimestamp"]

/-- The field is in the message, and it is not an empty diff, which is left out. -/
def Written (m : List (String × Json)) (name : String) (v : Json) : Prop :=
  m.lookup name = some v ∧ (name = "diff" → Drivers.isFalsy v = false)

/-- Every number in a value that is written is finite, none is a negative zero, and in the fields
that are compared a double that is written as an integer is that integer. -/
structure Stable (m : List (String × Json)) : Prop where
  finite : ∀ name ∈ plainNames, ∀ v, Written m name v → Finite v
  signless : ∀ name ∈ plainNames ++ rawNames, ∀ v, Written m name v → Each signless (fun _ => True) v
  exact : ∀ name ∈ comparedNames, ∀ v, Written m name v → Each exact (fun _ => True) v

/-- A property of doubles only. -/
def OfDoubles (leaf : Json → Prop) : Prop := ∀ v, integral v → leaf v

theorem ofDoubles_finite : OfDoubles finite := fun v h => by cases v <;> trivial

theorem ofDoubles_signless : OfDoubles signless := fun v h => by cases v <;> trivial

theorem ofDoubles_exact : OfDoubles exact := fun v h => by
  cases v with
  | float text => exact h.elim
  | _ => trivial

section

variable {m : List (String × Json)} {timestamp : Int}

/-- What is left out is null, or an empty diff. -/
def LeavesOut (name : String) (rule : OmitEmpty) : Prop :=
  ∀ v, Util.omitted rule (.plain v) = true ↔
    (rule = .ifNone ∧ v = .null) ∨ name = "diff" ∧ Drivers.isFalsy v = true

variable (m timestamp) in
theorem plain_cases : ∀ name ∈ plainNames, ∃ rule default,
    (values m timestamp).lookup name = some (kept rule (field m name default)) ∧
    (default = .null ∨ default = .str "") ∧ LeavesOut name rule := by
  have hnull : Json.null = .null ∨ Json.null = .str "" := Or.inl rfl
  have hstr : Json.str "" = .null ∨ Json.str "" = .str "" := Or.inr rfl
  have hnever : ∀ {name}, name ≠ "diff" → LeavesOut name .never := fun hname v =>
    ⟨nofun, fun h => h.elim (fun h => nomatch h.1) fun h => absurd h.1 hname⟩
  have hnone : ∀ {name}, name ≠ "diff" → LeavesOut name .ifNone := by
    intro name hname v
    constructor
    · intro h
      cases v with
      | null => exact Or.inl ⟨rfl, rfl⟩
      | _ => cases h
    · rintro (⟨-, rfl⟩ | ⟨h, -⟩)
      · rfl
      · exact absurd h hname
  have hdiff : LeavesOut "diff" .ifFalsy := fun v =>
    ⟨fun h => Or.inr ⟨rfl, h⟩, fun h => h.elim (fun h => nomatch h.1) fun h => h.2⟩
  simp only [plainNames, List.forall_mem_cons]
  exact ⟨⟨.never, _, rfl, hstr, hnever (by decide)⟩, ⟨.never, _, rfl, hstr, hnever (by decide)⟩,
    ⟨.never, _, rfl, hstr, hnever (by decide)⟩, ⟨.never, _, rfl, hnull, hnever (by decide)⟩,
    ⟨.never, _, rfl, hstr, hnever (by decide)⟩, ⟨.ifNone, _, rfl, hnull, hnone (by decide)⟩,
    ⟨.ifNone, _, rfl, hnull, hnone (by decide)⟩, ⟨.ifNone, _, rfl, hnull, hnone (by decide)⟩,
    ⟨.ifFalsy, _, rfl, hnull, hdiff⟩, ⟨.never, _, rfl, hstr, hnever (by decide)⟩,
    List.forall_mem_nil _⟩

theorem field_of_lookup {name : String} {v : Json} (h : m.lookup name = some v) (default : Json) :
    field m name default = v := by
  rw [field, h, Option.getD_some]

/-- What holds of the doubles of the fields holds of the doubles that are written. -/
theorem each_values {leaf : Json → Prop} (hleaf : OfDoubles leaf)
    (hplain : ∀ name ∈ plainNames, ∀ v, Written m name v → Each leaf (fun _ => True) v)
    (hraw : ∀ name ∈ rawNames, ∀ v, m.lookup name = some v → Each leaf (fun _ => True) v) :
    ∀ f ∈ values m timestamp, ∀ v, f.2 = some v → Each leaf (fun _ => True) v := by
  have hkept : ∀ name ∈ plainNames, ∀ w, (values m timestamp).lookup name = some (some w) →
      Each leaf (fun _ => True) w := by
    intro name hname w hw
    obtain ⟨rule, default, hvalue, hdefault, homits⟩ :=
      plain_cases m timestamp name hname
    have hkept := Option.some.inj (hvalue.symm.trans hw)
    rw [kept_eq_some hkept]
    refine each_sortKeys _ ?_
    cases hlookup : m.lookup name with
    | none =>
      rw [field, hlookup, Option.getD_none]
      rcases hdefault with rfl | rfl
      · exact hleaf .null trivial
      · exact hleaf (.str "") trivial
    | some v =>
      rw [field_of_lookup hlookup] at hkept ⊢
      refine hplain name hname v ⟨hlookup, fun hdiff => ?_⟩
      by_contra hfalsy
      rw [kept, if_pos ((homits v).mpr (Or.inr ⟨hdiff, Bool.eq_true_of_not_eq_false hfalsy⟩))] at hkept
      cases hkept
  have hsimple : ∀ name, name ∈ plainNames → ∀ {u : Option Json},
      (values m timestamp).lookup name = some u → ∀ w, u = some w → Each leaf (fun _ => True) w :=
    fun name hname u hu w hw => hkept name hname w (hw ▸ hu)
  simp only [values, List.forall_mem_cons]
  refine ⟨hsimple "operation" (by decide) rfl, hsimple "id" (by decide) rfl,
    hsimple "table" (by decide) rfl, hsimple "key" (by decide) rfl,
    hsimple "modelVersion" (by decide) rfl, hsimple "companyId" (by decide) rfl,
    hsimple "locationId" (by decide) rfl, hsimple "userId" (by decide) rfl,
    hraw "before" (by decide), hraw "after" (by decide), hsimple "diff" (by decide) rfl,
    fun w hw => ?_, hsimple "mvccTimestamp" (by decide) rfl, fun w hw => ?_, nofun⟩
  · rw [kept_eq_some hw]
    exact hleaf (.int timestamp) trivial
  · rw [kept_eq_some hw]
    exact hleaf (.bool _) trivial

theorem each_of_values {leaf : Json → Prop} (hleaf : OfDoubles leaf)
    (h : ∀ f ∈ values m timestamp, ∀ v, f.2 = some v → Each leaf (fun _ => True) v) :
    ∀ name ∈ plainNames, ∀ v, Written m name v → Each leaf (fun _ => True) v := by
  intro name hname v hwritten
  obtain ⟨rule, default, hvalue, -, homits⟩ :=
    plain_cases m timestamp name hname
  rw [field_of_lookup hwritten.1] at hvalue
  by_cases homitted : Util.omitted rule (.plain v) = true
  · rcases (homits v).mp homitted with ⟨-, rfl⟩ | ⟨hdiff, hfalsy⟩
    · exact hleaf .null trivial
    · rw [hwritten.2 hdiff] at hfalsy
      cases hfalsy
  · rw [kept, if_neg homitted] at hvalue
    exact each_of_sortKeys v (h _ ((lookup_eq_some_iff nodup_values).mp hvalue) _ rfl)

theorem lookup_raw : ∀ name ∈ rawNames, (values m timestamp).lookup name = some (m.lookup name) := by
  simp only [rawNames, List.forall_mem_cons]
  exact ⟨rfl, rfl, List.forall_mem_nil _⟩

theorem raw_of_values {leaf : Json → Prop}
    (h : ∀ f ∈ values m timestamp, ∀ v, f.2 = some v → Each leaf (fun _ => True) v) :
    ∀ name ∈ rawNames, ∀ v, m.lookup name = some v → Each leaf (fun _ => True) v :=
  fun name hname v hlookup =>
    h (name, some v) ((lookup_eq_some_iff nodup_values).mp (hlookup ▸ lookup_raw name hname)) v rfl

theorem written_raw : ∀ name ∈ rawNames, ∀ v, Written m name v ↔ m.lookup name = some v := by
  have hne : ∀ name ∈ rawNames, name ≠ "diff" := by decide
  exact fun name hname v => ⟨fun h => h.1, fun h => ⟨h, fun hdiff => absurd hdiff (hne name hname)⟩⟩

theorem finite_rawField {name : String} {raw : Option String} (h : rawField m name = .ok raw) :
    ∀ v, m.lookup name = some v → Finite v := by
  intro v hlookup
  rw [rawField, hlookup] at h
  cases htext : marshalWith false v with
  | error e =>
    simp only [htext] at h
    cases h
  | ok text => exact finite_of_marshalWith false v text htext

theorem each_shown {leaf : Json → Prop} {fields : List (String × Option Json)}
    (h : ∀ f ∈ fields, ∀ v, f.2 = some v → Each leaf (fun _ => True) v) :
    Each leaf (fun _ => True) (.obj (shown fields)) := by
  rw [Each, eachField_iff]
  exact fun f hf => ⟨trivial, h _ (mem_shown.mp hf) f.2 rfl⟩

theorem each_of_shown {leaf : Json → Prop} {fields : List (String × Option Json)}
    (h : Each leaf (fun _ => True) (.obj (shown fields))) :
    ∀ f ∈ fields, ∀ v, f.2 = some v → Each leaf (fun _ => True) v := by
  rw [Each, eachField_iff] at h
  rintro ⟨name, w⟩ hf v rfl
  exact (h _ (mem_shown.mpr hf)).2

end

/-! ## An event that was read -/

section

variable {py : Interpreter}

/-- What `from_message` found when it accepted the fields of a message. -/
structure Accepts (py : Interpreter) (m : List (String × Json)) (before after : Option String)
    (timestamp : Int) : Prop where
  key : ∃ object pk, getObject py (event m before after timestamp) = .ok object ∧
    getPrimaryKey (event m before after timestamp) object = .ok pk ∧ pk.eqStr "" = false
  before : rawField m "before" = .ok before
  after : rawField m "after" = .ok after
  timestamp : py.toInt (field m "timestamp" (.int 0)) = .ok timestamp

theorem fromMessage_ok_iff {data : List UInt8} {seq : Int} {e : DBChangeEvent} :
    fromMessage py data seq = .ok e ↔ ∃ m before after timestamp, loads py data = some (.obj m) ∧
      Accepts py m before after timestamp ∧ e = event m before after timestamp := by
  rw [fromMessage]
  constructor
  · intro h
    split at h
    · cases h
    · next m hloads =>
      obtain ⟨before, hbefore, h⟩ := bind_eq_ok.mp h
      obtain ⟨after, hafter, h⟩ := bind_eq_ok.mp h
      obtain ⟨timestamp, htimestamp, h⟩ := bind_eq_ok.mp h
      dsimp only at h
      split at h
      · cases h
      · next object hobject =>
        obtain ⟨pk, hpk, h⟩ := bind_eq_ok.mp h
        split at h
        · cases h
        · next hne =>
          cases h
          exact ⟨m, before, after, timestamp, hloads, ⟨⟨object, pk, hobject, hpk,
            Bool.eq_false_of_not_eq_true hne⟩, hbefore, hafter, htimestamp⟩, rfl⟩
    · cases h
  · rintro ⟨m, before, after, timestamp, hloads, haccepts, rfl⟩
    obtain ⟨object, pk, hobject, hpk, hne⟩ := haccepts.key
    rw [hloads]
    simp only [haccepts.before, haccepts.after, haccepts.timestamp, hobject, hpk, hne, bind,
      Except.bind, Bool.false_eq_true, if_false]

end

/-! ## Written and read again -/

/-- What is relied on: doubles are read back from their texts, the bytes of a JSON text are taken
for that text, and an integer is its own `int`. -/
structure Interpreter.Lawful (py : Interpreter) : Prop where
  repr : PrintsBack py.repr
  text_utf8 : ∀ t s, Json.Reads t s → py.text (utf8 s) = some s
  toInt_int : ∀ n, py.toInt (.int n) = .ok n

/-- The events have equal fields, except that an empty diff is dropped. -/
structure Agree (py : Interpreter) (e e' : DBChangeEvent) : Prop where
  operation : Equal e.operation e'.operation
  id : Equal e.id e'.id
  table : Equal e.table e'.table
  key : Equal e.key e'.key
  diff : Equal e.diff e'.diff ∨ Drivers.isFalsy e.diff = true ∧ e'.diff = .null
  timestamp : e'.timestamp = e.timestamp
  mvccTimestamp : Equal e.mvccTimestamp e'.mvccTimestamp
  object : getObject py e' = getObject py e

/-- The text of the event is accepted, the event that is read from it has the same text, and the
events agree. -/
def Reencodes (py : Interpreter) (e : DBChangeEvent) (seq : Int) : Prop :=
  ∃ text e', e.toJson = .ok text ∧ fromMessage py (utf8 text.toList) seq = .ok e' ∧
    e'.toJson = .ok text ∧ Agree py e e'

section

variable {m : List (String × Json)} {before after : Option String} {timestamp : Int}

theorem toJson_event (hprinted : ∀ f ∈ m, Printed f.2) (hbefore : rawField m "before" = .ok before)
    (hafter : rawField m "after" = .ok after)
    (hfinite : ∀ f ∈ values m timestamp, ∀ v, f.2 = some v → Finite v) :
    (event m before after timestamp).toJson =
      marshalWith false (.obj (shown (values m timestamp))) := by
  have hshowing : Showing (members (event m before after timestamp) m timestamp) :=
    showing_members hprinted hbefore hafter
  have hstruct := gojsonStruct_eq hshowing fun x hx =>
    hfinite (x.1, x.2.2) (List.mem_map_of_mem (f := fun x => (x.1, x.2.2)) hx)
  rw [slots_members, values_members] at hstruct
  rw [DBChangeEvent.toJson, hstruct, marshalWith]
  cases marshalFieldsWith false (shown (values m timestamp)) <;> rfl

theorem finite_of_toJson {text : String} (hprinted : ∀ f ∈ m, Printed f.2)
    (hbefore : rawField m "before" = .ok before) (hafter : rawField m "after" = .ok after)
    (h : (event m before after timestamp).toJson = .ok text) :
    ∀ f ∈ values m timestamp, ∀ v, f.2 = some v → Finite v := by
  rw [DBChangeEvent.toJson, ← slots_members] at h
  cases hparts : gojsonStruct ((members (event m before after timestamp) m timestamp).map
      fun x => (x.1, x.2.1)) with
  | error e =>
    rw [hparts] at h
    cases h
  | ok parts =>
    have hfinite := finite_of_gojsonStruct (showing_members hprinted hbefore hafter) hparts
    have hmembers : (members (event m before after timestamp) m timestamp).map
      (fun x => (x.1, x.2.2)) = values m timestamp := values_members
    rw [← hmembers, List.forall_mem_map]
    exact hfinite

variable {py : Interpreter}

theorem doubles_of_loads {data : List UInt8} (h : loads py data = some (.obj m)) :
    (∀ f ∈ m, Doubles py.repr f.2) ∧ Distinct (.obj m) := by
  obtain ⟨s, -, hs⟩ := Option.bind_eq_some_iff.mp h
  obtain ⟨t, -, ht⟩ := Option.map_eq_some_iff.mp hs
  have hdoubles : Doubles py.repr (ofTree py.repr t) := doubles_ofTree t
  rw [ht, Doubles, Each, eachField_iff] at hdoubles
  exact ⟨fun f hf => (hdoubles f hf).2, ht ▸ distinct_ofTree t⟩

theorem loads_marshalWith (hpy : py.Lawful) {v : Json} {text : String} (hdoubles : Doubles py.repr v)
    (hfinite : Finite v) (hdistinct : Distinct v) (h : marshalWith false v = .ok text) :
    loads py (utf8 text.toList) = some (settled v) := by
  obtain ⟨text', htext', hreads⟩ := reads_kept v (hpy.repr.printed hdoubles) hfinite
  rw [h] at htext'
  cases htext'
  rw [loads, hpy.text_utf8 _ _ hreads, Option.bind_some, hreads.parse, Option.map_some,
    ofTree_settled hpy.repr v hdoubles hfinite hdistinct]

/-- An object that was kept as a text is parsed. -/
theorem exists_getObject {fields : List (String × Json)} {text : String} {e : DBChangeEvent}
    (hprinted : Printed (.obj fields)) (h : marshalWith false (.obj fields) = .ok text)
    (he : e.after = some text) : ∃ object, getObject py e = .ok (some object) := by
  obtain ⟨text', htext', hreads⟩ := reads_kept _ hprinted (finite_of_marshalWith false _ _ h)
  rw [h] at htext'
  cases htext'
  have hne : (text != "") = true := bne_iff_ne.mpr (ne_empty_of_marshalWith hprinted h)
  refine ⟨(Dict.ofList (floatFields py.repr (treeFields fields))).items, ?_⟩
  rw [getObject, he, Option.filter_some, if_pos hne, Option.some_or]
  dsimp only
  rw [parseObject, hreads.parse]
  rfl

theorem last_settled (v : Json) :
    last (settled (sortKeys v)) = (last v).map fun w => settled (sortKeys w) := by
  cases v with
  | arr vs =>
    have hitems : settled (sortKeys (.arr vs)) = .arr (vs.map fun w => settled (sortKeys w)) := by
      show Json.arr (settledItems (sortItems vs)) = _
      rw [settledItems_eq_map, sortItems_eq_map, List.map_map]
      rfl
    rw [hitems, last, last, List.getLast?_map]
    cases vs.getLast? <;> rfl
  | str s =>
    show last (.str s) = _
    rw [last]
    cases s.toList.getLast? <;> rfl
  | float text =>
    show last (settled (.float text)) = _
    rw [settled]
    split <;> rfl
  | _ => rfl

theorem eqStr_settled (v : Json) (s : String) : (settled (sortKeys v)).eqStr s = v.eqStr s := by
  cases v with
  | float text =>
    show (settled (.float text)).eqStr s = _
    rw [settled]
    split <;> rfl
  | _ => rfl

theorem timestamp_back (hint : ∀ n, py.toInt (.int n) = .ok n) :
    py.toInt (field (back m timestamp) "timestamp" (.int 0)) = .ok timestamp := by
  rw [field_back .never rfl]
  exact hint timestamp

/-- What is needed of a message that was read, and of the values that are written of it. -/
structure Sound (py : Interpreter) (m : List (String × Json)) (timestamp : Int) : Prop where
  repr : PrintsBack py.repr
  doubles : ∀ f ∈ m, Doubles py.repr f.2
  distinct : Distinct (.obj m)
  finite : ∀ f ∈ values m timestamp, ∀ v, f.2 = some v → Finite v

namespace Sound

variable (h : Sound py m timestamp)

include h

theorem printed : ∀ f ∈ m, Printed f.2 := fun f hf => h.repr.printed (h.doubles f hf)

theorem doubles_values : ∀ f ∈ values m timestamp, ∀ v, f.2 = some v → Doubles py.repr v :=
  forall_values (P := Doubles py.repr) (fun v hv => each_sortKeys v hv) trivial trivial
    (fun _ => trivial) (fun _ => trivial) h.doubles

theorem doubles_shown : Doubles py.repr (.obj (shown (values m timestamp))) :=
  each_shown h.doubles_values

theorem finite_shown : Finite (.obj (shown (values m timestamp))) := each_shown h.finite

theorem printed_shown : Printed (.obj (shown (values m timestamp))) := h.repr.printed h.doubles_shown

theorem distinct_shown : Distinct (.obj (shown (values m timestamp))) := by
  have hvalues : ∀ f ∈ values m timestamp, ∀ v, f.2 = some v → Distinct v :=
    forall_values (P := Distinct) (fun v hv => distinct_sortKeys v hv) trivial trivial
      (fun _ => trivial) (fun _ => trivial) (distinctFields_iff.mp h.distinct.2)
  refine ⟨nodup_values.sublist (keys_shown_sublist _), distinctFields_iff.mpr fun f hf => ?_⟩
  exact hvalues _ (mem_shown.mp hf) f.2 rfl

theorem values_back : values (back m timestamp) timestamp =
    (values m timestamp).map fun f => (f.1, f.2.map settled) :=
  Dbchange.values_back h.repr h.doubles h.finite

/-- The event that is read back is written as the settled values. -/
theorem toJson_back (hbefore : rawField (back m timestamp) "before" = .ok before)
    (hafter : rawField (back m timestamp) "after" = .ok after) :
    (event (back m timestamp) before after timestamp).toJson =
      marshalWith false (settled (.obj (shown (values m timestamp)))) := by
  have hprinted : Printed (.obj (back m timestamp)) :=
    each_settled (fun _ => trivial) _ h.printed_shown
  have hfinite : ∀ f ∈ values (back m timestamp) timestamp, ∀ v, f.2 = some v → Finite v := by
    rw [h.values_back, List.forall_mem_map]
    intro f hf v hv
    obtain ⟨w, hw, rfl⟩ := Option.map_eq_some_iff.mp hv
    exact each_settled (fun _ => trivial) w (h.finite f hf w hw)
  rw [Printed, Each, eachField_iff] at hprinted
  rw [toJson_event (fun f hf => (hprinted f hf).2) hbefore hafter hfinite, h.values_back, shown_settled,
    settled]

theorem finite_field {name : String} {v : Json}
    (hvalue : (values m timestamp).lookup name = some (some (sortKeys v))) : Finite v :=
  each_of_sortKeys v (h.finite _ ((lookup_eq_some_iff nodup_values).mp hvalue) _ rfl)

theorem equal_lookup {name : String} {v : Json} (hlookup : m.lookup name = some v) (hfinite : Finite v) :
    Equal v (settled (sortKeys v)) ↔ Each exact (fun _ => True) v := by
  have hmem := (lookup_eq_some_iff h.distinct.1).mp hlookup
  exact equal_settled_iff v (h.printed _ hmem) hfinite (distinctFields_iff.mp h.distinct.2 _ hmem)

/-- A field that is always written is equal to what is read back if its doubles are exact. -/
theorem equal_back {name : String} {default : Json} (hname : name ≠ "diff")
    (hdefault : default = .null ∨ default = .str "")
    (hvalue : (values m timestamp).lookup name = some (kept .never (field m name default))) :
    Equal (field m name default) (field (back m timestamp) name default) ↔
      ∀ v, Written m name v → Each exact (fun _ => True) v := by
  rw [field_back .never hvalue]
  show Equal _ (settled (sortKeys _)) ↔ _
  cases hlookup : m.lookup name with
  | none =>
    refine iff_of_true ?_ fun v hv => nomatch hlookup.symm.trans hv.1
    rw [field, hlookup, Option.getD_none]
    rcases hdefault with rfl | rfl <;> rfl
  | some v =>
    rw [field_of_lookup hlookup] at hvalue ⊢
    rw [h.equal_lookup hlookup (h.finite_field hvalue)]
    constructor
    · intro hexact w hw
      rw [Option.some.inj (hw.1.symm.trans hlookup)]
      exact hexact
    · exact fun hall => hall v ⟨hlookup, fun hdiff => absurd hdiff hname⟩

/-- A diff is dropped if it is empty. -/
theorem equal_diff : (Equal (field m "diff" .null) (field (back m timestamp) "diff" .null) ∨
      Drivers.isFalsy (field m "diff" .null) = true ∧ field (back m timestamp) "diff" .null = .null) ↔
    ∀ v, Written m "diff" v → Each exact (fun _ => True) v := by
  have hback : field (back m timestamp) "diff" .null =
      if Drivers.isFalsy (field m "diff" .null) then .null
      else settled (sortKeys (field m "diff" .null)) := field_back .ifFalsy rfl
  rw [hback]
  by_cases hfalsy : Drivers.isFalsy (field m "diff" .null) = true
  · refine iff_of_true (Or.inr ⟨hfalsy, if_pos hfalsy⟩) fun v hv => ?_
    rw [field_of_lookup hv.1, hv.2 rfl] at hfalsy
    cases hfalsy
  · have hvalue : (values m timestamp).lookup "diff" = some (some (sortKeys (field m "diff" .null))) :=
      congrArg some (if_neg hfalsy)
    rw [if_neg hfalsy, or_iff_left fun hnull => hfalsy hnull.1]
    cases hlookup : m.lookup "diff" with
    | none =>
      rw [field, hlookup] at hfalsy
      exact absurd rfl hfalsy
    | some v =>
      rw [field_of_lookup hlookup] at hvalue hfalsy ⊢
      rw [h.equal_lookup hlookup (h.finite_field hvalue)]
      constructor
      · intro hexact w hw
        rw [Option.some.inj (hw.1.symm.trans hlookup)]
        exact hexact
      · exact fun hall => hall v ⟨hlookup, fun _ => Bool.eq_false_of_not_eq_true hfalsy⟩

/-- A text is the text of what is read back from it if there is no negative zero. -/
theorem signless_of_marshalWith {text : String}
    (htext : marshalWith false (.obj (shown (values m timestamp))) = .ok text)
    (hback : marshalWith false (settled (.obj (shown (values m timestamp)))) = .ok text) :
    Each signless (fun _ => True) (.obj (shown (values m timestamp))) := by
  obtain ⟨t, ht, hreads⟩ := reads_kept _ h.printed_shown h.finite_shown
  obtain ⟨t', ht', hreads'⟩ := reads_kept _ (each_settled (fun _ => trivial) _ h.printed_shown)
    (each_settled (fun _ => trivial) _ h.finite_shown)
  rw [htext] at ht
  rw [hback] at ht'
  cases ht
  cases ht'
  have hparse := hreads'.parse.symm.trans hreads.parse
  exact signless_of_treeOf _ h.printed_shown h.finite_shown (Option.some.inj hparse)

theorem exact_of_agree {e e' : DBChangeEvent} (he : e = event m before after timestamp)
    {before' after' : Option String} (he' : e' = event (back m timestamp) before' after' timestamp)
    (hagree : Agree py e e') :
    ∀ name ∈ comparedNames, ∀ v, Written m name v → Each exact (fun _ => True) v := by
  subst he he'
  simp only [comparedNames, List.forall_mem_cons]
  exact ⟨(h.equal_back (by decide) (Or.inr rfl) rfl).mp hagree.operation,
    (h.equal_back (by decide) (Or.inr rfl) rfl).mp hagree.id,
    (h.equal_back (by decide) (Or.inr rfl) rfl).mp hagree.table,
    (h.equal_back (by decide) (Or.inl rfl) rfl).mp hagree.key, h.equal_diff.mp hagree.diff,
    (h.equal_back (by decide) (Or.inr rfl) rfl).mp hagree.mvccTimestamp, nofun⟩

theorem agree_of_exact
    (hexact : ∀ name ∈ comparedNames, ∀ v, Written m name v → Each exact (fun _ => True) v) :
    Agree py (event m before after timestamp) (event (back m timestamp) before after timestamp) where
  operation := (h.equal_back (by decide) (Or.inr rfl) rfl).mpr (hexact "operation" (by decide))
  id := (h.equal_back (by decide) (Or.inr rfl) rfl).mpr (hexact "id" (by decide))
  table := (h.equal_back (by decide) (Or.inr rfl) rfl).mpr (hexact "table" (by decide))
  key := (h.equal_back (by decide) (Or.inl rfl) rfl).mpr (hexact "key" (by decide))
  diff := h.equal_diff.mpr (hexact "diff" (by decide))
  timestamp := rfl
  mvccTimestamp := (h.equal_back (by decide) (Or.inr rfl) rfl).mpr (hexact "mvccTimestamp" (by decide))
  object := rfl

/-- The raw fields are read back as they are. -/
theorem rawField_back {name : String} {raw : Option String} (hname : name ∈ rawNames)
    (hsignless : ∀ v, m.lookup name = some v → Each signless (fun _ => True) v)
    (hraw : rawField m name = .ok raw) : rawField (back m timestamp) name = .ok raw := by
  have hvalue : (values m timestamp).lookup name = some (m.lookup name) := lookup_raw name hname
  rw [rawField, lookup_back, hvalue, Option.join_some]
  cases hlookup : m.lookup name with
  | none =>
    rw [rawField, hlookup] at hraw
    exact hraw
  | some v =>
    have hmem := (lookup_eq_some_iff h.distinct.1).mp hlookup
    have hfinite : Finite v := raw_of_values h.finite name hname v hlookup
    rw [rawField, hlookup] at hraw
    rw [Option.map_some]
    dsimp only
    rw [marshalWith_settled false v (h.printed _ hmem) hfinite (hsignless v hlookup)]
    exact hraw

/-- The primary key is found again. -/
theorem key_back {object : Option (List (String × Json))} {pk : Json}
    (hpk : getPrimaryKey (event m before after timestamp) object = .ok pk) :
    ∃ pk', getPrimaryKey (event (back m timestamp) before after timestamp) object = .ok pk' ∧
      pk'.eqStr "" = pk.eqStr "" := by
  have hvalue : (values m timestamp).lookup "key" = some (some (sortKeys (field m "key" .null))) := rfl
  have hback : field (back m timestamp) "key" .null = settled (sortKeys (field m "key" .null)) :=
    field_back (v := field m "key" .null) .never hvalue
  have hkey : (event (back m timestamp) before after timestamp).key =
      settled (sortKeys (field m "key" .null)) := hback
  have hdoubles : Doubles py.repr (field m "key" .null) :=
    forall_field (P := Doubles py.repr) h.doubles (show Doubles py.repr .null from trivial) "key"
  have hfalsy : Drivers.isFalsy (settled (sortKeys (field m "key" .null))) =
      Drivers.isFalsy (field m "key" .null) :=
    omitted_settled h.repr .ifFalsy hdoubles (h.finite_field hvalue)
  have hevent : (event m before after timestamp).key = field m "key" .null := rfl
  rw [getPrimaryKey, hevent] at hpk
  rw [getPrimaryKey, hkey, hfalsy, last_settled]
  by_cases hempty : Drivers.isFalsy (field m "key" .null) = true
  · rw [if_pos hempty] at hpk ⊢
    exact ⟨pk, hpk, rfl⟩
  · rw [if_neg hempty] at hpk ⊢
    rw [hpk]
    exact ⟨_, rfl, eqStr_settled pk ""⟩

end Sound

end

/-! ## The fixed point -/

section

variable {py : Interpreter} {m : List (String × Json)} {before after : Option String} {timestamp : Int}
  {data : List UInt8} {seq : Int}

theorem stable_of_reencodes (hpy : py.Lawful) (hloads : loads py data = some (.obj m))
    (haccepts : Accepts py m before after timestamp)
    (hreencodes : Reencodes py (event m before after timestamp) seq) : Stable m := by
  obtain ⟨hdoubles, hdistinct⟩ := doubles_of_loads hloads
  have hprinted : ∀ f ∈ m, Printed f.2 := fun f hf => hpy.repr.printed (hdoubles f hf)
  obtain ⟨text, e', htext, he', htext', hagree⟩ := hreencodes
  have hfinite := finite_of_toJson hprinted haccepts.before haccepts.after htext
  have h : Sound py m timestamp := ⟨hpy.repr, hdoubles, hdistinct, hfinite⟩
  rw [toJson_event hprinted haccepts.before haccepts.after hfinite] at htext
  have hread := loads_marshalWith hpy h.doubles_shown h.finite_shown h.distinct_shown htext
  obtain ⟨m', before', after', timestamp', hloads', haccepts', rfl⟩ := fromMessage_ok_iff.mp he'
  obtain rfl : back m timestamp = m' := Json.obj.inj (Option.some.inj (hread.symm.trans hloads'))
  obtain rfl : timestamp = timestamp' :=
    Except.ok.inj ((timestamp_back hpy.toInt_int).symm.trans haccepts'.timestamp)
  rw [h.toJson_back haccepts'.before haccepts'.after] at htext'
  have hsignless := each_of_shown (h.signless_of_marshalWith htext htext')
  refine ⟨each_of_values ofDoubles_finite hfinite, fun name hname => ?_,
    h.exact_of_agree rfl rfl hagree⟩
  rcases List.mem_append.mp hname with hname | hname
  · exact each_of_values ofDoubles_signless hsignless name hname
  · intro v hv
    exact raw_of_values hsignless name hname v ((written_raw name hname v).mp hv)

theorem reencodes_of_stable (hpy : py.Lawful) (hloads : loads py data = some (.obj m))
    (haccepts : Accepts py m before after timestamp) (hstable : Stable m) :
    Reencodes py (event m before after timestamp) seq := by
  obtain ⟨hdoubles, hdistinct⟩ := doubles_of_loads hloads
  have hprinted : ∀ f ∈ m, Printed f.2 := fun f hf => hpy.repr.printed (hdoubles f hf)
  have hrawFinite : ∀ name ∈ rawNames, ∀ v, m.lookup name = some v → Finite v := by
    simp only [rawNames, List.forall_mem_cons]
    exact ⟨finite_rawField haccepts.before, finite_rawField haccepts.after, nofun⟩
  have hfinite : ∀ f ∈ values m timestamp, ∀ v, f.2 = some v → Finite v :=
    each_values ofDoubles_finite hstable.finite hrawFinite
  have h : Sound py m timestamp := ⟨hpy.repr, hdoubles, hdistinct, hfinite⟩
  have hraw : ∀ name ∈ rawNames, ∀ v, m.lookup name = some v → Each signless (fun _ => True) v :=
    fun name hname v hlookup => hstable.signless name (List.mem_append_right _ hname) v
      ((written_raw name hname v).mpr hlookup)
  have hsignless : Each signless (fun _ => True) (.obj (shown (values m timestamp))) :=
    each_shown (each_values ofDoubles_signless
      (fun name hname => hstable.signless name (List.mem_append_left _ hname)) hraw)
  obtain ⟨text, htext, -⟩ := reads_kept _ h.printed_shown h.finite_shown
  have hread := loads_marshalWith hpy h.doubles_shown h.finite_shown h.distinct_shown htext
  have hbefore := h.rawField_back (by decide) (hraw "before" (by decide)) haccepts.before
  have hafter := h.rawField_back (by decide) (hraw "after" (by decide)) haccepts.after
  obtain ⟨object, pk, hobject, hpk, hne⟩ := haccepts.key
  obtain ⟨pk', hpk', hne'⟩ := h.key_back hpk
  refine ⟨text, event (back m timestamp) before after timestamp, ?_, ?_, ?_,
    h.agree_of_exact hstable.exact⟩
  · rw [toJson_event hprinted haccepts.before haccepts.after hfinite, htext]
  · exact fromMessage_ok_iff.mpr ⟨back m timestamp, before, after, timestamp, hread,
      ⟨⟨object, pk', hobject, hpk', hne'.trans hne⟩, hbefore, hafter,
        timestamp_back hpy.toInt_int⟩, rfl⟩
  · rw [h.toJson_back hbefore hafter,
      marshalWith_settled false _ h.printed_shown h.finite_shown hsignless, htext]

end

/-- An event that is written and read again is the same if and only if the message is stable. -/
theorem reencoding_iff {py : Interpreter} (hpy : py.Lawful) {data : List UInt8}
    {m : List (String × Json)} {seq : Int} {e : DBChangeEvent}
    (hloads : loads py data = some (.obj m)) (he : fromMessage py data seq = .ok e) :
    (∀ seq', Reencodes py e seq') ↔ Stable m := by
  obtain ⟨m', before, after, timestamp, hloads', haccepts, rfl⟩ := fromMessage_ok_iff.mp he
  obtain rfl : m = m' := Json.obj.inj (Option.some.inj (hloads.symm.trans hloads'))
  exact ⟨fun h => stable_of_reencodes hpy hloads haccepts (h seq),
    fun h seq' => reencodes_of_stable hpy hloads haccepts h⟩

/-- An interpreter whose only double has the given text. -/
def singleDouble (text : String) : Interpreter where
  text := ofUtf8
  refusal _ := ""
  decode _ := ""
  repr _ := text
  toInt
    | .int n => .ok n
    | _ => .error (.exception "")
  str _ := ""

theorem lawful_singleDouble {text : String} (hnumber : ∃ x : NumberText, text = String.ofList x.text)
    (hzero : (Decimal.ofRepr text).digits = [] → text = "0.0" ∨ text = "-0.0") :
    (singleDouble text).Lawful where
  repr := ⟨fun _ _ => hnumber, fun _ _ => hzero, fun _ _ _ _ => rfl⟩
  text_utf8 _ s _ := ofUtf8_utf8 s
  toInt_int _ := rfl

/-- A message without doubles is stable. -/
theorem stable_of_integral {m : List (String × Json)}
    (h : ∀ f ∈ m, Each integral (fun _ => True) f.2) : Stable m := by
  have hall : ∀ {leaf : Json → Prop}, OfDoubles leaf → ∀ name v, Written m name v →
      Each leaf (fun _ => True) v := by
    intro leaf hleaf name v hv
    obtain ⟨l, r, rfl, -⟩ := List.lookup_eq_some_iff.mp hv.1
    exact Each.imp hleaf v (h (name, v) (List.mem_append_right l List.mem_cons_self))
  exact ⟨fun name _ => hall ofDoubles_finite name, fun name _ => hall ofDoubles_signless name,
    fun name _ => hall ofDoubles_exact name⟩

def insertMessage : List (String × Json) :=
  [("operation", .str "INSERT"), ("key", .arr [.str "k"]), ("after", .obj [("n", .int 1)])]

theorem reencoding_iff_insert : ∃ text e, marshalWith false (.obj insertMessage) = .ok text ∧
    fromMessage (singleDouble "0.5") (utf8 text.toList) 0 = .ok e ∧
      ∀ seq, Reencodes (singleDouble "0.5") e seq := by
  have hpy : (singleDouble "0.5").Lawful := by
    refine lawful_singleDouble ⟨⟨false, [0], [5], [], Or.inl rfl, Or.inl rfl⟩, rfl⟩ fun h => ?_
    exact absurd h (by decide)
  have hintegral : ∀ f ∈ insertMessage, Each integral (fun _ => True) f.2 := by
    simp only [insertMessage, List.forall_mem_cons]
    exact ⟨trivial, ⟨trivial, trivial⟩, ⟨trivial, trivial, trivial⟩, nofun⟩
  have hvalue : JsonValue (.obj insertMessage) :=
    ⟨eachField_iff.mpr fun f hf => ⟨trivial, hintegral f hf⟩, by decide, trivial, ⟨trivial, trivial⟩,
      ⟨by decide, trivial, trivial⟩, trivial⟩
  obtain ⟨text, htext, hreads⟩ := reads_kept _ hvalue.printed hvalue.finite
  have hloads : loads (singleDouble "0.5") (utf8 text.toList) = some (.obj insertMessage) := by
    rw [loads, hpy.text_utf8 _ _ hreads, Option.bind_some, hreads.parse, Option.map_some,
      ofTree_treeOf _ _ hvalue]
  have hafter : rawField insertMessage "after" = .ok (some "\x7b\"n\":1\x7d") := rfl
  have hfields : Printed (.obj [("n", .int 1)]) := ⟨trivial, trivial, trivial⟩
  have hobject : ∃ object, getObject (singleDouble "0.5")
      (event insertMessage none (some "\x7b\"n\":1\x7d") 0) = .ok (some object) :=
    exists_getObject hfields rfl rfl
  obtain ⟨object, hobject⟩ := hobject
  have he : fromMessage (singleDouble "0.5") (utf8 text.toList) 0 =
      .ok (event insertMessage none (some "\x7b\"n\":1\x7d") 0) :=
    fromMessage_ok_iff.mpr ⟨insertMessage, none, _, 0, hloads,
      ⟨⟨_, .str "k", hobject, rfl, rfl⟩, rfl, hafter, rfl⟩, rfl⟩
  exact ⟨text, _, htext, he, (reencoding_iff hpy hloads he).mpr (stable_of_integral hintegral)⟩

/-! ## A negative zero -/

def minusZero : NumberText := ⟨true, zeros 1, zeros 1, [], whole_zero, isExponentText_nil⟩

theorem formatJson_minusZero : formatJson "-0.0" = .ok "-0" := by
  have hneg : "-0.0".startsWith "-" = true := minusZero.startsWith_minus
  have hdigits : (Decimal.ofRepr "-0.0").digits = [] := rfl
  have hfinite : isFinite "-0.0" = true := by decide
  rw [formatJson, if_pos hfinite]
  dsimp only
  rw [if_pos hdigits]
  show Except.ok (sign ("-0.0".startsWith "-") ++ "0") = _
  rw [hneg]
  rfl

def debtMessage : List (String × Json) :=
  [("key", .arr [.str "k"]), ("after", .obj [("debt", .float "-0.0")])]

def debtText : String := "\x7b\"key\":[\"k\"],\"after\":\x7b\"debt\":-0.0\x7d\x7d"

theorem reads_debt : Json.Reads (.obj [("key".toList, .arr [.str ['k']]),
    ("after".toList, .obj [("debt".toList, .number minusZero.text)])]) debtText.toList := by
  have hkey : Json.Reads (.arr [.str ['k']]) "[\"k\"]".toList := by
    have hitems : ∀ p ∈ [(Json.Tree.str ['k'], "\"k\"")], Json.Reads p.1 p.2.toList :=
      List.forall_mem_singleton.mpr (reads_encodeString "k")
    have hread := reads_arr hitems
    exact hread
  have hdebt : Json.Reads (.obj [("debt".toList, .number minusZero.text)]) "\x7b\"debt\":-0.0\x7d".toList := by
    have hmembers : ∀ x ∈ [("debt", Json.Tree.number minusZero.text, "-0.0")],
        Json.Reads x.2.1 x.2.2.toList := List.forall_mem_singleton.mpr minusZero.reads
    have hread := reads_obj_kept hmembers
    exact hread
  have hmembers : ∀ x ∈ [("key", Json.Tree.arr [.str ['k']], "[\"k\"]"),
      ("after", .obj [("debt".toList, .number minusZero.text)], "\x7b\"debt\":-0.0\x7d")],
      Json.Reads x.2.1 x.2.2.toList :=
    List.forall_mem_cons.mpr ⟨hkey, List.forall_mem_singleton.mpr hdebt⟩
  have hread := reads_obj_kept hmembers
  exact hread

/-- The first text of the event has `-0` in it, and the second one `0`. -/
theorem not_reencodes_debt : (singleDouble "-0.0").Lawful ∧
    ∃ e, fromMessage (singleDouble "-0.0") (utf8 debtText.toList) 0 = .ok e ∧
      ¬ Reencodes (singleDouble "-0.0") e 0 := by
  have hpy : (singleDouble "-0.0").Lawful :=
    lawful_singleDouble ⟨minusZero, rfl⟩ fun _ => Or.inr rfl
  have hloads : loads (singleDouble "-0.0") (utf8 debtText.toList) = some (.obj debtMessage) := by
    rw [loads, hpy.text_utf8 _ _ reads_debt, Option.bind_some, reads_debt.parse]
    rfl
  have hfields : Printed (.obj [("debt", .float "-0.0")]) :=
    ⟨trivial, fun _ => ⟨minusZero, rfl⟩, trivial⟩
  have htext : marshalWith false (.obj [("debt", .float "-0.0")]) = .ok "\x7b\"debt\":-0\x7d" := by
    rw [marshalWith, marshalFieldsWith, marshalWith, formatJson_minusZero]
    rfl
  have hafter : rawField debtMessage "after" = .ok (some "\x7b\"debt\":-0\x7d") := by
    have hlookup : debtMessage.lookup "after" = some (.obj [("debt", .float "-0.0")]) := rfl
    rw [rawField, hlookup]
    dsimp only
    rw [htext]
  have hobject : ∃ object, getObject (singleDouble "-0.0")
      (event debtMessage none (some "\x7b\"debt\":-0\x7d") 0) = .ok (some object) :=
    exists_getObject hfields htext rfl
  obtain ⟨object, hobject⟩ := hobject
  have haccepts : Accepts (singleDouble "-0.0") debtMessage none (some "\x7b\"debt\":-0\x7d") 0 :=
    ⟨⟨_, .str "k", hobject, rfl, rfl⟩, rfl, hafter, rfl⟩
  refine ⟨hpy, _, fromMessage_ok_iff.mpr ⟨_, _, _, _, hloads, haccepts, rfl⟩, fun hreencodes => ?_⟩
  have hsignless := (stable_of_reencodes hpy hloads haccepts hreencodes).signless "after" (by decide)
    (.obj [("debt", .float "-0.0")]) ⟨rfl, by decide⟩
  have hprinted : printed (.float "-0.0") := fun _ => ⟨minusZero, rfl⟩
  have hzero : floatText "-0.0" = ['-', '0'] := by
    rw [floatText, formatJson_minusZero]
    rfl
  have hnegative := (floatText_eq_minus_zero hprinted (by decide)).mp hzero
  exact Bool.false_ne_true (hsignless.2.1.symm.trans hnegative)

end Dbchange
end Eds
