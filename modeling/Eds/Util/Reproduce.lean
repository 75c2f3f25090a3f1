import Eds.Collections.Traverse
import Eds.Util.Numbers

/-!
# Values, read back

A tree reproduces a value if it is of the same shape and its numbers are worth the value's
numbers.  Every finite value is written as a text that is read as such a tree, with its fields
in the order of the keys; a value that is not finite has no text.
-/

namespace Eds
namespace Util

open Collections Lexing.Json

mutual

/-- The tree is the value, with the fields of each object in some order. -/
def Reproduces : Json → Tree → Prop
  | .null, t => t = .null
  | .bool b, t => t = .bool b
  | .int n, t => ∃ w, t = .number w ∧ Writes n w
  | .float text, t =>
    ∃ w, t = .number w ∧ ∃ x : NumberText, text = String.ofList x.text ∧ Writes x.value w
  | .str s, t => t = .str s.toList
  | .arr vs, t => ∃ ts, t = .arr ts ∧ ReproducesItems vs ts
  | .obj fields, t => ∃ ms ms', t = .obj ms ∧ ms.Perm ms' ∧ ReproducesFields fields ms'

def ReproducesItems : List Json → List Tree → Prop
  | [], ts => ts = []
  | v :: rest, ts => ∃ t ts', ts = t :: ts' ∧ Reproduces v t ∧ ReproducesItems rest ts'

def ReproducesFields : List (String × Json) → List (List Char × Tree) → Prop
  | [], ms => ms = []
  | (name, v) :: rest, ms =>
    ∃ t ms', ms = (name.toList, t) :: ms' ∧ Reproduces v t ∧ ReproducesFields rest ms'

end

section

variable (leaf : Json → Prop) (key : String → Prop)

mutual

/-- Every key in the value and every value in it that is neither a list nor an object. -/
def Each : Json → Prop
  | .arr vs => EachItem vs
  | .obj fields => EachField fields
  | v => leaf v

def EachItem : List Json → Prop
  | [] => True
  | v :: rest => Each v ∧ EachItem rest

def EachField : List (String × Json) → Prop
  | [] => True
  | (name, v) :: rest => key name ∧ Each v ∧ EachField rest

end

end

def finite : Json → Prop
  | .float text => isFinite text = true
  | _ => True

/-- A finite double is known by the text of a number. -/
def printed : Json → Prop
  | .float text => isFinite text = true → ∃ x : NumberText, text = String.ofList x.text
  | _ => True

def unquoted : Json → Prop
  | .str _ => False
  | _ => True

def Finite (v : Json) : Prop := Each finite (fun _ => True) v

def Printed (v : Json) : Prop := Each printed (fun _ => True) v

/-- There is no string in it, and no key. -/
def Unquoted (v : Json) : Prop := Each unquoted (fun _ => False) v

theorem reads_float {text : String} (hprinted : printed (.float text)) (hfinite : isFinite text = true) :
    ∃ out t, formatJson text = .ok out ∧ Reads t out.toList ∧ Reproduces (.float text) t := by
  obtain ⟨x, rfl⟩ := hprinted hfinite
  obtain ⟨out, hout, hwrites⟩ := writes_formatJson hfinite
  exact ⟨out, _, hout, hwrites.reads, _, rfl, x, rfl, hwrites⟩

theorem reads_encodeString (s : String) : Reads (.str s.toList) (encodeString s).toList := by
  rw [toList_encodeString]
  exact (readsString_escaped s).reads

theorem reads_arr {parts : List (Tree × String)} (h : ∀ p ∈ parts, Reads p.1 p.2.toList) :
    Reads (.arr (parts.map Prod.fst)) ("[" ++ commas (parts.map Prod.snd) ++ "]").toList := by
  have hparts : ∀ p ∈ parts.map fun p => (p.1, p.2.toList), Reads p.1 p.2 :=
    List.forall_mem_map.mpr h
  have harr := Reads.arr hparts
  rw [List.map_map, List.map_map] at harr
  rw [String.toList_append, String.toList_append, toList_commas, List.map_map]
  exact harr

/-- The fields are written in the order of their keys. -/
theorem reads_obj {members : List (String × Tree × String)}
    (h : ∀ m ∈ members, Reads m.2.1 m.2.2.toList) :
    Reads (.obj ((byKey members).map fun m => (m.1.toList, m.2.1)))
      ("\x7b" ++ commas ((byKey (members.map fun m => (m.1, m.2.2))).map fun p =>
        writtenField p.1 p.2) ++ "\x7d").toList := by
  have hmembers : ∀ m ∈ (byKey members).map fun m => member m.1 m.2.1 m.2.2, m.Reads := by
    rw [List.forall_mem_map]
    exact fun m hm => member_reads m.1 (h m ((byKey_perm members).mem_iff.mp hm))
  have hobj := Reads.obj hmembers
  have htexts : ((byKey members).map fun m => member m.1 m.2.1 m.2.2).map Member.written =
      ((byKey members).map fun m => writtenField m.1 m.2.2).map String.toList := by
    rw [List.map_map, List.map_map]
    exact List.map_congr_left fun m _ => member_written m.1 m.2.1 m.2.2
  rw [htexts, List.map_map, List.map_map] at hobj
  rw [String.toList_append, String.toList_append, toList_commas, byKey_map Prod.snd, List.map_map,
    List.map_map]
  exact hobj

mutual

/-- A finite value has a text, and the text is read as the value. -/
theorem reads_marshal : ∀ v, Printed v → Finite v →
    ∃ text t, marshal v = .ok text ∧ Reads t text.toList ∧ Reproduces v t
  | .null, _, _ => ⟨_, _, rfl, reads_null, rfl⟩
  | .bool true, _, _ => ⟨_, _, rfl, reads_true, rfl⟩
  | .bool false, _, _ => ⟨_, _, rfl, reads_false, rfl⟩
  | .int n, _, _ => ⟨_, _, rfl, (writes_toString n).reads, _, rfl, writes_toString n⟩
  | .float _, hprinted, hfinite => reads_float hprinted hfinite
  | .str s, _, _ => ⟨_, _, rfl, reads_encodeString s, rfl⟩
  | .arr vs, hprinted, hfinite => by
    obtain ⟨parts, hmarshal, hreads, hitems⟩ := reads_marshalItems vs hprinted hfinite
    exact ⟨_, _, marshalWith_arr hmarshal, reads_arr hreads, parts.map Prod.fst, rfl, hitems⟩
  | .obj fields, hprinted, hfinite => by
    obtain ⟨members, hmarshal, hreads, hfields⟩ := reads_marshalFields fields hprinted hfinite
    have hperm := (byKey_perm members).map fun m => (m.1.toList, m.2.1)
    exact ⟨_, _, marshalWith_obj hmarshal, reads_obj hreads, _, _, rfl, hperm, hfields⟩

theorem reads_marshalItems : ∀ vs, EachItem printed (fun _ => True) vs →
    EachItem finite (fun _ => True) vs →
    ∃ parts : List (Tree × String), marshalItemsWith true vs = .ok (parts.map Prod.snd) ∧
      (∀ p ∈ parts, Reads p.1 p.2.toList) ∧ ReproducesItems vs (parts.map Prod.fst)
  | [], _, _ => ⟨[], rfl, nofun, rfl⟩
  | v :: rest, hprinted, hfinite => by
    obtain ⟨text, t, (hmarshal : marshalWith true v = .ok text), hreads, hvalue⟩ :=
      reads_marshal v hprinted.1 hfinite.1
    obtain ⟨parts, hrest, hparts, hitems⟩ := reads_marshalItems rest hprinted.2 hfinite.2
    refine ⟨(t, text) :: parts, ?_, ?_, ?_⟩
    · rw [marshalItemsWith, hmarshal, hrest]
      rfl
    · rw [List.forall_mem_cons]
      exact ⟨hreads, hparts⟩
    · exact ⟨t, _, rfl, hvalue, hitems⟩

theorem reads_marshalFields : ∀ fields, EachField printed (fun _ => True) fields →
    EachField finite (fun _ => True) fields →
    ∃ members : List (String × Tree × String),
      marshalFieldsWith true fields = .ok (members.map fun m => (m.1, m.2.2)) ∧
      (∀ m ∈ members, Reads m.2.1 m.2.2.toList) ∧
      ReproducesFields fields (members.map fun m => (m.1.toList, m.2.1))
  | [], _, _ => ⟨[], rfl, nofun, rfl⟩
  | (name, v) :: rest, hprinted, hfinite => by
    obtain ⟨text, t, (hmarshal : marshalWith true v = .ok text), hreads, hvalue⟩ :=
      reads_marshal v hprinted.2.1 hfinite.2.1
    obtain ⟨members, hrest, hmembers, hfields⟩ := reads_marshalFields rest hprinted.2.2 hfinite.2.2
    refine ⟨(name, t, text) :: members, ?_, ?_, ?_⟩
    · rw [marshalFieldsWith, hmarshal, hrest]
      rfl
    · rw [List.forall_mem_cons]
      exact ⟨hreads, hmembers⟩
    · exact ⟨t, _, rfl, hvalue, hfields⟩

end

/-! ## Values without a text -/

theorem marshalWith_arr_ok {sort : Bool} {vs : List Json} {text : String}
    (h : marshalWith sort (.arr vs) = .ok text) :
    ∃ parts, marshalItemsWith sort vs = .ok parts ∧ text = "[" ++ commas parts ++ "]" := by
  rw [marshalWith] at h
  cases hparts : marshalItemsWith sort vs with
  | error e =>
    rw [hparts] at h
    cases h
  | ok parts =>
    rw [hparts] at h
    cases h
    exact ⟨parts, rfl, rfl⟩

theorem marshalWith_obj_ok {sort : Bool} {fields : List (String × Json)} {text : String}
    (h : marshalWith sort (.obj fields) = .ok text) :
    ∃ parts, marshalFieldsWith sort fields = .ok parts ∧ text =
      "\x7b" ++ commas ((keyOrder sort parts).map fun p => writtenField p.1 p.2) ++ "\x7d" := by
  rw [marshalWith] at h
  cases hparts : marshalFieldsWith sort fields with
  | error e =>
    rw [hparts] at h
    cases h
  | ok parts =>
    rw [hparts] at h
    cases h
    exact ⟨parts, rfl, rfl⟩

theorem marshalItemsWith_cons_ok {sort : Bool} {v : Json} {rest : List Json} {parts : List String}
    (h : marshalItemsWith sort (v :: rest) = .ok parts) :
    ∃ text texts, marshalWith sort v = .ok text ∧ marshalItemsWith sort rest = .ok texts ∧
      parts = text :: texts := by
  rw [marshalItemsWith] at h
  obtain ⟨text, hv, h⟩ := bind_eq_ok.mp h
  obtain ⟨texts, hrest, h⟩ := bind_eq_ok.mp h
  cases h
  exact ⟨text, texts, hv, hrest, rfl⟩

theorem marshalFieldsWith_cons_ok {sort : Bool} {name : String} {v : Json}
    {rest : List (String × Json)} {parts : List (String × String)}
    (h : marshalFieldsWith sort ((name, v) :: rest) = .ok parts) :
    ∃ text texts, marshalWith sort v = .ok text ∧ marshalFieldsWith sort rest = .ok texts ∧
      parts = (name, text) :: texts := by
  rw [marshalFieldsWith] at h
  obtain ⟨text, hv, h⟩ := bind_eq_ok.mp h
  obtain ⟨texts, hrest, h⟩ := bind_eq_ok.mp h
  cases h
  exact ⟨text, texts, hv, hrest, rfl⟩

theorem finite_of_formatJson {text out : String} (h : formatJson text = .ok out) :
    finite (.float text) := by
  rw [formatJson] at h
  split at h
  · next hfinite => exact hfinite
  · cases h

mutual

/-- What is not finite has no text, whatever the order of the keys. -/
theorem finite_of_marshalWith (sort : Bool) : ∀ v text, marshalWith sort v = .ok text → Finite v
  | .null, _, _ => trivial
  | .bool _, _, _ => trivial
  | .int _, _, _ => trivial
  | .float _, _, h => finite_of_formatJson h
  | .str _, _, _ => trivial
  | .arr vs, _, h =>
    have ⟨_, hparts, _⟩ := marshalWith_arr_ok h
    finite_of_marshalItemsWith sort vs _ hparts
  | .obj fields, _, h =>
    have ⟨_, hparts, _⟩ := marshalWith_obj_ok h
    finite_of_marshalFieldsWith sort fields _ hparts

theorem finite_of_marshalItemsWith (sort : Bool) : ∀ vs parts, marshalItemsWith sort vs = .ok parts →
    EachItem finite (fun _ => True) vs
  | [], _, _ => trivial
  | v :: rest, _, h =>
    have ⟨_, _, hv, hrest, _⟩ := marshalItemsWith_cons_ok h
    ⟨finite_of_marshalWith sort v _ hv, finite_of_marshalItemsWith sort rest _ hrest⟩

theorem finite_of_marshalFieldsWith (sort : Bool) : ∀ fields parts,
    marshalFieldsWith sort fields = .ok parts → EachField finite (fun _ => True) fields
  | [], _, _ => trivial
  | (_, v) :: rest, _, h =>
    have ⟨_, _, hv, hrest, _⟩ := marshalFieldsWith_cons_ok h
    ⟨trivial, finite_of_marshalWith sort v _ hv, finite_of_marshalFieldsWith sort rest _ hrest⟩

end

/-! ## Texts without a quote -/

theorem mem_joined {p : List Char} {parts : List (List Char)} (hp : p ∈ parts) {c : Char} (hc : c ∈ p) :
    c ∈ joined parts := by
  induction parts with
  | nil => cases hp
  | cons q parts ih =>
    cases parts with
    | nil =>
      rw [joined_singleton]
      rw [List.mem_singleton.mp hp] at hc
      exact hc
    | cons r parts =>
      rw [joined_cons_cons]
      rcases List.mem_cons.mp hp with rfl | hp
      · exact List.mem_append_left _ hc
      · exact List.mem_append_right _ (List.mem_cons_of_mem _ (ih hp))

theorem mem_of_mem_joined {parts : List (List Char)} {c : Char} (hc : c ∈ joined parts) :
    c = ',' ∨ ∃ p ∈ parts, c ∈ p := by
  induction parts with
  | nil => cases hc
  | cons q parts ih =>
    cases parts with
    | nil =>
      rw [joined_singleton] at hc
      exact Or.inr ⟨q, List.mem_cons_self, hc⟩
    | cons r parts =>
      rw [joined_cons_cons] at hc
      rcases List.mem_append.mp hc with hc | hc
      · exact Or.inr ⟨q, List.mem_cons_self, hc⟩
      rcases List.mem_cons.mp hc with rfl | hc
      · exact Or.inl rfl
      rcases ih hc with hcomma | ⟨p, hp, hc⟩
      · exact Or.inl hcomma
      · exact Or.inr ⟨p, List.mem_cons_of_mem _ hp, hc⟩

theorem mem_enclosed {l r body : String} {c : Char} :
    c ∈ (l ++ body ++ r).toList ↔ c ∈ l.toList ∨ c ∈ body.toList ∨ c ∈ r.toList := by
  rw [String.toList_append, String.toList_append, List.mem_append, List.mem_append, or_assoc]

theorem mem_commas {parts : List String} {c : Char} {p : String} (hp : p ∈ parts) (hc : c ∈ p.toList) :
    c ∈ (commas parts).toList := by
  rw [toList_commas]
  exact mem_joined (List.mem_map_of_mem hp) hc

theorem quote_mem_writtenField (key text : String) : '"' ∈ (writtenField key text).toList := by
  rw [writtenField, String.toList_append, String.toList_append, toList_encodeString]
  exact List.mem_append_left _ (List.mem_append_left _ List.mem_cons_self)

/-- A key is written in quotes. -/
theorem quote_mem_obj {f : String × Json} {rest : List (String × Json)} {text : String}
    (h : marshalWith true (.obj (f :: rest)) = .ok text) : '"' ∈ text.toList := by
  obtain ⟨parts, hparts, htext⟩ := marshalWith_obj_ok h
  obtain ⟨name, v⟩ := f
  obtain ⟨part, parts', -, -, hcons⟩ := marshalFieldsWith_cons_ok hparts
  have hmem : (name, part) ∈ byKey parts := by
    rw [(byKey_perm parts).mem_iff, hcons]
    exact List.mem_cons_self
  rw [htext, mem_enclosed]
  exact Or.inr (Or.inl (mem_commas (List.mem_map_of_mem hmem) (quote_mem_writtenField name part)))

mutual

theorem unquoted_of_marshal : ∀ v text, marshalWith true v = .ok text → '"' ∉ text.toList → Unquoted v
  | .null, _, _, _ => trivial
  | .bool _, _, _, _ => trivial
  | .int _, _, _, _ => trivial
  | .float _, _, _, _ => trivial
  | .str s, _, h, hquote => by
    cases h
    rw [toList_encodeString] at hquote
    exact absurd List.mem_cons_self hquote
  | .arr vs, _, h, hquote => by
    obtain ⟨parts, hparts, rfl⟩ := marshalWith_arr_ok h
    exact unquoted_of_marshalItems vs parts hparts fun p hp hc =>
      hquote (mem_enclosed.mpr (Or.inr (Or.inl (mem_commas hp hc))))
  | .obj [], _, _, _ => trivial
  | .obj (_ :: _), _, h, hquote => absurd (quote_mem_obj h) hquote

theorem unquoted_of_marshalItems : ∀ vs parts, marshalItemsWith true vs = .ok parts →
    (∀ p ∈ parts, '"' ∉ p.toList) → EachItem unquoted (fun _ => False) vs
  | [], _, _, _ => trivial
  | v :: rest, _, h, hquote => by
    obtain ⟨text, texts, hv, hrest, rfl⟩ := marshalItemsWith_cons_ok h
    rw [List.forall_mem_cons] at hquote
    exact ⟨unquoted_of_marshal v text hv hquote.1, unquoted_of_marshalItems rest texts hrest hquote.2⟩

end

/-- The characters of a value without strings and keys. -/
def isUnquotedChar (c : Char) : Bool :=
  isNumberChar c ||
    ['n', 'u', 'l', 't', 'r', 'e', 'f', 'a', 's', '[', ']', '\x7b', '\x7d', ','].contains c

theorem Writes.unquotedChars {q : ℚ} {w : List Char} (h : Writes q w) : ∀ c ∈ w, isUnquotedChar c = true := by
  intro c hc
  rw [isUnquotedChar, h.numberChars c hc, Bool.true_or]

mutual

theorem unquotedChars_marshal : ∀ v text, marshalWith true v = .ok text → Printed v → Unquoted v →
    ∀ c ∈ text.toList, isUnquotedChar c = true
  | .null, _, h, _, _ => by
    cases h
    exact List.all_eq_true.mp rfl
  | .bool b, _, h, _, _ => by
    cases h
    cases b <;> exact List.all_eq_true.mp rfl
  | .int n, _, h, _, _ => by
    cases h
    exact (writes_toString n).unquotedChars
  | .float _, _, h, hprinted, _ => by
    have hfinite := finite_of_formatJson h
    obtain ⟨x, rfl⟩ := hprinted hfinite
    obtain ⟨out, hout, hwrites⟩ := writes_formatJson hfinite
    rw [show formatJson _ = .ok _ from h] at hout
    cases hout
    exact hwrites.unquotedChars
  | .arr vs, _, h, hprinted, hunquoted => by
    obtain ⟨parts, hparts, rfl⟩ := marshalWith_arr_ok h
    intro c hc
    rcases mem_enclosed.mp hc with hc | hc | hc
    · rw [List.mem_singleton.mp hc]
      rfl
    · rw [toList_commas] at hc
      rcases mem_of_mem_joined hc with rfl | ⟨w, hw, hc⟩
      · rfl
      · obtain ⟨p, hp, rfl⟩ := List.mem_map.mp hw
        exact unquotedChars_marshalItems vs parts hparts hprinted hunquoted p hp c hc
    · rw [List.mem_singleton.mp hc]
      rfl
  | .obj [], _, h, _, _ => by
    obtain ⟨parts, hparts, rfl⟩ := marshalWith_obj_ok h
    cases hparts
    rw [keyOrder, if_pos rfl, byKey, List.mergeSort_nil]
    exact List.all_eq_true.mp rfl
  | .obj (_ :: _), _, _, _, hunquoted => absurd hunquoted.1 not_false

theorem unquotedChars_marshalItems : ∀ vs parts, marshalItemsWith true vs = .ok parts →
    EachItem printed (fun _ => True) vs → EachItem unquoted (fun _ => False) vs →
    ∀ p ∈ parts, ∀ c ∈ p.toList, isUnquotedChar c = true
  | [], _, h, _, _ => by
    cases h
    exact nofun
  | v :: rest, _, h, hprinted, hunquoted => by
    obtain ⟨text, texts, hv, hrest, rfl⟩ := marshalItemsWith_cons_ok h
    rw [List.forall_mem_cons]
    exact ⟨unquotedChars_marshal v text hv hprinted.1 hunquoted.1,
      unquotedChars_marshalItems rest texts hrest hprinted.2 hunquoted.2⟩

end

end Util
end Eds
