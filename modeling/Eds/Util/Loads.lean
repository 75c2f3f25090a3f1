import Eds.Lexing.Json
import Eds.Util.Gojson

/-!
# JSON texts, read back

`loads` reads a text as `json.loads` does: of two fields with one key the last one counts,
and a number is an integer or a double by the way it is written.  `Denotes` says that a text,
put into another one, is read as a value there, and the rules follow the way values are
written.
-/

namespace Eds
namespace Util

open Collections Lexing.Json

section

variable (repr : List Char → String)

def isIntegral (w : List Char) : Bool := w.all fun c => isDigit c || c == '-'

mutual

/-- `repr` is the shortest text of the double that a text is read as. -/
def ofTree : Tree → Json
  | .null => .null
  | .bool b => .bool b
  | .number w => if isIntegral w then .int (readInt w) else .float (repr w)
  | .str s => .str (String.ofList s)
  | .arr items => .arr (ofItems items)
  | .obj fields => .obj (Dict.ofList (ofFields fields)).items

def ofItems : List Tree → List Json
  | [] => []
  | t :: rest => ofTree t :: ofItems rest

def ofFields : List (List Char × Tree) → List (String × Json)
  | [] => []
  | (key, t) :: rest => (String.ofList key, ofTree t) :: ofFields rest

end

def loads (text : String) : Option Json := (parse text.toList).map (ofTree repr)

theorem ofItems_eq_map (items : List Tree) : ofItems repr items = items.map (ofTree repr) := by
  induction items with
  | nil => rfl
  | cons t rest ih => rw [ofItems, ih, List.map_cons]

theorem ofFields_eq_map (fields : List (List Char × Tree)) :
    ofFields repr fields = fields.map fun f => (String.ofList f.1, ofTree repr f.2) := by
  induction fields with
  | nil => rfl
  | cons f rest ih =>
    obtain ⟨key, t⟩ := f
    rw [ofFields, ih, List.map_cons]

/-- The text is read as the value wherever it stands. -/
def Denotes (v : Json) (text : String) : Prop :=
  ∃ t, Reads t text.toList ∧ ofTree repr t = v

end

variable {repr : List Char → String}

theorem Denotes.loads {v : Json} {text : String} (h : Denotes repr v text) :
    loads repr text = some v := by
  obtain ⟨t, ht, rfl⟩ := h
  rw [Util.loads, ht.parse, Option.map_some]

/-! ## Strings -/

def hexText : List Char → Option Nat
  | [a, b, c, d] => hex4 a b c d
  | _ => none

/-- The characters that are written with their number. -/
def isNumbered (n : Nat) : Prop :=
  n < 0x20 ∨ n = 0x3C ∨ n = 0x3E ∨ n = 0x26 ∨ n = 0x2028 ∨ n = 0x2029

theorem hexText_hexDigits {n : Nat} (h : isNumbered n) :
    hexText (hexDigits n).toList = some n ∧ isHigh n = false ∧ isLow n = false := by
  have hsmall : ∀ n < 0x20, hexText (hexDigits n).toList = some n ∧ isHigh n = false ∧
      isLow n = false := by decide
  rcases h with h | rfl | rfl | rfl | rfl | rfl
  · exact hsmall n h
  all_goals decide

theorem exists_hexDigits {n : Nat} (h : isNumbered n) :
    ∃ a b c d, (hexDigits n).toList = [a, b, c, d] ∧ hex4 a b c d = some n := by
  obtain ⟨htext, -, -⟩ := hexText_hexDigits h
  generalize (hexDigits n).toList = digits at htext
  match digits with
  | [] | [_] | [_, _] | [_, _, _] | _ :: _ :: _ :: _ :: _ :: _ => cases htext
  | [a, b, c, d] => exact ⟨a, b, c, d, rfl, htext⟩

/-- How a character is written in a string: with a letter, with its number, or as it is. -/
theorem escapeChar_cases (c : Char) :
    (∃ e, (escapeChar c).toList = ['\\', e] ∧ unescape e = some c) ∨
    (∃ a b d e, (escapeChar c).toList = ['\\', 'u', a, b, d, e] ∧ hex4 a b d e = some c.toNat ∧
      isNumbered c.toNat) ∨
    ((escapeChar c).toList = [c] ∧ c ≠ '"' ∧ c ≠ '\\' ∧ ¬ isNumbered c.toNat) := by
  unfold escapeChar
  split
  · next h =>
    rw [h]
    exact Or.inl ⟨'"', rfl, rfl⟩
  split
  · next h =>
    rw [h]
    exact Or.inl ⟨'\\', rfl, rfl⟩
  split
  · next h =>
    rw [h]
    exact Or.inl ⟨'n', rfl, rfl⟩
  split
  · next h =>
    rw [h]
    exact Or.inl ⟨'r', rfl, rfl⟩
  split
  · next h =>
    rw [h]
    exact Or.inl ⟨'t', rfl, rfl⟩
  split
  · next h =>
    have hnumbered : isNumbered c.toNat := by
      rcases h with h | rfl | rfl | rfl | h | h
      · exact Or.inl h
      · exact Or.inr (Or.inl rfl)
      · exact Or.inr (Or.inr (Or.inl rfl))
      · exact Or.inr (Or.inr (Or.inr (Or.inl rfl)))
      · exact Or.inr (Or.inr (Or.inr (Or.inr (Or.inl h))))
      · exact Or.inr (Or.inr (Or.inr (Or.inr (Or.inr h))))
    obtain ⟨a, b, d, e, hdigits, hhex⟩ := exists_hexDigits hnumbered
    refine Or.inr (Or.inl ⟨a, b, d, e, ?_, hhex, hnumbered⟩)
    rw [String.toList_append, hdigits]
    rfl
  · next hquote hslash _ _ _ hother =>
    refine Or.inr (Or.inr ⟨String.toList_ofList, hquote, hslash, fun hnumbered => hother ?_⟩)
    rcases hnumbered with h | h | h | h | h | h
    · exact Or.inl h
    · exact Or.inr (Or.inl (Char.toNat_inj.mp h))
    · exact Or.inr (Or.inr (Or.inl (Char.toNat_inj.mp h)))
    · exact Or.inr (Or.inr (Or.inr (Or.inl (Char.toNat_inj.mp h))))
    · exact Or.inr (Or.inr (Or.inr (Or.inr (Or.inl h))))
    · exact Or.inr (Or.inr (Or.inr (Or.inr (Or.inr h))))

theorem readsChar_escapeChar (c : Char) : ReadsChar c (escapeChar c).toList := by
  rcases escapeChar_cases c with ⟨e, htext, he⟩ | ⟨a, b, d, e, htext, hhex, hnumbered⟩ |
    ⟨htext, hquote, hslash, hplain⟩
  · rw [htext]
    exact ReadsChar.escape he
  · obtain ⟨-, hhigh, hlow⟩ := hexText_hexDigits hnumbered
    have hread := ReadsChar.unicode hhex hhigh hlow
    rw [Char.ofNat_toNat] at hread
    rw [htext]
    exact hread
  · rw [htext]
    exact ReadsChar.plain hquote hslash (Nat.le_of_not_lt fun hlow => hplain (Or.inl hlow))

theorem toList_encodeString (s : String) :
    (encodeString s).toList =
      '"' :: ((s.toList.flatMap fun c => (escapeChar c).toList) ++ ['"']) := by
  rw [encodeString, String.toList_append, String.toList_append, String.toList_join,
    List.flatMap_map]
  rfl

theorem readsString_escaped (s : String) :
    ReadsString s.toList (s.toList.flatMap fun c => (escapeChar c).toList) :=
  readsString_flatMap fun c _ => readsChar_escapeChar c

theorem denotes_str (s : String) : Denotes repr (.str s) (encodeString s) := by
  refine ⟨.str s.toList, ?_, congrArg Json.str String.ofList_toList⟩
  rw [toList_encodeString]
  exact (readsString_escaped s).reads

/-- A text that needs no escape. -/
def Clean (s : String) : Prop := ∀ c ∈ s.toList, escapeChar c = String.ofList [c]

instance (s : String) : Decidable (Clean s) :=
  List.decidableBAll (fun c => escapeChar c = String.ofList [c]) s.toList

theorem encodeString_clean {s : String} (h : Clean s) : encodeString s = "\"" ++ s ++ "\"" := by
  have hchars : (s.toList.flatMap fun c => (escapeChar c).toList) = s.toList.flatMap fun c => [c] :=
    List.flatMap_congr fun c hc => by rw [h c hc, String.toList_ofList]
  rw [← String.toList_inj, toList_encodeString, hchars, List.flatMap_singleton']
  simp [String.toList_append]

/-! ## Other values -/

theorem denotes_null : Denotes repr .null "null" := ⟨.null, reads_null, rfl⟩

theorem denotes_bool (b : Bool) : Denotes repr (.bool b) (if b then "true" else "false") := by
  cases b with
  | true => exact ⟨.bool true, reads_true, rfl⟩
  | false => exact ⟨.bool false, reads_false, rfl⟩

theorem toList_commas (parts : List String) :
    (commas parts).toList = joined (parts.map String.toList) := by
  rw [commas, String.toList_intercalate]
  rfl

theorem Denotes.arr {parts : List (Json × String)} (h : ∀ p ∈ parts, Denotes repr p.1 p.2) :
    Denotes repr (.arr (parts.map Prod.fst)) ("[" ++ commas (parts.map Prod.snd) ++ "]") := by
  have htrees : ∃ trees : List (Tree × List Char), (∀ p ∈ trees, Reads p.1 p.2) ∧
      trees.map Prod.snd = parts.map (fun p => p.2.toList) ∧
      trees.map (fun p => ofTree repr p.1) = parts.map Prod.fst := by
    induction parts with
    | nil => exact ⟨[], fun _ hp => absurd hp List.not_mem_nil, rfl, rfl⟩
    | cons p parts ih =>
      obtain ⟨t, ht, htree⟩ := h p List.mem_cons_self
      obtain ⟨trees, hreads, htexts, hvalues⟩ := ih fun q hq => h q (List.mem_cons_of_mem _ hq)
      refine ⟨(t, p.2.toList) :: trees, fun q hq => ?_, ?_, ?_⟩
      · rcases List.mem_cons.mp hq with rfl | hq
        · exact ht
        · exact hreads q hq
      · rw [List.map_cons, List.map_cons, htexts]
      · rw [List.map_cons, List.map_cons, htree, hvalues]
  obtain ⟨trees, hreads, htexts, hvalues⟩ := htrees
  refine ⟨.arr (trees.map Prod.fst), ?_, ?_⟩
  · have harr := Reads.arr hreads
    rw [htexts] at harr
    rw [String.toList_append, String.toList_append, toList_commas, List.map_map]
    exact harr
  · rw [ofTree, ofItems_eq_map, List.map_map, ← hvalues]
    rfl

def member (key : String) (t : Tree) (text : String) : Member :=
  ⟨key.toList, key.toList.flatMap fun c => (escapeChar c).toList, t, text.toList⟩

theorem member_reads {t : Tree} {text : String} (key : String) (h : Reads t text.toList) :
    (member key t text).Reads := ⟨readsString_escaped key, h⟩

theorem member_written (key : String) (t : Tree) (text : String) :
    (member key t text).written = (writtenField key text).toList := by
  rw [writtenField, String.toList_append, String.toList_append, toList_encodeString, member,
    Member.written]
  simp

theorem Denotes.obj {members : List (String × Json × String)}
    (hkeys : (members.map Prod.fst).Nodup) (h : ∀ m ∈ members, Denotes repr m.2.1 m.2.2) :
    Denotes repr (.obj (members.map fun m => (m.1, m.2.1)))
      ("\x7b" ++ commas (members.map fun m => writtenField m.1 m.2.2) ++ "\x7d") := by
  have htrees : ∃ trees : List Member, (∀ m ∈ trees, m.Reads) ∧
      trees.map Member.written = members.map (fun m => (writtenField m.1 m.2.2).toList) ∧
      trees.map (fun m => (String.ofList m.key, ofTree repr m.value)) =
        members.map fun m => (m.1, m.2.1) := by
    clear hkeys
    induction members with
    | nil => exact ⟨[], fun _ hm => absurd hm List.not_mem_nil, rfl, rfl⟩
    | cons m members ih =>
      obtain ⟨t, ht, htree⟩ := h m List.mem_cons_self
      obtain ⟨trees, hreads, htexts, hvalues⟩ := ih fun q hq => h q (List.mem_cons_of_mem _ hq)
      refine ⟨member m.1 t m.2.2 :: trees, fun q hq => ?_, ?_, ?_⟩
      · rcases List.mem_cons.mp hq with rfl | hq
        · exact member_reads m.1 ht
        · exact hreads q hq
      · rw [List.map_cons, List.map_cons, htexts, member_written]
      · rw [List.map_cons, List.map_cons, hvalues]
        show (String.ofList m.1.toList, ofTree repr t) :: _ = _
        rw [htree, String.ofList_toList]
  obtain ⟨trees, hreads, htexts, hvalues⟩ := htrees
  refine ⟨.obj (trees.map fun m => (m.key, m.value)), ?_, ?_⟩
  · have hobj := Reads.obj hreads
    rw [htexts] at hobj
    rw [String.toList_append, String.toList_append, toList_commas, List.map_map]
    exact hobj
  · have hnodup : ((members.map fun m => (m.1, m.2.1)).map Prod.fst).Nodup := by
      rw [List.map_map]
      exact hkeys
    rw [ofTree, ofFields_eq_map, List.map_map]
    show Json.obj (Dict.ofList (trees.map fun m => (String.ofList m.key, ofTree repr m.value))).items
      = _
    rw [hvalues, Dict.items_ofList hnodup]

/-! ## What is marshalled -/

theorem byKey_map {α β : Type} (f : α → β) (fields : List (String × α)) :
    byKey (fields.map fun p => (p.1, f p.2)) = (byKey fields).map fun p => (p.1, f p.2) := by
  refine (List.map_mergeSort ?_).symm
  exact fun _ _ _ _ => rfl

theorem byKey_perm {α : Type} (fields : List (String × α)) : (byKey fields).Perm fields :=
  List.mergeSort_perm fields _

/-- An object whose fields are written in the order of their keys. -/
theorem Denotes.sorted {members : List (String × Json × String)}
    (hkeys : (members.map Prod.fst).Nodup) (h : ∀ m ∈ members, Denotes repr m.2.1 m.2.2) :
    Denotes repr (.obj (byKey (members.map fun m => (m.1, m.2.1))))
      ("\x7b" ++ commas ((byKey (members.map fun m => (m.1, m.2.2))).map fun p =>
        writtenField p.1 p.2) ++ "\x7d") := by
  have hperm := byKey_perm members
  have hnodup : ((byKey members).map Prod.fst).Nodup := (hperm.map Prod.fst).nodup_iff.mpr hkeys
  have hobj := Denotes.obj hnodup fun m hm => h m (hperm.mem_iff.mp hm)
  rw [byKey_map Prod.fst, byKey_map Prod.snd, List.map_map]
  exact hobj

mutual

/-- The value with the fields of every object in the order of their keys. -/
def sortKeys : Json → Json
  | .arr vs => .arr (sortItems vs)
  | .obj fields => .obj (byKey (sortFields fields))
  | v => v

def sortItems : List Json → List Json
  | [] => []
  | v :: rest => sortKeys v :: sortItems rest

def sortFields : List (String × Json) → List (String × Json)
  | [] => []
  | (name, v) :: rest => (name, sortKeys v) :: sortFields rest

end

section

variable (repr)

mutual

/-- No object has a key twice, and every number is read back. -/
def Readable : Json → Prop
  | .int n => Denotes repr (.int n) (toString n)
  | .float text => ∃ out, formatJson text = .ok out ∧ Denotes repr (.float text) out
  | .arr vs => ReadableItems vs
  | .obj fields => (fields.map Prod.fst).Nodup ∧ ReadableFields fields
  | _ => True

def ReadableItems : List Json → Prop
  | [] => True
  | v :: rest => Readable v ∧ ReadableItems rest

def ReadableFields : List (String × Json) → Prop
  | [] => True
  | (_, v) :: rest => Readable v ∧ ReadableFields rest

end

end

theorem marshalWith_arr {sort : Bool} {vs : List Json} {parts : List String}
    (h : marshalItemsWith sort vs = .ok parts) :
    marshalWith sort (.arr vs) = .ok ("[" ++ commas parts ++ "]") := by
  rw [marshalWith, h]
  rfl

theorem marshalWith_obj {sort : Bool} {fields : List (String × Json)}
    {parts : List (String × String)} (h : marshalFieldsWith sort fields = .ok parts) :
    marshalWith sort (.obj fields) = .ok ("\x7b" ++
      commas ((keyOrder sort parts).map fun p => writtenField p.1 p.2) ++ "\x7d") := by
  rw [marshalWith, h]
  rfl

mutual

/-- What `marshal` writes is read as the value, with its keys sorted. -/
theorem denotes_marshal : ∀ v, Readable repr v →
    ∃ text, marshal v = .ok text ∧ Denotes repr (sortKeys v) text
  | .null, _ => ⟨_, rfl, denotes_null⟩
  | .bool b, _ => ⟨_, rfl, denotes_bool b⟩
  | .int _, h => ⟨_, rfl, h⟩
  | .float _, h => h
  | .str s, _ => ⟨_, rfl, denotes_str s⟩
  | .arr vs, h => by
    obtain ⟨parts, hmarshal, hvalues, hdenotes⟩ := denotes_marshalItems vs h
    refine ⟨_, marshalWith_arr hmarshal, ?_⟩
    rw [sortKeys, hvalues]
    exact Denotes.arr hdenotes
  | .obj fields, h => by
    obtain ⟨members, hmarshal, hvalues, hkeys, hdenotes⟩ := denotes_marshalFields fields h.2
    refine ⟨_, marshalWith_obj hmarshal, ?_⟩
    rw [sortKeys, hvalues]
    exact Denotes.sorted (hkeys ▸ h.1) hdenotes

theorem denotes_marshalItems : ∀ vs, ReadableItems repr vs →
    ∃ parts : List (Json × String), marshalItemsWith true vs = .ok (parts.map Prod.snd) ∧
      sortItems vs = parts.map Prod.fst ∧ ∀ p ∈ parts, Denotes repr p.1 p.2
  | [], _ => ⟨[], rfl, rfl, fun _ hp => absurd hp List.not_mem_nil⟩
  | v :: rest, h => by
    obtain ⟨text, (hmarshal : marshalWith true v = .ok text), hdenotes⟩ := denotes_marshal v h.1
    obtain ⟨parts, hrest, hvalues, hparts⟩ := denotes_marshalItems rest h.2
    refine ⟨(sortKeys v, text) :: parts, ?_, ?_, fun p hp => ?_⟩
    · rw [marshalItemsWith, hmarshal, hrest]
      rfl
    · rw [sortItems, hvalues, List.map_cons]
    · rcases List.mem_cons.mp hp with rfl | hp
      · exact hdenotes
      · exact hparts p hp

theorem denotes_marshalFields : ∀ fields, ReadableFields repr fields →
    ∃ members : List (String × Json × String),
      marshalFieldsWith true fields = .ok (members.map fun m => (m.1, m.2.2)) ∧
      sortFields fields = members.map (fun m => (m.1, m.2.1)) ∧
      fields.map Prod.fst = members.map Prod.fst ∧ ∀ m ∈ members, Denotes repr m.2.1 m.2.2
  | [], _ => ⟨[], rfl, rfl, rfl, fun _ hm => absurd hm List.not_mem_nil⟩
  | (name, v) :: rest, h => by
    obtain ⟨text, (hmarshal : marshalWith true v = .ok text), hdenotes⟩ := denotes_marshal v h.1
    obtain ⟨members, hrest, hvalues, hkeys, hmembers⟩ := denotes_marshalFields rest h.2
    refine ⟨(name, sortKeys v, text) :: members, ?_, ?_, ?_, fun m hm => ?_⟩
    · rw [marshalFieldsWith, hmarshal, hrest]
      rfl
    · rw [sortFields, hvalues, List.map_cons]
    · rw [List.map_cons, List.map_cons, hkeys]
    · rcases List.mem_cons.mp hm with rfl | hm
      · exact hdenotes
      · exact hmembers m hm

end

end Util
end Eds
