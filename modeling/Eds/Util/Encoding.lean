import Eds.Collections.Ranked
import Eds.Util.Reproduce
import Mathlib.Data.String.Basic

/-!
# JSON, written and read back

Sorting the keys of a value first and writing it with its keys in order is `marshal`
(`marshal_sortKeys`), so that the two choices for the keys are read back by one argument: the text
is that of the tree `treeOf`.

Two values are equal, up to the order of their keys, if and only if their sorted texts are
(`marshal_round_trip`).
-/

namespace Eds
namespace Util

open Collections Lexing.Json

/-! ## The tree that is written -/

/-- The text of a finite double. -/
def floatText (text : String) : List Char :=
  match formatJson text with
  | .ok out => out.toList
  | .error _ => []

mutual

def treeOf : Json → Tree
  | .null => .null
  | .bool b => .bool b
  | .int n => .number (toString n).toList
  | .float text => .number (floatText text)
  | .str s => .str s.toList
  | .arr vs => .arr (treeItems vs)
  | .obj fields => .obj (treeFields fields)

def treeItems : List Json → List Tree
  | [] => []
  | v :: rest => treeOf v :: treeItems rest

def treeFields : List (String × Json) → List (List Char × Tree)
  | [] => []
  | (name, v) :: rest => (name.toList, treeOf v) :: treeFields rest

end

/-- The fields are written in their order. -/
theorem reads_obj_kept {members : List (String × Tree × String)}
    (h : ∀ m ∈ members, Reads m.2.1 m.2.2.toList) :
    Reads (.obj (members.map fun m => (m.1.toList, m.2.1)))
      ("\x7b" ++ commas ((members.map fun m => (m.1, m.2.2)).map fun p =>
        writtenField p.1 p.2) ++ "\x7d").toList := by
  have hmembers : ∀ m ∈ members.map fun m => member m.1 m.2.1 m.2.2, m.Reads := by
    rw [List.forall_mem_map]
    exact fun m hm => member_reads m.1 (h m hm)
  have hobj := Reads.obj hmembers
  have htexts : (members.map fun m => member m.1 m.2.1 m.2.2).map Member.written =
      (members.map fun m => writtenField m.1 m.2.2).map String.toList := by
    rw [List.map_map, List.map_map]
    exact List.map_congr_left fun m _ => member_written m.1 m.2.1 m.2.2
  rw [htexts, List.map_map, List.map_map] at hobj
  rw [String.toList_append, String.toList_append, toList_commas, List.map_map, List.map_map]
  exact hobj

mutual

/-- A finite value has a text, and the text is read as its tree. -/
theorem reads_kept : ∀ v, Printed v → Finite v →
    ∃ text, marshalWith false v = .ok text ∧ Reads (treeOf v) text.toList
  | .null, _, _ => ⟨_, rfl, reads_null⟩
  | .bool true, _, _ => ⟨_, rfl, reads_true⟩
  | .bool false, _, _ => ⟨_, rfl, reads_false⟩
  | .int n, _, _ => ⟨_, rfl, (writes_toString n).reads⟩
  | .float text, hprinted, hfinite => by
    obtain ⟨x, rfl⟩ := hprinted hfinite
    obtain ⟨out, hout, hwrites⟩ := writes_formatJson hfinite
    refine ⟨out, hout, ?_⟩
    have htext : floatText (String.ofList x.text) = out.toList := by rw [floatText, hout]
    rw [treeOf, htext]
    exact hwrites.reads
  | .str s, _, _ => ⟨_, rfl, reads_encodeString s⟩
  | .arr vs, hprinted, hfinite => by
    obtain ⟨parts, hmarshal, htrees, hreads⟩ := reads_keptItems vs hprinted hfinite
    refine ⟨_, marshalWith_arr hmarshal, ?_⟩
    rw [treeOf, htrees]
    exact reads_arr hreads
  | .obj fields, hprinted, hfinite => by
    obtain ⟨members, hmarshal, htrees, hreads⟩ := reads_keptFields fields hprinted hfinite
    refine ⟨_, marshalWith_obj hmarshal, ?_⟩
    rw [treeOf, htrees]
    exact reads_obj_kept hreads

theorem reads_keptItems : ∀ vs, EachItem printed (fun _ => True) vs →
    EachItem finite (fun _ => True) vs →
    ∃ parts : List (Tree × String), marshalItemsWith false vs = .ok (parts.map Prod.snd) ∧
      treeItems vs = parts.map Prod.fst ∧ ∀ p ∈ parts, Reads p.1 p.2.toList
  | [], _, _ => ⟨[], rfl, rfl, nofun⟩
  | v :: rest, hprinted, hfinite => by
    obtain ⟨text, hmarshal, hreads⟩ := reads_kept v hprinted.1 hfinite.1
    obtain ⟨parts, hrest, htrees, hparts⟩ := reads_keptItems rest hprinted.2 hfinite.2
    refine ⟨(treeOf v, text) :: parts, ?_, ?_, ?_⟩
    · rw [marshalItemsWith, hmarshal, hrest]
      rfl
    · rw [treeItems, htrees, List.map_cons]
    · exact List.forall_mem_cons.mpr ⟨hreads, hparts⟩

theorem reads_keptFields : ∀ fields, EachField printed (fun _ => True) fields →
    EachField finite (fun _ => True) fields →
    ∃ members : List (String × Tree × String),
      marshalFieldsWith false fields = .ok (members.map fun m => (m.1, m.2.2)) ∧
      treeFields fields = members.map (fun m => (m.1.toList, m.2.1)) ∧
      ∀ m ∈ members, Reads m.2.1 m.2.2.toList
  | [], _, _ => ⟨[], rfl, rfl, nofun⟩
  | (name, v) :: rest, hprinted, hfinite => by
    obtain ⟨text, hmarshal, hreads⟩ := reads_kept v hprinted.2.1 hfinite.2.1
    obtain ⟨members, hrest, htrees, hmembers⟩ := reads_keptFields rest hprinted.2.2 hfinite.2.2
    refine ⟨(name, treeOf v, text) :: members, ?_, ?_, ?_⟩
    · rw [marshalFieldsWith, hmarshal, hrest]
      rfl
    · rw [treeFields, htrees, List.map_cons]
    · exact List.forall_mem_cons.mpr ⟨hreads, hmembers⟩

end

/-! ## Sorting first -/

theorem sortItems_eq_map (vs : List Json) : sortItems vs = vs.map sortKeys := by
  induction vs with
  | nil => rfl
  | cons v rest ih => rw [sortItems, ih, List.map_cons]

theorem sortFields_eq_map (fields : List (String × Json)) :
    sortFields fields = fields.map fun f => (f.1, sortKeys f.2) := by
  induction fields with
  | nil => rfl
  | cons f rest ih =>
    obtain ⟨name, v⟩ := f
    rw [sortFields, ih, List.map_cons]

theorem marshalFieldsWith_members {sort : Bool} {members : List (String × Json × String)}
    (h : ∀ m ∈ members, marshalWith sort m.2.1 = .ok m.2.2) :
    marshalFieldsWith sort (members.map fun m => (m.1, m.2.1)) =
      .ok (members.map fun m => (m.1, m.2.2)) := by
  induction members with
  | nil => rfl
  | cons m members ih =>
    obtain ⟨hm, hmembers⟩ := List.forall_mem_cons.mp h
    rw [List.map_cons, marshalFieldsWith, hm, ih hmembers]
    rfl

mutual

/-- What `marshal` writes is the value with its keys sorted, written in order. -/
theorem marshal_sortKeys : ∀ v text, marshal v = .ok text →
    marshalWith false (sortKeys v) = .ok text
  | .null, _, h => h
  | .bool _, _, h => h
  | .int _, _, h => h
  | .float _, _, h => h
  | .str _, _, h => h
  | .arr vs, _, h => by
    obtain ⟨parts, hparts, rfl⟩ := marshalWith_arr_ok h
    exact marshalWith_arr (marshalItems_sortItems vs parts hparts)
  | .obj fields, _, h => by
    obtain ⟨parts, hparts, rfl⟩ := marshalWith_obj_ok h
    obtain ⟨members, rfl, hfields, hmembers⟩ := marshalFields_sortFields fields parts hparts
    have hsorted := marshalFieldsWith_members fun m hm =>
      hmembers m ((byKey_perm members).mem_iff.mp hm)
    rw [sortKeys, hfields, byKey_map Prod.fst, keyOrder, if_pos rfl, byKey_map Prod.snd]
    exact marshalWith_obj hsorted

theorem marshalItems_sortItems : ∀ vs parts, marshalItemsWith true vs = .ok parts →
    marshalItemsWith false (sortItems vs) = .ok parts
  | [], _, h => h
  | v :: rest, _, h => by
    obtain ⟨text, texts, hv, hrest, rfl⟩ := marshalItemsWith_cons_ok h
    rw [sortItems, marshalItemsWith, marshal_sortKeys v text hv,
      marshalItems_sortItems rest texts hrest]
    rfl

theorem marshalFields_sortFields : ∀ fields parts, marshalFieldsWith true fields = .ok parts →
    ∃ members : List (String × Json × String), parts = members.map (fun m => (m.1, m.2.2)) ∧
      sortFields fields = members.map (fun m => (m.1, m.2.1)) ∧
      ∀ m ∈ members, marshalWith false m.2.1 = .ok m.2.2
  | [], _, h => by
    cases h
    exact ⟨[], rfl, rfl, nofun⟩
  | (name, v) :: rest, _, h => by
    obtain ⟨text, texts, hv, hrest, rfl⟩ := marshalFieldsWith_cons_ok h
    obtain ⟨members, rfl, hfields, hmembers⟩ := marshalFields_sortFields rest texts hrest
    refine ⟨(name, sortKeys v, text) :: members, rfl, ?_, ?_⟩
    · rw [sortFields, hfields, List.map_cons]
    · exact List.forall_mem_cons.mpr ⟨marshal_sortKeys v text hv, hmembers⟩

end

section

variable {leaf leaf' : Json → Prop} {key : String → Prop}

theorem eachField_iff {fields : List (String × Json)} :
    EachField leaf key fields ↔ ∀ f ∈ fields, key f.1 ∧ Each leaf key f.2 := by
  induction fields with
  | nil => exact iff_of_true trivial nofun
  | cons f rest ih =>
    obtain ⟨name, v⟩ := f
    rw [EachField, ih, List.forall_mem_cons, and_assoc]

mutual

theorem Each.imp (h : ∀ v, leaf v → leaf' v) : ∀ v, Each leaf key v → Each leaf' key v
  | .null, hv => h _ hv
  | .bool _, hv => h _ hv
  | .int _, hv => h _ hv
  | .float _, hv => h _ hv
  | .str _, hv => h _ hv
  | .arr vs, hv => EachItem.imp h vs hv
  | .obj fields, hv => EachField.imp h fields hv

theorem EachItem.imp (h : ∀ v, leaf v → leaf' v) : ∀ vs, EachItem leaf key vs → EachItem leaf' key vs
  | [], _ => trivial
  | v :: rest, hvs => ⟨Each.imp h v hvs.1, EachItem.imp h rest hvs.2⟩

theorem EachField.imp (h : ∀ v, leaf v → leaf' v) :
    ∀ fields, EachField leaf key fields → EachField leaf' key fields
  | [], _ => trivial
  | (_, v) :: rest, hfields =>
    ⟨hfields.1, Each.imp h v hfields.2.1, EachField.imp h rest hfields.2.2⟩

end

mutual

theorem each_sortKeys : ∀ v, Each leaf key v → Each leaf key (sortKeys v)
  | .null, h => h
  | .bool _, h => h
  | .int _, h => h
  | .float _, h => h
  | .str _, h => h
  | .arr vs, h => each_sortItems vs h
  | .obj fields, h => by
    rw [sortKeys, Each, eachField_iff]
    intro f hf
    exact eachField_iff.mp (each_sortFields fields h) f ((byKey_perm _).mem_iff.mp hf)

theorem each_sortItems : ∀ vs, EachItem leaf key vs → EachItem leaf key (sortItems vs)
  | [], _ => trivial
  | v :: rest, h => ⟨each_sortKeys v h.1, each_sortItems rest h.2⟩

theorem each_sortFields : ∀ fields, EachField leaf key fields → EachField leaf key (sortFields fields)
  | [], _ => trivial
  | (_, v) :: rest, h => ⟨h.1, each_sortKeys v h.2.1, each_sortFields rest h.2.2⟩

end

end

/-- A finite value is read as its tree with the keys sorted. -/
theorem reads_sorted {v : Json} (hprinted : Printed v) (hfinite : Finite v) :
    ∃ text, marshal v = .ok text ∧ Reads (treeOf (sortKeys v)) text.toList := by
  obtain ⟨text, -, hmarshal, -, -⟩ := reads_marshal v hprinted hfinite
  obtain ⟨text', hkept, hreads⟩ := reads_kept (sortKeys v) (each_sortKeys v hprinted)
    (each_sortKeys v hfinite)
  rw [Except.ok.inj ((marshal_sortKeys v text hmarshal).symm.trans hkept)] at hmarshal
  exact ⟨text', hmarshal, hreads⟩

/-! ## JSON values -/

/-- Not a double. -/
def integral : Json → Prop
  | .float _ => False
  | _ => True

mutual

/-- No object has a key twice. -/
def Distinct : Json → Prop
  | .arr vs => DistinctItems vs
  | .obj fields => (fields.map Prod.fst).Nodup ∧ DistinctFields fields
  | _ => True

def DistinctItems : List Json → Prop
  | [] => True
  | v :: rest => Distinct v ∧ DistinctItems rest

def DistinctFields : List (String × Json) → Prop
  | [] => True
  | (_, v) :: rest => Distinct v ∧ DistinctFields rest

end

/-- Null, booleans, integers, strings, lists, and objects with distinct keys. -/
structure JsonValue (v : Json) : Prop where
  integral : Each integral (fun _ => True) v
  distinct : Distinct v

theorem JsonValue.printed {v : Json} (h : JsonValue v) : Printed v :=
  Each.imp (fun v hv => by cases v <;> trivial) v h.integral

theorem JsonValue.finite {v : Json} (h : JsonValue v) : Finite v :=
  Each.imp (fun v hv => by cases v <;> trivial) v h.integral

theorem distinctFields_iff {fields : List (String × Json)} :
    DistinctFields fields ↔ ∀ f ∈ fields, Distinct f.2 := by
  induction fields with
  | nil => exact iff_of_true trivial nofun
  | cons f rest ih =>
    obtain ⟨name, v⟩ := f
    rw [DistinctFields, ih, List.forall_mem_cons]

theorem keys_sortFields (fields : List (String × Json)) :
    (sortFields fields).map Prod.fst = fields.map Prod.fst := by
  rw [sortFields_eq_map, List.map_map]
  rfl

mutual

theorem distinct_sortKeys : ∀ v, Distinct v → Distinct (sortKeys v)
  | .null, h => h
  | .bool _, h => h
  | .int _, h => h
  | .float _, h => h
  | .str _, h => h
  | .arr vs, h => distinct_sortItems vs h
  | .obj fields, h => by
    have hperm := byKey_perm (sortFields fields)
    refine ⟨?_, distinctFields_iff.mpr fun f hf => ?_⟩
    · rw [(hperm.map Prod.fst).nodup_iff, keys_sortFields]
      exact h.1
    · exact distinctFields_iff.mp (distinct_sortFields fields h.2) f (hperm.mem_iff.mp hf)

theorem distinct_sortItems : ∀ vs, DistinctItems vs → DistinctItems (sortItems vs)
  | [], _ => trivial
  | v :: rest, h => ⟨distinct_sortKeys v h.1, distinct_sortItems rest h.2⟩

theorem distinct_sortFields : ∀ fields, DistinctFields fields → DistinctFields (sortFields fields)
  | [], _ => trivial
  | (_, v) :: rest, h => ⟨distinct_sortKeys v h.1, distinct_sortFields rest h.2⟩

end

theorem JsonValue.sortKeys {v : Json} (h : JsonValue v) : JsonValue (sortKeys v) :=
  ⟨each_sortKeys v h.integral, distinct_sortKeys v h.distinct⟩

/-! ## Reading back -/

theorem isIntegral_toString (n : Int) : isIntegral (toString n).toList = true := by
  obtain ⟨ds, htext, -, -⟩ := exists_toString n
  have hdigit : ∀ d : Fin 10, (isDigit (digitChar d) || digitChar d == '-') = true := by decide
  rw [htext, isIntegral, List.all_append, Bool.and_eq_true]
  constructor
  · rw [minusText]
    split
    · rfl
    · rfl
  · rw [List.all_map, List.all_eq_true]
    exact fun d _ => hdigit d

section

variable (repr : List Char → String)

mutual

/-- The tree of a value is the value. -/
theorem ofTree_treeOf : ∀ v, JsonValue v → ofTree repr (treeOf v) = v
  | .null, _ => rfl
  | .bool _, _ => rfl
  | .int n, _ => by
    rw [treeOf, ofTree, if_pos (isIntegral_toString n), readInt_toString]
  | .float _, h => h.integral.elim
  | .str _, _ => congrArg Json.str String.ofList_toList
  | .arr vs, h => by rw [treeOf, ofTree, ofItems_treeItems vs h.integral h.distinct]
  | .obj fields, h => by
    rw [treeOf, ofTree, ofFields_treeFields fields h.integral h.distinct.2,
      Dict.items_ofList h.distinct.1]

theorem ofItems_treeItems : ∀ vs, EachItem integral (fun _ => True) vs → DistinctItems vs →
    ofItems repr (treeItems vs) = vs
  | [], _, _ => rfl
  | v :: rest, hintegral, hdistinct => by
    rw [treeItems, ofItems, ofTree_treeOf v ⟨hintegral.1, hdistinct.1⟩,
      ofItems_treeItems rest hintegral.2 hdistinct.2]

theorem ofFields_treeFields : ∀ fields, EachField integral (fun _ => True) fields →
    DistinctFields fields → ofFields repr (treeFields fields) = fields
  | [], _, _ => rfl
  | (name, v) :: rest, hintegral, hdistinct => by
    rw [treeFields, ofFields, ofTree_treeOf v ⟨hintegral.2.1, hdistinct.1⟩,
      ofFields_treeFields rest hintegral.2.2 hdistinct.2, String.ofList_toList]

end

end

mutual

/-- The keys of every object stand in strictly increasing order. -/
def Increasing : Tree → Prop
  | .arr items => IncreasingItems items
  | .obj fields =>
    (fields.map fun f => String.ofList f.1).Pairwise (· < ·) ∧ IncreasingFields fields
  | _ => True

def IncreasingItems : List Tree → Prop
  | [] => True
  | t :: rest => Increasing t ∧ IncreasingItems rest

def IncreasingFields : List (List Char × Tree) → Prop
  | [] => True
  | (_, t) :: rest => Increasing t ∧ IncreasingFields rest

end

theorem treeFields_eq_map (fields : List (String × Json)) :
    treeFields fields = fields.map fun f => (f.1.toList, treeOf f.2) := by
  induction fields with
  | nil => rfl
  | cons f rest ih =>
    obtain ⟨name, v⟩ := f
    rw [treeFields, ih, List.map_cons]

theorem increasingFields_iff {fields : List (List Char × Tree)} :
    IncreasingFields fields ↔ ∀ f ∈ fields, Increasing f.2 := by
  induction fields with
  | nil => exact iff_of_true trivial nofun
  | cons f rest ih =>
    obtain ⟨name, t⟩ := f
    rw [IncreasingFields, ih, List.forall_mem_cons]

theorem pairwise_byKey {α : Type} (fields : List (String × α)) :
    (byKey fields).Pairwise fun p q => p.1 ≤ q.1 :=
  pairwise_mergeSort_key (fun _ _ => decide_eq_true_iff) fields

theorem increasing_byKey {α : Type} {fields : List (String × α)}
    (h : (fields.map Prod.fst).Nodup) : ((byKey fields).map Prod.fst).Pairwise (· < ·) := by
  have hnodup : ((byKey fields).map Prod.fst).Nodup :=
    ((byKey_perm fields).map Prod.fst).nodup_iff.mpr h
  have hsorted : ((byKey fields).map Prod.fst).Pairwise (· ≤ ·) :=
    List.pairwise_map.mpr (pairwise_byKey fields)
  exact (hsorted.and hnodup).imp fun h => lt_of_le_of_ne h.1 h.2

mutual

theorem increasing_sortKeys : ∀ v, Distinct v → Increasing (treeOf (sortKeys v))
  | .null, _ => trivial
  | .bool _, _ => trivial
  | .int _, _ => trivial
  | .float _, _ => trivial
  | .str _, _ => trivial
  | .arr vs, h => increasing_sortItems vs h
  | .obj fields, h => by
    have hkeys : (treeFields (byKey (sortFields fields))).map (fun f => String.ofList f.1) =
        (byKey (sortFields fields)).map Prod.fst := by
      rw [treeFields_eq_map, List.map_map]
      exact List.map_congr_left fun f _ => String.ofList_toList
    rw [sortKeys, treeOf, Increasing, hkeys]
    refine ⟨increasing_byKey ?_, ?_⟩
    · rw [keys_sortFields]
      exact h.1
    · rw [increasingFields_iff, treeFields_eq_map, List.forall_mem_map]
      intro f hf
      exact increasing_sortFields fields h.2 f ((byKey_perm _).mem_iff.mp hf)

theorem increasing_sortItems : ∀ vs, DistinctItems vs → IncreasingItems (treeItems (sortItems vs))
  | [], _ => trivial
  | v :: rest, h => ⟨increasing_sortKeys v h.1, increasing_sortItems rest h.2⟩

theorem increasing_sortFields : ∀ fields, DistinctFields fields →
    ∀ f ∈ sortFields fields, Increasing (treeOf f.2)
  | [], _ => nofun
  | (_, v) :: rest, h =>
    List.forall_mem_cons.mpr ⟨increasing_sortKeys v h.1, increasing_sortFields rest h.2⟩

end

/-! ## Equal values -/

mutual

/-- Equal, whatever the order of the keys. -/
def Same : Json → Json → Prop
  | .null, w => w = .null
  | .bool b, w => w = .bool b
  | .int n, w => w = .int n
  | .float text, w => w = .float text
  | .str s, w => w = .str s
  | .arr vs, w => ∃ ws, w = .arr ws ∧ SameItems vs ws
  | .obj fields, w =>
    ∃ fields', w = .obj fields' ∧ fields.length = fields'.length ∧ SameFields fields fields'

def SameItems : List Json → List Json → Prop
  | [], ws => ws = []
  | v :: rest, ws => ∃ w rest', ws = w :: rest' ∧ Same v w ∧ SameItems rest rest'

/-- Every field is in the other object, under its key. -/
def SameFields : List (String × Json) → List (String × Json) → Prop
  | [], _ => True
  | (name, v) :: rest, fields' =>
    (∃ w, fields'.lookup name = some w ∧ Same v w) ∧ SameFields rest fields'

end

theorem lookup_eq_some_iff {α : Type} {fields : List (String × α)}
    (h : (fields.map Prod.fst).Nodup) {name : String} {v : α} :
    fields.lookup name = some v ↔ (name, v) ∈ fields :=
  Dict.get?_eq_some (d := ⟨fields, h⟩)

/-- Objects are sorted into the same fields if every field of the one is in the other. -/
theorem byKey_eq_iff {α : Type} {fields fields' : List (String × α)}
    (h : (fields.map Prod.fst).Nodup) (h' : (fields'.map Prod.fst).Nodup) :
    byKey fields = byKey fields' ↔ fields.length = fields'.length ∧ ∀ f ∈ fields, f ∈ fields' := by
  constructor
  · intro heq
    have hperm : fields.Perm fields' :=
      (byKey_perm fields).symm.trans (heq ▸ byKey_perm fields')
    exact ⟨hperm.length_eq, fun f hf => hperm.mem_iff.mp hf⟩
  · intro hsame
    obtain ⟨hlength, hsubset⟩ := hsame
    have hperm : fields.Perm fields' :=
      (List.subperm_of_subset h.of_map hsubset).perm_of_length_le hlength.ge
    have hsorted := (byKey_perm fields).trans (hperm.trans (byKey_perm fields').symm)
    refine hsorted.eq_of_pairwise (fun f g hf hg hfg hgf => ?_) (pairwise_byKey fields)
      (pairwise_byKey fields')
    -- Two fields with one key are one field.
    have hkey : f.1 = g.1 := le_antisymm hfg hgf
    have hf' := (lookup_eq_some_iff h').mpr (hsubset f ((byKey_perm fields).mem_iff.mp hf))
    have hg' := (lookup_eq_some_iff h').mpr ((byKey_perm fields').mem_iff.mp hg)
    rw [hkey, hg'] at hf'
    exact Prod.ext hkey (Option.some.inj hf').symm

mutual

theorem same_iff : ∀ v w, Distinct v → Distinct w → (Same v w ↔ sortKeys v = sortKeys w)
  | .null, w, _, _ => by cases w <;> simp [Same, sortKeys]
  | .bool b, w, _, _ => by cases w <;> simp [Same, sortKeys, eq_comm]
  | .int n, w, _, _ => by cases w <;> simp [Same, sortKeys, eq_comm]
  | .float text, w, _, _ => by cases w <;> simp [Same, sortKeys, eq_comm]
  | .str s, w, _, _ => by cases w <;> simp [Same, sortKeys, eq_comm]
  | .arr vs, w, hv, hw => by
    cases w with
    | arr ws =>
      have hitems := sameItems_iff vs ws hv hw
      simp only [Same, Json.arr.injEq, exists_eq_left', sortKeys, hitems]
    | _ => simp [Same, sortKeys]
  | .obj fields, w, hv, hw => by
    cases w with
    | obj fields' =>
      have hkeys : ((sortFields fields).map Prod.fst).Nodup := by
        rw [keys_sortFields]
        exact hv.1
      have hkeys' : ((sortFields fields').map Prod.fst).Nodup := by
        rw [keys_sortFields]
        exact hw.1
      have hfields := sameFields_iff_sorted fields fields' hv.2 hw
      have hlength : ∀ fields, (sortFields fields).length = fields.length := fun fields => by
        rw [sortFields_eq_map, List.length_map]
      simp only [Same, Json.obj.injEq, exists_eq_left', sortKeys]
      rw [byKey_eq_iff hkeys hkeys', hlength, hlength, hfields]
    | _ => simp [Same, sortKeys]

theorem sameItems_iff : ∀ vs ws, DistinctItems vs → DistinctItems ws →
    (SameItems vs ws ↔ sortItems vs = sortItems ws)
  | [], ws, _, _ => by cases ws <;> simp [SameItems, sortItems]
  | v :: rest, ws, hvs, hws => by
    cases ws with
    | nil => simp [SameItems, sortItems]
    | cons w ws =>
      have hitem := same_iff v w hvs.1 hws.1
      have hrest := sameItems_iff rest ws hvs.2 hws.2
      simp [SameItems, sortItems, hitem, hrest]

theorem sameFields_iff_sorted : ∀ fields fields', DistinctFields fields → Distinct (.obj fields') →
    (SameFields fields fields' ↔ ∀ f ∈ sortFields fields, f ∈ sortFields fields')
  | [], _, _, _ => iff_of_true trivial nofun
  | (name, v) :: rest, fields', hfields, hdistinct => by
    rw [SameFields, sortFields, List.forall_mem_cons,
      sameFields_iff_sorted rest fields' hfields.2 hdistinct]
    refine and_congr_left fun _ => ?_
    rw [sortFields_eq_map, List.mem_map]
    constructor
    · intro hsame
      obtain ⟨w, hlookup, hsame⟩ := hsame
      have hmem := (lookup_eq_some_iff hdistinct.1).mp hlookup
      have hw := distinctFields_iff.mp hdistinct.2 _ hmem
      exact ⟨(name, w), hmem, by rw [(same_iff v w hfields.1 hw).mp hsame]⟩
    · intro hsorted
      obtain ⟨⟨name', w⟩, hmem, heq⟩ := hsorted
      obtain ⟨rfl, hvalue⟩ := Prod.mk.inj heq
      have hw := distinctFields_iff.mp hdistinct.2 _ hmem
      exact ⟨w, (lookup_eq_some_iff hdistinct.1).mpr hmem,
        (same_iff v w hfields.1 hw).mpr hvalue.symm⟩

end

/-! ## The round trip -/

theorem byKey_byKey {α : Type} (fields : List (String × α)) : byKey (byKey fields) = byKey fields := by
  refine List.mergeSort_of_pairwise ((pairwise_byKey fields).imp fun h => ?_)
  exact decide_eq_true h

mutual

theorem sortKeys_sortKeys : ∀ v, sortKeys (sortKeys v) = sortKeys v
  | .null => rfl
  | .bool _ => rfl
  | .int _ => rfl
  | .float _ => rfl
  | .str _ => rfl
  | .arr vs => by rw [sortKeys, sortKeys, sortItems_sortItems vs]
  | .obj fields => by
    rw [sortKeys, sortKeys, sortFields_eq_map (byKey _), ← byKey_map, ← sortFields_eq_map,
      sortFields_sortFields fields, byKey_byKey]

theorem sortItems_sortItems : ∀ vs, sortItems (sortItems vs) = sortItems vs
  | [] => rfl
  | v :: rest => by rw [sortItems, sortItems, sortKeys_sortKeys v, sortItems_sortItems rest]

theorem sortFields_sortFields : ∀ fields, sortFields (sortFields fields) = sortFields fields
  | [] => rfl
  | (_, v) :: rest => by rw [sortFields, sortFields, sortKeys_sortKeys v, sortFields_sortFields rest]

end

theorem same_sortKeys {v : Json} (hv : JsonValue v) : Same v (sortKeys v) :=
  (same_iff v _ hv.distinct hv.sortKeys.distinct).mpr (sortKeys_sortKeys v).symm

theorem marshal_eq_iff {v w : Json} (hv : JsonValue v) (hw : JsonValue w) :
    marshal v = marshal w ↔ sortKeys v = sortKeys w := by
  obtain ⟨text, hmarshal, hreads⟩ := reads_sorted hv.printed hv.finite
  obtain ⟨text', hmarshal', hreads'⟩ := reads_sorted hw.printed hw.finite
  constructor
  · intro h
    rw [hmarshal, hmarshal'] at h
    have hparse := hreads.parse
    rw [Except.ok.inj h, hreads'.parse] at hparse
    have hvalue := congrArg (ofTree fun _ => "") (Option.some.inj hparse)
    rw [ofTree_treeOf _ _ hv.sortKeys, ofTree_treeOf _ _ hw.sortKeys] at hvalue
    exact hvalue.symm
  · intro h
    have hkept := marshal_sortKeys v text hmarshal
    rw [h, marshal_sortKeys w text' hmarshal'] at hkept
    rw [hmarshal, hmarshal', Except.ok.inj hkept]

/-- A value is written in a text that is read as the value; with sorted keys, the keys of every
object in the text increase, and equal values have equal texts. -/
theorem marshal_round_trip (repr : List Char → String) {v : Json} (hv : JsonValue v) :
    (∃ text, marshalWith false v = .ok text ∧ loads repr text = some v) ∧
    (∃ text t, marshalWith true v = .ok text ∧ parse text.toList = some t ∧
      Same v (ofTree repr t) ∧ Increasing t) ∧
    ∀ w, JsonValue w → (Same v w ↔ marshalWith true v = marshalWith true w) := by
  refine ⟨?_, ?_, fun w hw => ?_⟩
  · obtain ⟨text, hmarshal, hreads⟩ := reads_kept v hv.printed hv.finite
    refine ⟨text, hmarshal, ?_⟩
    rw [loads, hreads.parse, Option.map_some, ofTree_treeOf repr v hv]
  · obtain ⟨text, hmarshal, hreads⟩ := reads_sorted hv.printed hv.finite
    refine ⟨text, _, hmarshal, hreads.parse, ?_, increasing_sortKeys v hv.distinct⟩
    rw [ofTree_treeOf repr _ hv.sortKeys]
    exact same_sortKeys hv
  · exact (same_iff v w hv.distinct hw.distinct).trans (marshal_eq_iff hv hw).symm

/-- Two keys out of order, a list, and characters of five classes. -/
theorem marshal_round_trip_nested :
    Same (.obj [("b", .arr [.int (-5), .null]), ("a<", .str "\u2028\t\"é\u0001")])
        (.obj [("a<", .str "\u2028\t\"é\u0001"), ("b", .arr [.int (-5), .null])]) ↔
      marshalWith true (.obj [("b", .arr [.int (-5), .null]), ("a<", .str "\u2028\t\"é\u0001")]) =
        marshalWith true
          (.obj [("a<", .str "\u2028\t\"é\u0001"), ("b", .arr [.int (-5), .null])]) := by
  refine (marshal_round_trip (fun _ => "") (v := .obj _) ⟨?_, ?_⟩).2.2 (.obj _) ⟨?_, ?_⟩
  · exact ⟨trivial, ⟨trivial, trivial, trivial⟩, trivial, trivial, trivial⟩
  · exact ⟨by decide, ⟨trivial, trivial, trivial⟩, trivial, trivial⟩
  · exact ⟨trivial, trivial, trivial, ⟨trivial, trivial, trivial⟩, trivial⟩
  · exact ⟨by decide, trivial, ⟨trivial, trivial, trivial⟩, trivial⟩

end Util
end Eds
