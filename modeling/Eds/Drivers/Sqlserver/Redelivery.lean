import Eds.Drivers.Sqlserver.Sql
import Eds.Collections.Traverse

/-!
# Redelivered SQL Server events

The insert of a `MERGE` coerces what the update writes as it is.  A row that was
inserted is changed by the same statement if the two differ, which is so for `NULL` in
a boolean or an integer column, and for an array that must not be null and is missing.
-/

namespace Eds
namespace Drivers
namespace Sqlserver

open Util Collections

variable {V : Type}

/-! ## Texts that are not words -/

/-- The text does not start with a letter. -/
def Unlettered (text : String) : Prop := ∃ c rest, text.toList = c :: rest ∧ c.isAlpha = false

theorem Unlettered.append {a : String} (h : Unlettered a) (b : String) : Unlettered (a ++ b) := by
  obtain ⟨c, rest, ha, hc⟩ := h
  exact ⟨c, rest ++ b.toList, by rw [String.toList_append, ha, List.cons_append], hc⟩

theorem unlettered_quoted (s : String) : Unlettered ("'" ++ s ++ "'") :=
  Unlettered.append (Unlettered.append ⟨'\'', [], rfl, rfl⟩ s) "'"

theorem unlettered_sign (neg : Bool) {text : String} (h : Unlettered text) :
    Unlettered (sign neg ++ text) := by
  cases neg with
  | true => exact Unlettered.append ⟨'-', [], rfl, rfl⟩ text
  | false =>
    rw [show sign false = "" from rfl, String.empty_append]
    exact h

theorem isAlpha_of_isDigit {c : Char} (h : c.isDigit = true) : c.isAlpha = false := by
  have hnine : decide (c.val ≤ '9'.val) = true := (Bool.and_eq_true_iff.mp h).2
  have h9 : c.val.toNat ≤ 57 := of_decide_eq_true hnine
  have hupper : c.isUpper = false := by
    refine decide_eq_false fun hA => ?_
    have hA' : 65 ≤ c.val.toNat := hA.1
    omega
  have hlower : c.isLower = false := by
    refine Bool.and_eq_false_iff.mpr (Or.inl (decide_eq_false fun ha => ?_))
    have ha' : 97 ≤ c.val.toNat := ha
    omega
  exact Bool.or_eq_false_iff.mpr ⟨hupper, hlower⟩

theorem unlettered_digitText (d : Fin 10) (ds : List (Fin 10)) : Unlettered (digitText (d :: ds)) := by
  refine ⟨digitChar d, ds.map digitChar, by rw [digitText, String.toList_ofList, List.map_cons], ?_⟩
  refine isAlpha_of_isDigit ?_
  rw [digitChar, Nat.isDigit_digitChar]
  exact decide_eq_true d.isLt

theorem unlettered_repr (n : Nat) : Unlettered (Nat.repr n) := by
  cases hd : Nat.toDigits 10 n with
  | nil =>
    have hlength := @Nat.length_toDigits_pos 10 n
    rw [hd] at hlength
    cases hlength
  | cons c rest =>
    refine ⟨c, rest, by rw [Nat.repr, String.toList_ofList, hd], isAlpha_of_isDigit ?_⟩
    exact Nat.isDigit_of_mem_toDigits (by decide) (by decide) (hd ▸ List.mem_cons_self)

theorem unlettered_toString (n : Int) : Unlettered (toString n) := by
  cases n with
  | ofNat m => exact unlettered_repr m
  | negSucc m => exact Unlettered.append ⟨'-', [], rfl, rfl⟩ _

theorem unlettered_shortest (d : Fin 10) (ds : List (Fin 10)) (e : Int) :
    Unlettered (shortest d ds e) := by
  unfold shortest
  split
  · split
    · exact ((unlettered_digitText d []).append _).append _
    · exact ((((unlettered_digitText d []).append _).append _).append _).append _
  · split
    · exact Unlettered.append ⟨'0', ['.'], rfl, rfl⟩ _
    · split
      · exact unlettered_digitText d _
      · exact ((unlettered_digitText d _).append _).append _

theorem formatG_cases (text : String) : formatG text = "NaN" ∨ Unlettered (formatG text) := by
  unfold formatG
  split
  · exact .inl rfl
  · right
    split
    · split
      · exact ⟨'-', _, rfl, rfl⟩
      · exact ⟨'+', _, rfl, rfl⟩
    · dsimp only
      split
      · exact unlettered_sign _ ⟨'0', [], rfl, rfl⟩
      · exact unlettered_sign _ (unlettered_shortest _ _ _)

theorem toLower_eq {s t : String} (h : s.toList.map Char.toLower = t.toList) : s.toLower = t := by
  have hmap : (s.map Char.toLower).toList = t.toList := by rw [String.toList_map, h]
  exact String.toList_inj.mp hmap

theorem Unlettered.toLower_ne {text : String} (h : Unlettered text) {c : Char} {rest : List Char}
    (hc : c.isAlpha = true) : text.toLower ≠ String.ofList (c :: rest) := by
  intro heq
  obtain ⟨d, more, htext, hd⟩ := h
  have hlist : (text.map Char.toLower).toList = (String.ofList (c :: rest)).toList :=
    congrArg String.toList heq
  rw [String.toList_map, htext, String.toList_ofList, List.map_cons] at hlist
  have hupper : d.isUpper = false := (Bool.or_eq_false_iff.mp hd).1
  have hlower : d.toLower = d := dif_neg (of_decide_eq_false hupper)
  have hhead : d = c := hlower ▸ (List.cons.inj hlist).1
  rw [hhead, hc] at hd
  cases hd

/-- A text that does not start with a letter is not coerced. -/
theorem Unlettered.handleSchemaProperty {text : String} (h : Unlettered text) (prop : SchemaProperty) :
    handleSchemaProperty prop text = text := by
  have htrue : text.toLower ≠ "true" := h.toLower_ne (c := 't') rfl
  have hfalse : text.toLower ≠ "false" := h.toLower_ne (c := 'f') rfl
  have hlower : text.toLower ≠ "null" := h.toLower_ne (c := 'n') rfl
  have hempty : text ≠ "" := by
    intro hgiven
    subst hgiven
    obtain ⟨c, rest, htext, _⟩ := h
    cases htext
  have hnull : text ≠ "NULL" := by
    intro hgiven
    subst hgiven
    exact hlower (toLower_eq (by decide))
  unfold Sqlserver.handleSchemaProperty
  simp only [htrue, hfalse, hlower, hempty, hnull, and_false, or_self, false_or, if_false]
  split
  · rfl
  · split
    · split
      · rename_i hone
        exact hone.symm
      · rfl
    · split
      · rfl
      · split <;> rfl

theorem quoteStringValue_unlettered {escape : String → String} {v text : String}
    (h : quoteStringValue escape v = .ok text) : Unlettered text := by
  unfold quoteStringValue at h
  split at h
  · cases h
    exact unlettered_quoted _
  · dsimp only at h
    split at h
    · cases h
    · split at h
      · cases h
        exact unlettered_quoted "1970-01-01 00:00:01"
      · cases h
        exact (Unlettered.append (Unlettered.append ⟨'\'', [], rfl, rfl⟩ _) _).append _

/-- Only `NULL` is coerced. -/
theorem quoteValue_handled {v : Json} {text : String} (h : quoteValue v = .ok text)
    (hv : v ≠ .null) (prop : SchemaProperty) : handleSchemaProperty prop text = text := by
  cases v with
  | null => exact absurd rfl hv
  | bool b =>
    cases h
    cases b
    · exact Unlettered.handleSchemaProperty ⟨'0', [], rfl, rfl⟩ prop
    · exact Unlettered.handleSchemaProperty ⟨'1', [], rfl, rfl⟩ prop
  | int n =>
    cases h
    exact (unlettered_toString n).handleSchemaProperty prop
  | float repr =>
    cases h
    rcases formatG_cases repr with hnan | hg
    · rw [hnan]
      unfold handleSchemaProperty
      simp [show "NaN".toLower = "nan" from toLower_eq (by decide)]
    · exact hg.handleSchemaProperty prop
  | str s => exact (quoteStringValue_unlettered h).handleSchemaProperty prop
  | arr vs =>
    cases h
    exact (unlettered_quoted _).handleSchemaProperty prop
  | obj fields =>
    cases h
    exact (unlettered_quoted _).handleSchemaProperty prop

/-! ## Columns that the insert coerces -/

/-- The columns where the insert and the update of one object write different values. -/
def Coerced (model : Schema) (o : List (String × Json)) (name : String) : Prop :=
  let prop := model.property name
  ((prop.type = "boolean" ∨ prop.type = "integer") ∧
    (o.lookup name = none ∨ o.lookup name = some .null)) ∨
  (prop.type = "array" ∧ prop.nullable = false ∧ o.lookup name = none)

/-- What the texts that the coercion tells apart are in the columns it is for. -/
structure Literals (engine : Engine V) (model : Schema) : Prop where
  null : ∀ c, engine.eval c "NULL" = none
  zero : ∀ c, (model.property c).type = "boolean" ∨ (model.property c).type = "integer" →
    engine.eval c "0" ≠ none
  empty : ∀ c, (model.property c).type = "array" → engine.eval c "''" ≠ none

section Texts

variable {model : Schema} {o : List (String × Json)} {name u : String}

theorem handleSchemaProperty_null (prop : SchemaProperty) :
    handleSchemaProperty prop "NULL" =
      if prop.type = "boolean" ∨ prop.type = "integer" then "0"
      else if prop.type = "array" ∧ prop.nullable = false then "''"
      else "NULL" := by
  have hlower : "NULL".toLower = "null" := toLower_eq (by decide)
  unfold handleSchemaProperty
  by_cases hobject : prop.type = "object"
  · simp [hobject]
  · by_cases hboolean : prop.type = "boolean"
    · simp [hboolean, hlower]
    · by_cases hinteger : prop.type = "integer"
      · simp [hinteger]
      · by_cases harray : prop.type = "array"
        · simp [harray]
        · simp [hobject, hboolean, hinteger, harray]

/-- Away from the id the insert writes the coerced text of the update. -/
theorem insertText_eq (hname : name ≠ "id") (hu : updateText model o name = .ok u) :
    insertText model o name = .ok (handleSchemaProperty (model.property name) u) := by
  unfold updateText at hu
  unfold insertText
  cases ho : o.lookup name with
  | none =>
    simp only [ho] at hu
    cases hu
    rfl
  | some v =>
    simp only [ho] at hu
    simp only [hu, if_neg hname]
    rfl

/-- A value that is there and is not null is not coerced. -/
theorem presentText_handled {v : Json} (hv : v ≠ .null) (h : presentText model v name = .ok u)
    (prop : SchemaProperty) : handleSchemaProperty prop u = u := by
  obtain ⟨text, htext, h⟩ := bind_eq_ok.mp h
  cases h
  unfold toJsonStringVal
  split
  · split
    · exact Unlettered.handleSchemaProperty ⟨'\'', _, rfl, rfl⟩ prop
    · exact Unlettered.handleSchemaProperty ⟨'\'', _, rfl, rfl⟩ prop
  · exact quoteValue_handled htext hv prop

theorem presentText_null : presentText model .null name =
    .ok (if (model.property name).isArrayOrJson && (model.property name).isNotNull then
      (if (model.property name).type == "array" then "'[]'" else "'\x7b\x7d'") else "NULL") := by
  simp [presentText, quoteValue, toJsonStringVal, isEmptyVal, bind, Except.bind, pure, Except.pure]

/-- A null that is there is coerced in boolean and integer columns. -/
theorem presentText_null_handled (h : presentText model .null name = .ok u) :
    u = "NULL" ∧ ((model.property name).type = "boolean" ∨ (model.property name).type = "integer") ∨
    handleSchemaProperty (model.property name) u = u ∧
      ¬((model.property name).type = "boolean" ∨ (model.property name).type = "integer") := by
  rw [presentText_null] at h
  generalize model.property name = prop at *
  by_cases htype : prop.type = "boolean" ∨ prop.type = "integer"
  · left
    have hjson : prop.isArrayOrJson = false := by
      rcases htype with h | h <;> simp [SchemaProperty.isArrayOrJson, h]
    simp only [hjson, Bool.false_and, Bool.false_eq_true, if_false] at h
    cases h
    exact ⟨rfl, htype⟩
  · right
    refine ⟨?_, htype⟩
    split at h
    · cases h
      split
      · exact Unlettered.handleSchemaProperty ⟨'\'', _, rfl, rfl⟩ prop
      · exact Unlettered.handleSchemaProperty ⟨'\'', _, rfl, rfl⟩ prop
    · rename_i hempty
      cases h
      rw [handleSchemaProperty_null, if_neg htype, if_neg]
      intro hgiven
      obtain ⟨harray, _⟩ := hgiven
      simp [SchemaProperty.isArrayOrJson, SchemaProperty.isNotNull, harray] at hempty

/-- What the coercion makes of the text of a column. -/
theorem handled_cases (hu : updateText model o name = .ok u) :
    (¬Coerced model o name ∧ handleSchemaProperty (model.property name) u = u) ∨
    (Coerced model o name ∧ u = "NULL" ∧
      ((((model.property name).type = "boolean" ∨ (model.property name).type = "integer") ∧
        handleSchemaProperty (model.property name) u = "0") ∨
      ((model.property name).type = "array" ∧
        handleSchemaProperty (model.property name) u = "''"))) := by
  cases ho : o.lookup name with
  | none =>
    simp only [updateText, ho] at hu
    cases hu
    rw [handleSchemaProperty_null]
    split
    · rename_i htype
      exact .inr ⟨.inl ⟨htype, .inl ho⟩, rfl, .inl ⟨htype, rfl⟩⟩
    · rename_i htype
      split
      · rename_i harray
        exact .inr ⟨.inr ⟨harray.1, harray.2, ho⟩, rfl, .inr ⟨harray.1, rfl⟩⟩
      · rename_i harray
        refine .inl ⟨?_, rfl⟩
        intro hgiven
        rcases hgiven with ⟨h, _⟩ | ⟨h, h', _⟩
        · exact htype h
        · exact harray ⟨h, h'⟩
  | some v =>
    simp only [updateText, ho] at hu
    by_cases hv : v = .null
    · subst hv
      rcases presentText_null_handled hu with ⟨rfl, htype⟩ | ⟨hhandled, htype⟩
      · rw [handleSchemaProperty_null, if_pos htype]
        exact .inr ⟨.inl ⟨htype, .inr ho⟩, rfl, .inl ⟨htype, rfl⟩⟩
      · refine .inl ⟨?_, hhandled⟩
        intro hgiven
        rcases hgiven with ⟨h, _⟩ | ⟨_, _, h⟩
        · exact htype h
        · rw [ho] at h
          cases h
    · refine .inl ⟨?_, presentText_handled hv hu _⟩
      intro hgiven
      rcases hgiven with ⟨_, h | h⟩ | ⟨_, _, h⟩
      · rw [ho] at h
        cases h
      · rw [ho] at h
        exact hv (Option.some.inj h)
      · rw [ho] at h
        cases h

theorem handled_iff {engine : Engine V} (hlit : Literals engine model)
    (hu : updateText model o name = .ok u) :
    engine.eval name u = engine.eval name (handleSchemaProperty (model.property name) u) ↔
      ¬Coerced model o name := by
  have hnull := hlit.null name
  rcases handled_cases hu with ⟨hcoerced, hsame⟩ | ⟨hcoerced, rfl, ⟨htype, hzero⟩ | ⟨htype, hempty⟩⟩
  · rw [hsame]
    exact iff_of_true rfl hcoerced
  · rw [hzero, hnull]
    exact iff_of_false (hlit.zero name htype).symm (not_not_intro hcoerced)
  · rw [hempty, hnull]
    exact iff_of_false (hlit.empty name htype).symm (not_not_intro hcoerced)

end Texts

/-! ## A merge run twice -/

section Twice

variable [DecidableEq V] {engine : Engine V} {m : Merge}

/-- The row that the insert of the merge puts. -/
def Merge.row (engine : Engine V) (m : Merge) : Row V := Row.assign engine m.inserts Row.blank

/-- The values of the two branches are the same for the columns of the update. -/
def Merge.Agrees (engine : Engine V) (m : Merge) : Prop :=
  ∀ s ∈ m.sets, Row.assign engine m.sets Row.blank s.1 = m.row engine s.1

omit [DecidableEq V] in
theorem assign_assign (sets : List (String × String)) (row : Row V) :
    Row.assign engine sets (Row.assign engine sets row) = Row.assign engine sets row := by
  funext c
  rw [Row.assign_eq_patch, Row.assign_eq_patch]
  cases Row.patch engine sets c <;> rfl

theorem Merge.exec_refused (hnodup : ¬(m.sets.map Prod.fst).Nodup) (t : Table V) :
    m.exec engine t = t := by
  simp only [Merge.exec, if_neg hnodup]

theorem Merge.exec_matched (hnodup : (m.sets.map Prod.fst).Nodup) {t : Table V} {k : V} {old : Row V}
    (hsets : ∀ s ∈ m.sets, s.1 ≠ "id") (hkey : engine.eval "id" m.sourceId = some k)
    (hold : t k = some old) :
    m.exec engine t = Function.update t k (some (Row.assign engine m.sets old)) := by
  simp only [Merge.exec, if_pos hnodup, hkey, hold]
  split
  · rename_i hempty
    rw [List.isEmpty_iff.mp hempty]
    exact (Function.update_eq_self_iff.mpr hold.symm).symm
  · exact Table.update_same (.inl hsets)

theorem Merge.exec_unmatched (hnodup : (m.sets.map Prod.fst).Nodup) {t : Table V}
    (h : ∀ k, engine.eval "id" m.sourceId = some k → t k = none) :
    m.exec engine t = t.insert (m.row engine) := by
  simp only [Merge.exec, if_pos hnodup]
  cases hkey : engine.eval "id" m.sourceId with
  | none => rfl
  | some k => simp only [h k hkey, Merge.row]

theorem insert_taken {t : Table V} {row : Row V} {k : V} (hkey : row "id" = some k)
    (htaken : (t k).isSome = true) : t.insert row = t := by
  simp [Table.insert, hkey, htaken]

/-- An insert is refused or takes a free key. -/
theorem insert_cases (t : Table V) (row : Row V) :
    t.insert row = t ∨
      ∃ k, row "id" = some k ∧ t k = none ∧ t.insert row = Function.update t k (some row) := by
  cases hkey : row "id" with
  | none => exact .inl (by simp [Table.insert, hkey])
  | some k =>
    cases htaken : t k with
    | some old => exact .inl (insert_taken hkey (by rw [htaken]; rfl))
    | none => exact .inr ⟨k, rfl, htaken, Table.insert_of_free hkey htaken⟩

/-- After an insert the same merge meets its own row, or is refused. -/
theorem Merge.exec_inserted (hnodup : (m.sets.map Prod.fst).Nodup)
    (hsets : ∀ s ∈ m.sets, s.1 ≠ "id") {t : Table V} {k : V}
    (hunmatched : ∀ k, engine.eval "id" m.sourceId = some k → t k = none)
    (hrow : m.row engine "id" = some k) :
    m.exec engine (Function.update t k (some (m.row engine))) =
      if engine.eval "id" m.sourceId = some k then
        Function.update t k (some (Row.assign engine m.sets (m.row engine)))
      else Function.update t k (some (m.row engine)) := by
  split
  · rename_i hkey
    rw [exec_matched hnodup hsets hkey (Function.update_self k _ t), Function.update_idem]
  · rename_i hkey
    rw [exec_unmatched hnodup, insert_taken hrow]
    · rw [Function.update_self]
      rfl
    · intro k' hk'
      have hne : k' ≠ k := by
        intro h
        subst h
        exact hkey hk'
      rw [Function.update_of_ne hne]
      exact hunmatched k' hk'

theorem Merge.twice_iff (hsets : ∀ s ∈ m.sets, s.1 ≠ "id") :
    (∀ t, m.exec engine (m.exec engine t) = m.exec engine t) ↔
      ((m.sets.map Prod.fst).Nodup → ∀ k, engine.eval "id" m.sourceId = some k →
        m.row engine "id" = some k → Row.assign engine m.sets (m.row engine) = m.row engine) := by
  by_cases hnodup : (m.sets.map Prod.fst).Nodup
  swap
  · refine iff_of_true (fun t => ?_) fun h => absurd h hnodup
    rw [exec_refused hnodup, exec_refused hnodup]
  rw [forall_prop_of_true hnodup]
  constructor
  · -- The first of the two finds no row.
    intro htwice k hkey hrow
    have hempty : ∀ k', engine.eval "id" m.sourceId = some k' →
        (fun _ => none : Table V) k' = none := fun _ _ => rfl
    have honce : m.exec engine (fun _ => none) =
        Function.update (fun _ => none) k (some (m.row engine)) := by
      rw [exec_unmatched hnodup hempty]
      exact Table.insert_of_free hrow rfl
    have hagain := congrFun (htwice fun _ => none) k
    rw [honce, exec_inserted hnodup hsets hempty hrow, if_pos hkey, Function.update_self,
      Function.update_self] at hagain
    exact Option.some.inj hagain
  · intro hagree t
    by_cases hmatched : ∃ k old, engine.eval "id" m.sourceId = some k ∧ t k = some old
    · obtain ⟨k, old, hkey, hold⟩ := hmatched
      rw [exec_matched hnodup hsets hkey hold,
        exec_matched hnodup hsets hkey (Function.update_self k _ t), assign_assign, Function.update_idem]
    · have hunmatched : ∀ k, engine.eval "id" m.sourceId = some k → t k = none := by
        intro k hkey
        cases hold : t k with
        | none => rfl
        | some old => exact absurd ⟨k, old, hkey, hold⟩ hmatched
      rw [exec_unmatched hnodup hunmatched]
      rcases insert_cases t (m.row engine) with hsame | ⟨k, hrow, _, hinsert⟩
      · rw [hsame, exec_unmatched hnodup hunmatched, hsame]
      · rw [hinsert, exec_inserted hnodup hsets hunmatched hrow]
        split
        · rename_i hkey
          rw [hagree k hkey hrow]
        · rfl

end Twice

/-! ## The statement of an event -/

section Built

variable {model : Schema} {o : List (String × Json)} {diff table : Json} {str : Json → String}
  {m : Merge}

/-- The columns that the update assigns. -/
def Assigned (model : Schema) (diff : Json) (name : String) : Prop :=
  ∃ names, assigned model diff = .ok names ∧ name ∈ names

/-- The update assigns no column twice. -/
def AssignedOnce (model : Schema) (diff : Json) : Prop :=
  ∀ names, assigned model diff = .ok names → names.Nodup

/-- The literal that the rows are matched by and the one that is inserted are the same id. -/
def SameId (engine : Engine V) (str : Json → String) (model : Schema) (o : List (String × Json)) :
    Prop :=
  "id" ∈ model.columns ∧ ∃ v text k, o.lookup "id" = some v ∧ presentText model v "id" = .ok text ∧
    engine.eval "id" ("'" ++ str v ++ "'") = some k ∧ engine.eval "id" text = some k

theorem assigned_spec {names : List String} (h : assigned model diff = .ok names) {name : String}
    (hname : name ∈ names) : name ∈ model.columns ∧ name ≠ "id" := by
  have hfilter : ∃ all : List String,
      names = all.filter fun name => model.columns.contains name && name != "id" := by
    unfold assigned at h
    split at h
    · simp only [pure_bind] at h
      cases h
      exact ⟨_, rfl⟩
    · obtain ⟨all, _, h⟩ := bind_eq_ok.mp h
      cases h
      exact ⟨all, rfl⟩
  obtain ⟨all, rfl⟩ := hfilter
  simpa using (List.mem_filter.mp hname).2

/-- What the builder has put in a merge: the text of each column in its two lists. -/
structure Merge.Texts (str : Json → String) (model : Schema) (o : List (String × Json)) (diff : Json)
    (m : Merge) (names : List String) (update insert : String → String) : Prop where
  assigned : assigned model diff = .ok names
  source : ∃ v, o.lookup "id" = some v ∧ m.sourceId = "'" ++ str v ++ "'"
  sets : m.sets = names.map fun name => (name, update name)
  update : ∀ name ∈ names, updateText model o name = .ok (update name)
  inserts : m.inserts = model.columns.map fun name => (name, insert name)
  insert : ∀ name ∈ model.columns, insertText model o name = .ok (insert name)

theorem toSqlFromObject_texts (h : toSqlFromObject str model table o diff = .ok (.merge m)) :
    ∃ names update insert, m.Texts str model o diff names update insert := by
  rw [toSqlFromObject] at h
  obtain ⟨names, hnames, h⟩ := bind_eq_ok.mp h
  obtain ⟨sets, hsets, h⟩ := bind_eq_ok.mp h
  obtain ⟨inserts, hinserts, h⟩ := bind_eq_ok.mp h
  obtain ⟨name, _, h⟩ := bind_eq_ok.mp h
  obtain ⟨update, rfl, hupdate⟩ := mapM_pair hsets
  obtain ⟨insert, rfl, hinsert⟩ := mapM_pair hinserts
  cases hv : o.lookup "id" with
  | none =>
    rw [hv] at h
    cases h
  | some v =>
    rw [hv] at h
    cases h
    exact ⟨names, update, insert, hnames, ⟨v, hv, rfl⟩, rfl, hupdate, rfl, hinsert⟩

namespace Merge.Texts

variable {names : List String} {update insert : String → String}
  (h : m.Texts str model o diff names update insert)

include h

theorem assigned_iff (name : String) : Assigned model diff name ↔ name ∈ names := by
  constructor
  · intro hgiven
    obtain ⟨names', hnames', hmem⟩ := hgiven
    rw [h.assigned] at hnames'
    cases hnames'
    exact hmem
  · exact fun hmem => ⟨names, h.assigned, hmem⟩

theorem sets_nodup : (m.sets.map Prod.fst).Nodup ↔ AssignedOnce model diff := by
  have hnames : (names.map fun name => (name, update name)).map Prod.fst = names := by
    rw [List.map_map]
    exact List.map_id names
  rw [h.sets, hnames]
  constructor
  · intro hnodup names' hnames'
    rw [h.assigned] at hnames'
    cases hnames'
    exact hnodup
  · exact fun honce => honce names h.assigned

theorem sets_ne : ∀ s ∈ m.sets, s.1 ≠ "id" := by
  intro s hs
  rw [h.sets] at hs
  obtain ⟨name, hname, rfl⟩ := List.mem_map.mp hs
  exact (assigned_spec h.assigned hname).2

variable {engine : Engine V}

theorem row_eq (c : String) :
    m.row engine c = if c ∈ model.columns then engine.eval c (insert c) else none := by
  rw [Merge.row, h.inserts, Row.assign_map]
  rfl

theorem assign_sets (row : Row V) (c : String) :
    Row.assign engine m.sets row c = if c ∈ names then engine.eval c (update c) else row c := by
  rw [h.sets, Row.assign_map]

/-- The two values of a column that is assigned are the same if it is not coerced. -/
theorem column_iff (hlit : Literals engine model) {name : String} (hname : name ∈ names) :
    engine.eval name (update name) = m.row engine name ↔ ¬Coerced model o name := by
  obtain ⟨hcol, hne⟩ := assigned_spec h.assigned hname
  have hinsert := h.insert name hcol
  rw [insertText_eq hne (h.update name hname)] at hinsert
  rw [h.row_eq, if_pos hcol, ← Except.ok.inj hinsert]
  exact handled_iff hlit (h.update name hname)

theorem columns_iff (hlit : Literals engine model) :
    (∀ name ∈ names, engine.eval name (update name) = m.row engine name) ↔
      ∀ name, Assigned model diff name → ¬Coerced model o name := by
  refine forall_congr' fun name => ?_
  rw [h.assigned_iff]
  exact ⟨fun hname hmem => (h.column_iff hlit hmem).mp (hname hmem),
    fun hname hmem => (h.column_iff hlit hmem).mpr (hname hmem)⟩

theorem agrees_iff : m.Agrees engine ↔
    ∀ name ∈ names, engine.eval name (update name) = m.row engine name := by
  unfold Merge.Agrees
  rw [h.sets, List.forall_mem_map]
  refine forall₂_congr fun name hname => ?_
  rw [Row.assign_map, if_pos hname]

theorem kept_iff : Row.assign engine m.sets (m.row engine) = m.row engine ↔
    ∀ name ∈ names, engine.eval name (update name) = m.row engine name := by
  rw [funext_iff]
  refine forall_congr' fun c => ?_
  rw [h.assign_sets]
  by_cases hc : c ∈ names
  · simp [hc]
  · simp [hc]

theorem sameId_iff : SameId engine str model o ↔
    ∃ k, engine.eval "id" m.sourceId = some k ∧ m.row engine "id" = some k := by
  obtain ⟨v, hv, hsource⟩ := h.source
  have hinsert : ∀ text, insertText model o "id" = .ok text ↔ presentText model v "id" = .ok text := by
    intro text
    simp [insertText, hv]
  rw [hsource, h.row_eq]
  constructor
  · intro hgiven
    obtain ⟨hcol, v', text, k, hv', htext, hsource, hrow⟩ := hgiven
    rw [hv] at hv'
    cases hv'
    have htext' := h.insert "id" hcol
    rw [(hinsert text).mpr htext] at htext'
    cases htext'
    exact ⟨k, hsource, by rw [if_pos hcol, hrow]⟩
  · intro hgiven
    obtain ⟨k, hsource, hrow⟩ := hgiven
    by_cases hcol : "id" ∈ model.columns
    · rw [if_pos hcol] at hrow
      exact ⟨hcol, v, insert "id", k, hv, (hinsert _).mp (h.insert "id" hcol), hsource, hrow⟩
    · rw [if_neg hcol] at hrow
      cases hrow

end Merge.Texts

/-- The two branches agree if the update assigns no coerced column, and only then does a
merge that is not refused and meets the row it inserted leave it as it is. -/
theorem merge_redelivery_iff [DecidableEq V] (engine : Engine V) (hlit : Literals engine model)
    (h : toSqlFromObject str model table o diff = .ok (.merge m)) :
    (m.Agrees engine ↔ ∀ name, Assigned model diff name → ¬Coerced model o name) ∧
    ((∀ t, m.exec engine (m.exec engine t) = m.exec engine t) ↔
      (AssignedOnce model diff → SameId engine str model o →
        ∀ name, Assigned model diff name → ¬Coerced model o name)) := by
  obtain ⟨names, update, insert, htexts⟩ := toSqlFromObject_texts h
  rw [htexts.agrees_iff, htexts.columns_iff hlit, Merge.twice_iff htexts.sets_ne, htexts.sets_nodup,
    htexts.sameId_iff, htexts.kept_iff, htexts.columns_iff hlit]
  exact ⟨Iff.rfl, fun h honce ⟨k, hsource, hrow⟩ => h honce k hsource hrow,
    fun h honce k hsource hrow => h honce ⟨k, hsource, hrow⟩⟩

end Built

section Counted

/-- A schema with a count. -/
def counted : Schema where
  properties := ⟨[("id", ⟨"string", "", false, none⟩), ("count", ⟨"integer", "", true, none⟩)],
    by decide⟩
  primaryKeys := ["id"]
  table := "order"
  modelVersion := "v1"

theorem counted_columns : counted.columns = ["id", "count"] := by
  simp [Schema.columns, counted, Dict.keys]

/-- An order with its count. -/
def order (count : Json) : List (String × Json) := [("id", .str "o1"), ("count", count)]

/-- Python's `str` of a string. -/
def strOf : Json → String
  | .str s => s
  | _ => ""

def orderMerge (update insert : String) : Merge where
  table := "order"
  sourceId := "'o1'"
  sets := [("count", update)]
  inserts := [("id", "'o1'"), ("count", insert)]

theorem order_null : toSqlFromObject strOf counted (.str "order") (order .null) .null =
    .ok (.merge (orderMerge "NULL" "0")) := by
  simp only [toSqlFromObject, assigned, counted_columns]
  rfl

theorem order_five : toSqlFromObject strOf counted (.str "order") (order (.int 5)) .null =
    .ok (.merge (orderMerge "5" "5")) := by
  simp only [toSqlFromObject, assigned, counted_columns]
  rfl

theorem counted_literals : Literals Engine.textual counted where
  null _ := rfl
  zero _ _ := by simp [Engine.textual]
  empty _ _ := by simp [Engine.textual]

/-- A count of null is inserted as zero, and is null once the insert is delivered again. -/
theorem merge_redelivery_null_count :
    ∃ m, toSqlFromObject strOf counted (.str "order") (order .null) .null = .ok (.merge m) ∧
      ¬m.Agrees Engine.textual ∧
      ((m.exec Engine.textual fun _ => none) "'o1'").map (fun row => row "count") = some (some "0") ∧
      ((m.exec Engine.textual (m.exec Engine.textual fun _ => none)) "'o1'").map
        (fun row => row "count") = some none := by
  refine ⟨orderMerge "NULL" "0", order_null, ?_, by decide, by decide⟩
  intro hagrees
  have hcount := hagrees ("count", "NULL") List.mem_cons_self
  revert hcount
  decide

theorem merge_redelivery_iff_five :
    ∃ m, toSqlFromObject strOf counted (.str "order") (order (.int 5)) .null = .ok (.merge m) ∧
      Literals Engine.textual counted ∧ m.Agrees Engine.textual ∧
      ∀ t, m.exec Engine.textual (m.exec Engine.textual t) = m.exec Engine.textual t := by
  have hall := merge_redelivery_iff Engine.textual counted_literals order_five
  have hcoerced : ∀ name, Assigned counted .null name → ¬Coerced counted (order (.int 5)) name := by
    intro name h
    obtain ⟨names, hnames, hname⟩ := h
    simp only [assigned, counted_columns] at hnames
    cases hnames
    obtain rfl : name = "count" := by simpa using hname
    have hcount : (order (.int 5)).lookup "count" = some (.int 5) := rfl
    simp [Coerced, hcount]
  exact ⟨orderMerge "5" "5", order_five, counted_literals, hall.1.mpr hcoerced,
    hall.2.mpr fun _ _ => hcoerced⟩

end Counted

end Sqlserver
end Drivers
end Eds
