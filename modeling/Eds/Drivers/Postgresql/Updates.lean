import Eds.Drivers.Postgresql.Sql
import Eds.Drivers.Lexing
import Eds.Collections.Traverse

/-!
# The list that a PostgreSQL update sets

The columns are those of the diff that the schema has, as often as the diff names them.  One
that the object does not have is written as its value alone, which no assignment is.
-/

namespace Eds
namespace Drivers
namespace Postgresql

open Util Collections

variable {model : Schema} {o : List (String × Json)} {names : List String}

/-- The columns that the names stand for. -/
def picked (model : Schema) (names : List String) : List String :=
  names.filter fun name => model.columns.contains name && name != "id"

theorem mem_picked {name : String} :
    name ∈ picked model names ↔ name ∈ names ∧ name ∈ model.columns ∧ name ≠ "id" := by
  simp [picked, List.mem_filter]

/-- A column of the schema other than the id, and what it is set to. -/
def IsAssignment (model : Schema) (element : String) : Prop :=
  ∃ name ∈ model.columns, name ≠ "id" ∧ ∃ value, element = quoteIdentifier name ++ "=" ++ value

def SetItem.column? : SetItem → Option String
  | .set name _ => some name
  | .bare _ => none

/-- Every element is an assignment, and no column is assigned twice. -/
structure Grammatical (model : Schema) (sets : List SetItem) : Prop where
  assignments : ∀ item ∈ sets, IsAssignment model item.render
  once : (sets.filterMap SetItem.column?).Nodup

/-! ## What an element is -/

def bareTexts : List String := ["NULL", "'[]'", "'\x7b\x7d'"]

theorem absent_mem_bareTexts (prop : SchemaProperty) : toJsonStringVal "NULL" prop true ∈ bareTexts := by
  rw [toJsonStringVal_null, bareTexts]
  split
  · split <;> simp
  · exact List.mem_cons_self

/-- A bare value does not start like a name. -/
theorem not_isAssignment {text : String} (h : text ∈ bareTexts) : ¬IsAssignment model text := by
  intro hgiven
  obtain ⟨name, _, _, value, heq⟩ := hgiven
  have hhead : text.toList.head? = some '"' := by
    rw [heq, quoteIdentifier]
    simp only [String.toList_append, List.append_assoc]
    rfl
  simp only [bareTexts, List.mem_cons, List.not_mem_nil, or_false] at h
  rcases h with rfl | rfl | rfl <;> cases hhead

/-- How a column that the diff names is written. -/
def setItem (model : Schema) (o : List (String × Json)) (name : String) : SetItem :=
  match o.lookup name with
  | some v => .set name (presentText model v name)
  | none => .bare (toJsonStringVal "NULL" (model.property name) true)

theorem updateSets_eq : updateSets model o names = (picked model names).map (setItem model o) := rfl

theorem setItem_some {name : String} {v : Json} (h : o.lookup name = some v) :
    setItem model o name = .set name (presentText model v name) := by
  rw [setItem, h]

theorem setItem_none (model : Schema) {name : String} (h : o.lookup name = none) :
    ∃ text ∈ bareTexts, setItem model o name = .bare text :=
  ⟨_, absent_mem_bareTexts (model.property name), by rw [setItem, h]⟩

theorem isAssignment_iff {name : String} (hname : name ∈ picked model names) :
    IsAssignment model (setItem model o name).render ↔ (o.lookup name).isSome = true := by
  cases h : o.lookup name with
  | none =>
    obtain ⟨text, htext, hitem⟩ := setItem_none model h
    rw [hitem]
    exact iff_of_false (not_isAssignment htext) (by decide)
  | some v =>
    obtain ⟨_, hcol, hid⟩ := mem_picked.mp hname
    rw [setItem_some h]
    exact iff_of_true ⟨name, hcol, hid, _, rfl⟩ rfl

theorem columns_updateSets (h : ∀ name ∈ picked model names, (o.lookup name).isSome = true) :
    (updateSets model o names).filterMap SetItem.column? = picked model names := by
  have hcolumn : ∀ name ∈ picked model names, SetItem.column? (setItem model o name) = some name := by
    intro name hname
    obtain ⟨v, hv⟩ := Option.isSome_iff_exists.mp (h name hname)
    rw [setItem_some hv]
    rfl
  rw [updateSets_eq, List.filterMap_map]
  exact (List.filterMap_congr hcolumn).trans List.filterMap_some

theorem updateSets_grammatical_iff : Grammatical model (updateSets model o names) ↔
    (∀ name ∈ picked model names, (o.lookup name).isSome = true) ∧ (picked model names).Nodup := by
  have hall : (∀ item ∈ updateSets model o names, IsAssignment model item.render) ↔
      ∀ name ∈ picked model names, (o.lookup name).isSome = true := by
    rw [updateSets_eq, List.forall_mem_map]
    exact forall₂_congr fun name hname => isAssignment_iff hname
  constructor
  · intro h
    have hpresent := hall.mp h.assignments
    exact ⟨hpresent, columns_updateSets hpresent ▸ h.once⟩
  · intro hgiven
    obtain ⟨hpresent, honce⟩ := hgiven
    exact ⟨hall.mpr hpresent, (columns_updateSets hpresent).symm ▸ honce⟩

/-! ## Columns that a migration adds -/

/-- `if col not in evt.diff: evt.diff.append(col)` -/
def addName (names : List String) (c : String) : List String :=
  if c ∈ names then names else names ++ [c]

theorem picked_append (names more : List String) :
    picked model (names ++ more) = picked model names ++ picked model more := List.filter_append ..

theorem nodup_picked_addName {c : String} (h : (picked model names).Nodup) :
    (picked model (addName names c)).Nodup := by
  unfold addName
  split
  · exact h
  · rename_i hc
    rw [picked_append, List.nodup_append]
    refine ⟨h, (List.nodup_singleton c).filter _, ?_⟩
    intro a ha b hb hab
    subst hab
    have hac : a = c := List.mem_singleton.mp (mem_picked.mp hb).1
    exact hc (hac ▸ (mem_picked.mp ha).1)

theorem nodup_picked_foldl {cols : List String} (h : (picked model names).Nodup) :
    (picked model (cols.foldl addName names)).Nodup := by
  induction cols generalizing names with
  | nil => exact h
  | cons c rest ih => exact ih (nodup_picked_addName h)

/-- The names among the values of a list. -/
def nameOf : Json → Option String
  | .str s => some s
  | _ => none

theorem eqStr_iff {v : Json} {c : String} : v.eqStr c = true ↔ nameOf v = some c := by
  cases v with
  | str s => simp [Json.eqStr, nameOf]
  | _ => simp [Json.eqStr, nameOf]

theorem diffNames_arr (vs : List Json) : diffNames (.arr vs) = .ok (vs.filterMap nameOf) := by
  cases vs with
  | nil => rfl
  | cons v rest => rfl

theorem foldl_addName (cols : List String) (vs : List Json) :
    (cols.foldl (fun acc c => if acc.any fun v => v.eqStr c then acc else acc ++ [.str c]) vs).filterMap
        nameOf = cols.foldl addName (vs.filterMap nameOf) := by
  induction cols generalizing vs with
  | nil => rfl
  | cons c rest ih =>
    rw [List.foldl_cons, List.foldl_cons, ih]
    have hmem : (vs.any fun v => v.eqStr c) = true ↔ c ∈ vs.filterMap nameOf := by
      simp [List.any_eq_true, List.mem_filterMap, eqStr_iff]
    have hstep : (if vs.any fun v => v.eqStr c then vs else vs ++ [.str c]).filterMap nameOf =
        addName (vs.filterMap nameOf) c := by
      unfold addName
      by_cases hc : c ∈ vs.filterMap nameOf
      · rw [if_pos hc, if_pos (hmem.mpr hc)]
      · rw [if_neg hc, if_neg (hmem.not.mpr hc), List.filterMap_append]
        rfl
    rw [hstep]

theorem nodup_eraseDups (cols : List String) : cols.eraseDups.Nodup := by
  induction hn : cols.length using Nat.strong_induction_on generalizing cols with
  | _ n ih =>
    cases cols with
    | nil => exact List.nodup_nil
    | cons c rest =>
      have hlength := List.length_filter_le (fun b => !b == c) rest
      rw [List.length_cons] at hn
      rw [List.eraseDups_cons, List.nodup_cons, List.mem_eraseDups]
      refine ⟨?_, ih _ (by omega) _ rfl⟩
      simp

/-- The columns that are added do not make the diff name one twice. -/
theorem nodup_extendDiff {cols before' names' : List String} {before diff : Json}
    (h : extendDiff cols before = .ok diff) (hbefore : diffNames before = .ok before')
    (hdiff : diffNames diff = .ok names') (hnodup : (picked model before').Nodup) :
    (picked model names').Nodup := by
  have hsame : diff = before → (picked model names').Nodup := by
    intro hgiven
    subst hgiven
    rw [hbefore] at hdiff
    cases hdiff
    exact hnodup
  cases before with
  | null =>
    cases h
    rw [diffNames_arr, List.filterMap_map] at hdiff
    cases hdiff
    refine List.Nodup.filter _ ?_
    rw [show nameOf ∘ Json.str = some from rfl, List.filterMap_some]
    exact nodup_eraseDups cols
  | arr vs =>
    cases h
    rw [diffNames_arr, foldl_addName] at hdiff
    rw [diffNames_arr] at hbefore
    cases hdiff
    cases hbefore
    exact nodup_picked_foldl hnodup
  | str s =>
    rw [extendDiff] at h
    split at h
    · cases h
      exact hsame rfl
    · cases h
  | obj fields =>
    rw [extendDiff] at h
    split at h
    · cases h
      exact hsame rfl
    · cases h
  | bool b => cases h
  | int n => cases h
  | float text => cases h

/-! ## The list of an update -/

/-- An element is an assignment of a column that the diff names and the object has, or the
default value of one that it does not have.  The list is grammatical if each column of the diff
is in the object and is named once; the columns of a migration are named once. -/
theorem update_grammatical_iff {table diff : Json} {name : String} {values : List (String × String)}
    {sets : List SetItem}
    (h : toSqlFromObject (.str "UPDATE") model table o diff = .ok (.upsert name values sets)) :
    ∃ names, diffNames diff = .ok names ∧
      (∀ item ∈ sets, ∃ c ∈ picked model names,
        (∃ v, o.lookup c = some v ∧ item = .set c (presentText model v c)) ∨
          (o.lookup c = none ∧ ∃ text ∈ bareTexts, item = .bare text)) ∧
      (Grammatical model sets ↔
        (∀ c ∈ picked model names, (o.lookup c).isSome = true) ∧ (picked model names).Nodup) ∧
      ∀ cols before names₀, extendDiff cols before = .ok diff → diffNames before = .ok names₀ →
        (picked model names₀).Nodup → (picked model names).Nodup := by
  have hupdate : (Json.str "UPDATE").eqStr "UPDATE" = true := by decide
  rw [toSqlFromObject, if_pos hupdate] at h
  obtain ⟨names, hnames, h⟩ := bind_eq_ok.mp h
  obtain ⟨sets', hsets, h⟩ := bind_eq_ok.mp h
  obtain ⟨table', _, h⟩ := bind_eq_ok.mp h
  cases hsets
  cases h
  refine ⟨names, hnames, ?_, updateSets_grammatical_iff, fun cols before names₀ hextend hbefore =>
    nodup_extendDiff hextend hbefore hnames⟩
  rw [updateSets_eq, List.forall_mem_map]
  intro c hc
  refine ⟨c, hc, ?_⟩
  cases hv : o.lookup c with
  | none => exact .inr ⟨rfl, setItem_none model hv⟩
  | some v => exact .inl ⟨v, rfl, setItem_some hv⟩

/-- A schema whose nick names are new. -/
def nicknamed : Schema where
  properties := ⟨[("id", ⟨"string", "", false, none⟩), ("nick", ⟨"string", "", true, none⟩)],
    by decide⟩
  primaryKeys := ["id"]
  table := "user"
  modelVersion := "v2"

theorem nicknamed_columns : nicknamed.columns = ["id", "nick"] := by
  simp [Schema.columns, nicknamed, Dict.keys]

theorem picked_nicknamed : picked nicknamed ["nick"] = ["nick"] := by
  rw [picked, nicknamed_columns]
  decide

/-- A change of a user that was made before users had nick names. -/
theorem update_bare :
    ∃ diff name values, extendDiff ["nick"] .null = .ok diff ∧
      toSqlFromObject (.str "UPDATE") nicknamed (.str "user") [("id", .str "u1")] diff =
        .ok (.upsert name values [.bare "NULL"]) ∧ ¬Grammatical nicknamed [.bare "NULL"] := by
  have hsets : updateSets nicknamed [("id", .str "u1")] ["nick"] = [.bare "NULL"] := by
    rw [updateSets_eq, picked_nicknamed]
    show [SetItem.bare (toJsonStringVal "NULL" (nicknamed.property "nick") true)] = _
    rw [toJsonStringVal_null]
    rfl
  have hrun : toSqlFromObject (.str "UPDATE") nicknamed (.str "user") [("id", .str "u1")]
      (.arr [.str "nick"]) = .ok (.upsert "user"
        (nicknamed.columns.map fun c => (c, columnText nicknamed [("id", .str "u1")] c))
        (updateSets nicknamed [("id", .str "u1")] ["nick"])) := rfl
  rw [hsets] at hrun
  refine ⟨.arr [.str "nick"], "user", _, rfl, hrun, fun h => ?_⟩
  · exact not_isAssignment List.mem_cons_self (h.assignments _ List.mem_cons_self)

theorem update_grammatical_iff_nick :
    ∃ sets, (∃ name values, toSqlFromObject (.str "UPDATE") nicknamed (.str "user")
        [("id", .str "u1"), ("nick", .str "U")] (.arr [.str "nick"]) = .ok (.upsert name values sets)) ∧
      Grammatical nicknamed sets := by
  have hrun : ∃ name values sets, toSqlFromObject (.str "UPDATE") nicknamed (.str "user")
      [("id", .str "u1"), ("nick", .str "U")] (.arr [.str "nick"]) = .ok (.upsert name values sets) :=
    ⟨_, _, _, rfl⟩
  obtain ⟨name, values, sets, h⟩ := hrun
  obtain ⟨names, hnames, -, hiff, -⟩ := update_grammatical_iff h
  cases hnames
  refine ⟨sets, ⟨name, values, h⟩, hiff.mpr ?_⟩
  rw [show (List.filterMap _ _ : List String) = ["nick"] from rfl, picked_nicknamed]
  exact ⟨by decide, by decide⟩

end Postgresql
end Drivers
end Eds
