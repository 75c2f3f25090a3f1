import Eds.Event
import Mathlib.Logic.Function.Basic

/-!
# Tables keyed by id

What the statements of the builders mean.  A value is `none` for `NULL`, a row gives
each column a value, and a table has at most one row for each `id`.  How an engine
reads the text of a literal in a column, and which of two dates it takes for the
later one, are parameters of the development.

A statement that an engine refuses leaves the table as it was.  A second row for an
`id`, and a row without one, are refused.  A column that is assigned twice takes the
values in turn; the builders repeat a column only with the same text.
-/

namespace Eds
namespace Drivers

variable {V : Type}

structure Engine (V : Type) where
  eval : String → String → Option V
  newer : Option V → Option V → Bool

abbrev Row (V : Type) := String → Option V

abbrev Table (V : Type) := V → Option (Row V)

namespace Row

def blank : Row V := fun _ => none

/-- `SET column = text, …` -/
def assign (engine : Engine V) (sets : List (String × String)) (row : Row V) : Row V :=
  sets.foldl (fun row s => Function.update row s.1 (engine.eval s.1 s.2)) row

/-- The value that a list of assignments gives a column, if it names it. -/
def patch (engine : Engine V) : List (String × String) → String → Option (Option V)
  | [], _ => none
  | s :: rest, c =>
    (patch engine rest c).or (if s.1 = c then some (engine.eval s.1 s.2) else none)

theorem assign_eq_patch (engine : Engine V) (sets : List (String × String)) (row : Row V)
    (c : String) : assign engine sets row c = (patch engine sets c).getD (row c) := by
  induction sets generalizing row with
  | nil => rfl
  | cons s rest ih =>
    refine (ih _).trans ?_
    rw [patch]
    cases patch engine rest c with
    | some v => rfl
    | none =>
      by_cases hs : s.1 = c
      · subst hs
        simp
      · simp [hs, Function.update_of_ne (Ne.symm hs)]

theorem patch_map (engine : Engine V) (text : String → String) (names : List String) (c : String) :
    patch engine (names.map fun name => (name, text name)) c =
      if c ∈ names then some (engine.eval c (text c)) else none := by
  induction names with
  | nil => rfl
  | cons name rest ih =>
    rw [List.map_cons, patch, ih]
    by_cases hrest : c ∈ rest
    · simp [hrest]
    · by_cases hname : name = c
      · subst hname
        simp [hrest]
      · simp [hrest, hname, Ne.symm hname]

/-- The texts of the columns depend on the columns only. -/
theorem assign_map (engine : Engine V) (text : String → String) (names : List String) (row : Row V)
    (c : String) : assign engine (names.map fun name => (name, text name)) row c =
      if c ∈ names then engine.eval c (text c) else row c := by
  rw [assign_eq_patch, patch_map]
  split <;> rfl

end Row

namespace Table

variable [DecidableEq V]

def insert (row : Row V) (t : Table V) : Table V :=
  match row "id" with
  | none => t
  | some k => if (t k).isSome then t else Function.update t k (some row)

def delete (key : Option V) (t : Table V) : Table V :=
  match key with
  | none => t
  | some k => Function.update t k none

/-- `DELETE … WHERE column = text AND …`.  `NULL` equals nothing, and without a
condition the statement is not complete. -/
def deleteWhere (engine : Engine V) (conds : List (String × String)) (t : Table V) : Table V :=
  if conds = [] then t
  else fun k => (t k).filter fun row => !conds.all fun c =>
    match engine.eval c.1 c.2 with
    | none => false
    | some v => decide (some v = if c.1 = "id" then some k else row c.1)

/-- The row of that `id` in place of any other. -/
def replace (row : Row V) (t : Table V) : Table V :=
  match row "id" with
  | none => t
  | some k => Function.update t k (some row)

/-- `UPDATE SET` on the row `old` of `k`.  If the list assigns the id, the row goes to
its new key. -/
def update (engine : Engine V) (sets : List (String × String)) (k : V) (old : Row V) (t : Table V) :
    Table V :=
  let row := Row.assign engine sets old
  if sets.any fun s => s.1 == "id" then
    match row "id" with
    | none => t
    | some k' =>
      if k' = k then Function.update t k (some row)
      else if (t k').isSome then t
      else Function.update (Function.update t k none) k' (some row)
  else Function.update t k (some row)

theorem insert_of_free {row : Row V} {t : Table V} {k : V} (hkey : row "id" = some k)
    (hfree : t k = none) : t.insert row = Function.update t k (some row) := by
  simp [insert, hkey, hfree]

/-- A row that keeps its id stays where it is. -/
theorem update_same {engine : Engine V} {sets : List (String × String)} {k : V} {old : Row V}
    {t : Table V} (h : (∀ s ∈ sets, s.1 ≠ "id") ∨ Row.assign engine sets old "id" = some k) :
    t.update engine sets k old = Function.update t k (some (Row.assign engine sets old)) := by
  rcases h with h | h
  · have hnone : (sets.any fun s => s.1 == "id") = false := by
      simpa using h
    simp [update, hnone]
  · simp [update, h]

theorem deleteWhere_id (engine : Engine V) (text : String) (t : Table V) :
    t.deleteWhere engine [("id", text)] = t.delete (engine.eval "id" text) := by
  rw [deleteWhere, if_neg (List.cons_ne_nil _ _)]
  funext k
  cases hkey : engine.eval "id" text with
  | none => cases ht : t k <;> simp [delete, hkey, ht]
  | some v =>
    by_cases hk : k = v
    · subst hk
      cases ht : t k <;> simp [delete, hkey]
    · cases ht : t k <;> simp [delete, hkey, Ne.symm hk, Function.update_of_ne hk, ht]

end Table

/-! ## A small engine and a small schema -/

/-- A value is the text of its literal. -/
def Engine.textual : Engine String where
  eval _ text := if text = "NULL" ∨ text = "null" then none else some text
  newer a b :=
    match a, b with
    | some a, some b => decide (b < a)
    | _, _ => false

def users : Schema where
  properties := ⟨[("id", ⟨"string", "", false, none⟩), ("name", ⟨"string", "", true, none⟩),
    ("updatedDate", ⟨"string", "date-time", true, none⟩)], by decide⟩
  primaryKeys := ["id"]
  table := "user"
  modelVersion := "v1"

theorem users_columns : users.columns = ["id", "name", "updatedDate"] := by
  simp [Schema.columns, users, Collections.Dict.keys, List.mergeSort]

end Drivers
end Eds
