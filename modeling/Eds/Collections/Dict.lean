import Mathlib.Data.List.Nodup

/-!
# Insertion-ordered dictionaries

A `Dict` is an association list together with the fact that no key occurs twice,
so that a lookup, the key list and the item list agree with each other.
-/

namespace Eds
namespace Collections

structure Dict (κ ν : Type) where
  items : List (κ × ν)
  nodup : (items.map Prod.fst).Nodup
  deriving DecidableEq

namespace Dict

variable {κ ν : Type}

def keys (d : Dict κ ν) : List κ := d.items.map Prod.fst

def empty : Dict κ ν := ⟨[], List.nodup_nil⟩

theorem keys_nodup (d : Dict κ ν) : d.keys.Nodup := d.nodup

theorem mem_keys {d : Dict κ ν} {k : κ} : k ∈ d.keys ↔ ∃ v, (k, v) ∈ d.items := by
  constructor
  · intro h
    obtain ⟨⟨k', v⟩, hmem, rfl⟩ := List.mem_map.mp h
    exact ⟨v, hmem⟩
  · intro hgiven
    obtain ⟨v, hmem⟩ := hgiven
    exact List.mem_map.mpr ⟨(k, v), hmem, rfl⟩

variable [DecidableEq κ]

def get? (d : Dict κ ν) (k : κ) : Option ν := d.items.lookup k

theorem get?_eq_some {d : Dict κ ν} {k : κ} {v : ν} : d.get? k = some v ↔ (k, v) ∈ d.items := by
  obtain ⟨items, hnodup⟩ := d
  show items.lookup k = some v ↔ (k, v) ∈ items
  induction items with
  | nil => simp
  | cons entry rest ih =>
    obtain ⟨k', v'⟩ := entry
    have hrest := List.nodup_cons.mp hnodup
    rw [List.lookup_cons, List.mem_cons, Prod.mk.injEq]
    by_cases hk : k = k'
    · subst hk
      have hfresh : (k, v) ∉ rest := fun hmem => hrest.1 (List.mem_map.mpr ⟨(k, v), hmem, rfl⟩)
      simp [hfresh, eq_comm]
    · rw [beq_false_of_ne hk, ih hrest.2]
      simp [hk]

/-- `d[k] = v`: a key that is there keeps its place. -/
def insertItem (k : κ) (v : ν) : List (κ × ν) → List (κ × ν)
  | [] => [(k, v)]
  | (k', v') :: rest => if k' = k then (k, v) :: rest else (k', v') :: insertItem k v rest

theorem keys_insertItem (k : κ) (v : ν) (items : List (κ × ν)) :
    (insertItem k v items).map Prod.fst =
      if k ∈ items.map Prod.fst then items.map Prod.fst else items.map Prod.fst ++ [k] := by
  induction items with
  | nil => rfl
  | cons entry rest ih =>
    obtain ⟨k', v'⟩ := entry
    by_cases hk : k' = k
    · subst hk
      simp [insertItem]
    · have hk' : k ≠ k' := fun h => hk h.symm
      rw [insertItem, if_neg hk, List.map_cons, ih]
      by_cases hmem : k ∈ rest.map Prod.fst
      · rw [if_pos hmem, List.map_cons, if_pos (List.mem_cons_of_mem _ hmem)]
      · have hnot : k ∉ k' :: rest.map Prod.fst := by
          intro h
          exact (List.mem_cons.mp h).elim hk' hmem
        rw [if_neg hmem, List.map_cons, if_neg hnot]
        rfl

theorem mem_insertItem {k : κ} {v : ν} {items : List (κ × ν)} {entry : κ × ν}
    (h : entry ∈ insertItem k v items) : entry = (k, v) ∨ entry ∈ items := by
  induction items with
  | nil => exact Or.inl (List.mem_singleton.mp h)
  | cons head rest ih =>
    obtain ⟨k', v'⟩ := head
    rw [insertItem] at h
    split at h
    · rcases List.mem_cons.mp h with h | h
      · exact Or.inl h
      · exact Or.inr (List.mem_cons_of_mem _ h)
    · rcases List.mem_cons.mp h with h | h
      · exact Or.inr (h ▸ List.mem_cons_self)
      · exact (ih h).imp_right (List.mem_cons_of_mem _)

def insert (k : κ) (v : ν) (d : Dict κ ν) : Dict κ ν where
  items := insertItem k v d.items
  nodup := by
    rw [keys_insertItem]
    split
    · exact d.nodup
    · next hmem => exact d.nodup.append (List.nodup_singleton k) (by simpa using hmem)

theorem insertItem_of_notMem {k : κ} {items : List (κ × ν)} (h : k ∉ items.map Prod.fst) (v : ν) :
    insertItem k v items = items ++ [(k, v)] := by
  induction items with
  | nil => rfl
  | cons entry rest ih =>
    obtain ⟨k', v'⟩ := entry
    rw [List.map_cons, List.mem_cons, not_or] at h
    rw [insertItem, if_neg (Ne.symm h.1), ih h.2, List.cons_append]

/-- The pairs one after the other: a later value of a key stands in the place of an earlier
one. -/
def ofList (items : List (κ × ν)) : Dict κ ν :=
  items.foldl (fun d entry => d.insert entry.1 entry.2) empty

theorem items_foldl_insert {items : List (κ × ν)} {d : Dict κ ν}
    (h : ((d.items ++ items).map Prod.fst).Nodup) :
    (items.foldl (fun d entry => d.insert entry.1 entry.2) d).items = d.items ++ items := by
  induction items generalizing d with
  | nil => rw [List.append_nil]; rfl
  | cons entry rest ih =>
    obtain ⟨k, v⟩ := entry
    rw [List.map_append, List.map_cons] at h
    have hfresh : k ∉ d.items.map Prod.fst := fun hmem =>
      (List.nodup_append.mp h).2.2 k hmem k List.mem_cons_self rfl
    have hitems : (d.insert k v).items = d.items ++ [(k, v)] := insertItem_of_notMem hfresh v
    rw [List.foldl_cons, ih, hitems, List.append_assoc]
    · rfl
    · rw [hitems, List.append_assoc, List.map_append]
      exact h

theorem items_ofList {items : List (κ × ν)} (h : (items.map Prod.fst).Nodup) :
    (ofList items).items = items :=
  items_foldl_insert h

theorem ofList_items (d : Dict κ ν) : ofList d.items = d := by
  obtain ⟨items, hnodup⟩ := d
  rw [mk.injEq]
  exact items_ofList hnodup

theorem mem_of_mem_foldl_insert {items : List (κ × ν)} {d : Dict κ ν} {entry : κ × ν}
    (h : entry ∈ (items.foldl (fun d entry => d.insert entry.1 entry.2) d).items) :
    entry ∈ d.items ∨ entry ∈ items := by
  induction items generalizing d with
  | nil => exact Or.inl h
  | cons next rest ih =>
    rcases ih h with h | h
    · rcases mem_insertItem h with rfl | h
      · exact Or.inr List.mem_cons_self
      · exact Or.inl h
    · exact Or.inr (List.mem_cons_of_mem next h)

theorem mem_of_mem_ofList {items : List (κ × ν)} {entry : κ × ν} (h : entry ∈ (ofList items).items) :
    entry ∈ items :=
  (mem_of_mem_foldl_insert h).resolve_left List.not_mem_nil

theorem lookup_entry (k : κ) (v : ν) (rest : List (κ × ν)) (k' : κ) :
    ((k, v) :: rest).lookup k' = if k' = k then some v else rest.lookup k' := by
  by_cases hk : k' = k
  · subst hk
    rw [List.lookup_cons_self, if_pos rfl]
  · rw [List.lookup_cons, beq_false_of_ne hk, if_neg hk]

theorem lookup_insertItem (k : κ) (v : ν) (items : List (κ × ν)) (k' : κ) :
    (insertItem k v items).lookup k' = if k' = k then some v else items.lookup k' := by
  induction items with
  | nil => exact lookup_entry k v [] k'
  | cons entry rest ih =>
    obtain ⟨k₁, v₁⟩ := entry
    by_cases hk : k₁ = k
    · subst hk
      rw [insertItem, if_pos rfl, lookup_entry, lookup_entry]
      split <;> rfl
    · rw [insertItem, if_neg hk, lookup_entry, lookup_entry, ih]
      by_cases hk' : k' = k₁
      · subst hk'
        rw [if_pos rfl, if_neg hk, if_pos rfl]
      · rw [if_neg hk', if_neg hk']

theorem get?_insert (k : κ) (v : ν) (d : Dict κ ν) (k' : κ) :
    (d.insert k v).get? k' = if k' = k then some v else d.get? k' :=
  lookup_insertItem k v d.items k'

theorem get?_foldl_insert (items : List (κ × ν)) (d : Dict κ ν) (k : κ) :
    (items.foldl (fun d entry => d.insert entry.1 entry.2) d).get? k =
      (items.reverse.lookup k).or (d.get? k) := by
  induction items generalizing d with
  | nil => rfl
  | cons entry rest ih =>
    obtain ⟨k', v⟩ := entry
    rw [List.foldl_cons, ih, get?_insert, List.reverse_cons, List.lookup_append, lookup_entry]
    cases rest.reverse.lookup k with
    | some _ => rfl
    | none =>
      rw [Option.none_or, Option.none_or]
      split <;> rfl

/-- Of several values of a key the last one counts. -/
theorem get?_ofList (items : List (κ × ν)) (k : κ) : (ofList items).get? k = items.reverse.lookup k := by
  rw [ofList, get?_foldl_insert]
  exact Option.or_none

def filterKeys (keep : κ → Bool) (d : Dict κ ν) : Dict κ ν where
  items := d.items.filter fun entry => keep entry.1
  nodup := d.nodup.sublist (List.filter_sublist.map Prod.fst)

theorem get?_filterKeys (keep : κ → Bool) (d : Dict κ ν) (k : κ) :
    (d.filterKeys keep).get? k = if keep k then d.get? k else none := by
  show (d.items.filter fun entry => keep entry.1).lookup k =
    if keep k then d.items.lookup k else none
  induction d.items with
  | nil => exact (ite_self _).symm
  | cons entry rest ih =>
    obtain ⟨k', v⟩ := entry
    rw [List.filter_cons, lookup_entry]
    by_cases hk : k = k'
    · subst hk
      by_cases hkeep : keep k
      · rw [if_pos hkeep, if_pos hkeep, lookup_entry, if_pos rfl, if_pos rfl]
      · rw [if_neg hkeep, ih, if_neg hkeep, if_neg hkeep]
    · rw [if_neg hk]
      split
      · rw [lookup_entry, if_neg hk, ih]
      · exact ih

/-! ## Dictionaries with the same entries -/

theorem get?_eq_of_perm {d d' : Dict κ ν} (h : d.items.Perm d'.items) (k : κ) :
    d.get? k = d'.get? k := by
  refine Option.ext fun v => ?_
  rw [get?_eq_some, get?_eq_some, h.mem_iff]

def map {ν' : Type} (f : ν → ν') (d : Dict κ ν) : Dict κ ν' where
  items := d.items.map fun entry => (entry.1, f entry.2)
  nodup := by
    rw [List.map_map]
    exact d.nodup

theorem get?_map {ν' : Type} (f : ν → ν') (d : Dict κ ν) (k : κ) :
    (d.map f).get? k = (d.get? k).map f := by
  show (d.items.map fun entry => (entry.1, f entry.2)).lookup k = (d.items.lookup k).map f
  induction d.items with
  | nil => rfl
  | cons entry rest ih =>
    rw [List.map_cons, lookup_entry, lookup_entry, ih]
    split <;> rfl

end Dict
end Collections
end Eds
