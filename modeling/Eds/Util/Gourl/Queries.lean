import Eds.Collections.Ranked
import Eds.Util.Gourl.Escapes
import Mathlib.Data.String.Basic

/-!
# Queries that are written and read

A query is written as pairs with `&` between them; neither the keys nor the values have a `&`, a
`;` or a `=` once they are escaped.  Reading gives back the values of each key (`query_encode`),
and a query does not show in which order different keys were added (`values_round_trip`).
-/

namespace Eds
namespace Util
namespace Gourl

open Collections Lexing

/-- A pair as it is written. -/
def pairText (pair : List Char × List Char) : List Char :=
  queryEscape pair.1 ++ '=' :: queryEscape pair.2

/-- A character that is written for a key or a value. -/
def inComponent (c : Char) : Bool := !(['&', ';', '=', '#'].contains c) && !isControl c

theorem inComponent_of_mem {s : List Char} {c : Char} (h : c ∈ queryEscape s) :
    inComponent c = true := by
  have hwritten : written .queryComponent inComponent = true := by decide +kernel
  exact forall_mem_escape hwritten s c h

theorem queryUnescape_queryEscape (s : List Char) : queryUnescape (queryEscape s) = .ok s :=
  unescape_escape s (by decide)

theorem of_mem_pairText {pair : List Char × List Char} {c : Char} (h : c ∈ pairText pair) :
    inComponent c = true ∨ c = '=' := by
  rcases List.mem_append.mp h with h | h
  · exact Or.inl (inComponent_of_mem h)
  · rcases List.mem_cons.mp h with h | h
    · exact Or.inr h
    · exact Or.inl (inComponent_of_mem h)

theorem notMem_pairText {sep : Char} (hsep : inComponent sep = false) (hne : sep ≠ '=')
    (pair : List Char × List Char) : sep ∉ pairText pair := by
  intro hmem
  rcases of_mem_pairText hmem with h | h
  · rw [hsep] at h
    cases h
  · exact hne h

theorem addSegment_pairText (v : Values) (pair : List Char × List Char) :
    GoUrl.addSegment v (pairText pair) = .ok (Values.add v pair.1 pair.2) := by
  have hsemi : ';' ∉ pairText pair := notMem_pairText (by decide) (by decide) pair
  have hne : pairText pair ≠ [] := List.append_ne_nil_of_right_ne_nil _ (List.cons_ne_nil _ _)
  have hequals : '=' ∉ queryEscape pair.1 := fun hmem => absurd (inComponent_of_mem hmem) (by decide)
  have hcut : partition '=' (pairText pair) = (queryEscape pair.1, true, queryEscape pair.2) :=
    partition_append hequals _
  rw [GoUrl.addSegment, if_neg hsemi, if_neg hne, hcut]
  dsimp only
  rw [queryUnescape_queryEscape, queryUnescape_queryEscape]
  rfl

theorem foldlM_addSegment (pairs : List (List Char × List Char)) (v : Values) :
    (pairs.map pairText).foldlM GoUrl.addSegment v =
      .ok (pairs.foldl (fun v pair => Values.add v pair.1 pair.2) v) := by
  induction pairs generalizing v with
  | nil => rfl
  | cons pair pairs ih =>
    rw [List.map_cons, List.foldlM_cons, addSegment_pairText]
    exact ih _

/-- The pairs of a query, in the order in which they are written. -/
theorem query_pairs {u : GoUrl} {pairs : List (List Char × List Char)}
    (hquery : u.rawQuery = List.intercalate ['&'] (pairs.map pairText)) :
    u.query = .ok (pairs.foldl (fun v pair => Values.add v pair.1 pair.2) Dict.empty) := by
  rw [GoUrl.query, hquery]
  cases pairs with
  | nil => rfl
  | cons pair pairs =>
    have hamp : ∀ seg ∈ (pair :: pairs).map pairText, '&' ∉ seg := by
      intro seg hseg
      obtain ⟨pair', -, rfl⟩ := List.mem_map.mp hseg
      exact notMem_pairText (by decide) (by decide) pair'
    rw [List.splitOn_intercalate '&' hamp (List.cons_ne_nil _ _)]
    exact foldlM_addSegment (pair :: pairs) Dict.empty

/-- Nothing that is written in a query ends it. -/
theorem pairs_chars (pairs : List (List Char × List Char)) :
    ∀ c ∈ List.intercalate ['&'] (pairs.map pairText), c ≠ '#' ∧ isControl c = false := by
  have hpair : ∀ (pair : List Char × List Char), ∀ c ∈ pairText pair,
      c ≠ '#' ∧ isControl c = false := by
    intro pair c hc
    rcases of_mem_pairText hc with h | rfl
    · simp only [inComponent, Bool.and_eq_true, Bool.not_eq_true', List.contains_cons,
        Bool.or_eq_false_iff, beq_eq_false_iff_ne] at h
      exact ⟨h.1.2.2.2.1, h.2⟩
    · decide
  induction pairs with
  | nil => exact fun c hc => absurd hc List.not_mem_nil
  | cons pair pairs ih =>
    cases pairs with
    | nil =>
      rw [List.map_singleton, List.intercalate_singleton]
      exact hpair pair
    | cons next pairs =>
      rw [List.map_cons, List.map_cons, List.intercalate_cons_cons, ← List.map_cons]
      intro c hc
      rcases List.mem_append.mp hc with hc | hc
      · rcases List.mem_append.mp hc with hc | hc
        · exact hpair pair c hc
        · rw [List.mem_singleton.mp hc]
          decide
      · exact ih c hc

/-! ## Values -/

namespace Values

def all (m : Values) (key : List Char) : List (List Char) := (m.get? key).getD []

theorem get_eq (m : Values) (key : List Char) : m.get key = (m.all key).headD [] := rfl

theorem has_iff {m : Values} {key : List Char} : m.has key = true ↔ ∃ values, m.get? key = some values := by
  rw [has, List.contains_iff_mem, Dict.mem_keys]
  simp only [Dict.get?_eq_some]

theorem all_add (m : Values) (key value key' : List Char) :
    (m.add key value).all key' = if key' = key then m.all key ++ [value] else m.all key' := by
  rw [all, add, Dict.get?_insert]
  split
  · rfl
  · rfl

theorem all_set (m : Values) (key value key' : List Char) :
    (m.set key value).all key' = if key' = key then [value] else m.all key' := by
  rw [all, set, Dict.get?_insert]
  split
  · rfl
  · rfl

theorem has_add (m : Values) (key value key' : List Char) :
    (m.add key value).has key' = true ↔ key' = key ∨ m.has key' = true := by
  rw [has_iff, has_iff, add, Dict.get?_insert]
  by_cases hkey : key' = key
  · simp [hkey]
  · simp [hkey]

end Values

theorem all_foldl_add (pairs : List (List Char × List Char)) (v : Values) (key : List Char) :
    (pairs.foldl (fun v pair => Values.add v pair.1 pair.2) v).all key =
      v.all key ++ (pairs.filter fun pair => pair.1 = key).map Prod.snd := by
  induction pairs generalizing v with
  | nil => simp
  | cons pair pairs ih =>
    rw [List.foldl_cons, ih, Values.all_add, List.filter_cons]
    by_cases hkey : pair.1 = key
    · simp [hkey]
    · simp [hkey, Ne.symm hkey]

theorem has_foldl_add (pairs : List (List Char × List Char)) (v : Values) (key : List Char) :
    (pairs.foldl (fun v pair => Values.add v pair.1 pair.2) v).has key = true ↔
      v.has key = true ∨ key ∈ pairs.map Prod.fst := by
  induction pairs generalizing v with
  | nil => simp
  | cons pair pairs ih =>
    rw [List.foldl_cons, ih, Values.has_add, List.map_cons, List.mem_cons]
    rw [or_left_comm, or_assoc]

/-- The values that are read for a key: it is there if it has one. -/
theorem query_of_pairs {u : GoUrl} {pairs : List (List Char × List Char)}
    (hquery : u.rawQuery = List.intercalate ['&'] (pairs.map pairText)) :
    ∃ q, u.query = .ok q ∧ ∀ key,
      q.all key = (pairs.filter fun pair => pair.1 = key).map Prod.snd ∧
        (q.has key = true ↔ key ∈ pairs.map Prod.fst) := by
  refine ⟨_, query_pairs hquery, fun key => ⟨?_, ?_⟩⟩
  · exact (all_foldl_add pairs _ key).trans (List.nil_append _)
  · rw [has_foldl_add]
    exact or_iff_right (fun hempty => nomatch hempty)

/-- The pairs of a multimap. -/
def pairsOf {κ ν : Type} (items : List (κ × List ν)) : List (κ × ν) :=
  items.flatMap fun entry => entry.2.map fun value => (entry.1, value)

/-- A multimap is written as its pairs, in the order of the keys. -/
theorem encode_eq (m : Values) :
    m.encode = List.intercalate ['&'] ((pairsOf m.sorted).map pairText) := by
  rw [Values.encode, pairsOf, List.map_flatMap]
  congr 2
  funext entry
  rw [List.map_map]
  rfl

theorem filter_pairsOf {κ ν : Type} [DecidableEq κ] {items : List (κ × List ν)}
    (hnodup : (items.map Prod.fst).Nodup) (key : κ) :
    ((pairsOf items).filter fun pair => pair.1 = key).map Prod.snd = (items.lookup key).getD [] := by
  induction items with
  | nil => rfl
  | cons entry items ih =>
    obtain ⟨k, values⟩ := entry
    obtain ⟨hfresh, hnodup⟩ := List.nodup_cons.mp hnodup
    have hcons : pairsOf ((k, values) :: items) =
        (values.map fun value => (k, value)) ++ pairsOf items := List.flatMap_cons
    rw [hcons, List.filter_append, List.map_append, ih hnodup, Dict.lookup_entry]
    by_cases hkey : key = k
    · have hnone : items.lookup key = none := by
        rw [List.lookup_eq_none_iff]
        intro entry hentry
        rw [bne_iff_ne]
        intro hsame
        exact hfresh (List.mem_map.mpr ⟨entry, hentry, hsame.symm.trans hkey⟩)
      rw [hnone, if_pos hkey, hkey]
      simp [List.filter_map, Function.comp_def]
    · rw [if_neg hkey]
      simp [List.filter_map, Function.comp_def, Ne.symm hkey]

/-- Reading an encoded multimap gives each key its values. -/
theorem query_encode {u : GoUrl} {m : Values} (hquery : u.rawQuery = m.encode) :
    ∃ q, u.query = .ok q ∧ ∀ key, q.all key = m.all key ∧ (q.has key = true ↔ m.all key ≠ []) := by
  rw [encode_eq] at hquery
  obtain ⟨q, hq, hkeys⟩ := query_of_pairs hquery
  have hperm : m.sorted.Perm m.items := List.mergeSort_perm m.items _
  have hnodup := (hperm.map Prod.fst).nodup_iff.mpr m.nodup
  have hall : ∀ key, ((pairsOf m.sorted).filter fun pair => pair.1 = key).map Prod.snd =
      m.all key := by
    intro key
    refine (filter_pairsOf hnodup key).trans ?_
    have hget := Dict.get?_eq_of_perm (d := ⟨_, hnodup⟩) hperm key
    exact congrArg (fun values => values.getD []) hget
  refine ⟨q, hq, fun key => ?_⟩
  obtain ⟨hvalues, hhas⟩ := hkeys key
  refine ⟨hvalues.trans (hall key), hhas.trans ?_⟩
  rw [← hall key, ne_eq, List.map_eq_nil_iff, List.filter_eq_nil_iff]
  simp

/-! ## Values that are built -/

/-- A call of `set` or `add`. -/
inductive Edit where
  | set (key value : List Char)
  | add (key value : List Char)

namespace Edit

def key : Edit → List Char
  | set key _ => key
  | add key _ => key

def apply (m : Values) : Edit → Values
  | set key value => m.set key value
  | add key value => m.add key value

/-- What a call makes of the values of its key. -/
def after (values : List (List Char)) : Edit → List (List Char)
  | set _ value => [value]
  | add _ value => values ++ [value]

theorem after_ne_nil (values : List (List Char)) (e : Edit) : e.after values ≠ [] := by
  cases e with
  | set key value => exact List.cons_ne_nil value []
  | add key value => exact List.append_ne_nil_of_right_ne_nil _ (List.cons_ne_nil _ _)

theorem get?_apply (m : Values) (e : Edit) (k : List Char) :
    (e.apply m).get? k = if k = e.key then some (e.after (m.all k)) else m.get? k := by
  cases e with
  | set key value => exact Dict.get?_insert key [value] m k
  | add key value =>
    refine (Dict.get?_insert key _ m k).trans ?_
    have hkey : (add key value).key = key := rfl
    rw [hkey]
    split
    · next hk =>
      rw [hk]
      rfl
    · rfl

end Edit

def Values.built (edits : List Edit) : Values := edits.foldl Edit.apply Dict.empty

/-- The values of a key come from the calls for that key alone. -/
theorem get?_foldl_apply (edits : List Edit) (m : Values) (k : List Char) :
    (edits.foldl Edit.apply m).get? k =
      (edits.filter fun e => e.key = k).foldl (fun values e => some (e.after (values.getD [])))
        (m.get? k) := by
  induction edits generalizing m with
  | nil => rfl
  | cons e edits ih =>
    rw [List.foldl_cons, ih, Edit.get?_apply, List.filter_cons]
    by_cases hk : e.key = k
    · rw [if_pos hk.symm, if_pos (decide_eq_true hk), List.foldl_cons]
      rfl
    · rw [if_neg (Ne.symm hk), if_neg (by simpa using hk)]

theorem ne_nil_of_built {edits : List Edit} {k : List Char} {values : List (List Char)}
    (h : (Values.built edits).get? k = some values) : values ≠ [] := by
  induction edits using List.reverseRecOn generalizing values with
  | nil => cases h
  | append_singleton edits e ih =>
    rw [Values.built, List.foldl_append, List.foldl_cons, List.foldl_nil, Edit.get?_apply] at h
    split at h
    · rw [← Option.some.inj h]
      exact Edit.after_ne_nil _ e
    · exact ih h

/-- What is written depends on the values of each key only. -/
theorem encode_congr {m m' : Values} (h : ∀ k, m.get? k = m'.get? k) : m.encode = m'.encode := by
  have hle : ∀ a b : List Char × List (List Char),
      decide (String.ofList a.1 ≤ String.ofList b.1) = true ↔
        String.ofList a.1 ≤ String.ofList b.1 := fun _ _ => decide_eq_true_iff
  have hmem : ∀ entry, entry ∈ m.items ↔ entry ∈ m'.items := fun entry => by
    rw [← Dict.get?_eq_some, ← Dict.get?_eq_some, h]
  have hitems : m.items.Perm m'.items :=
    (List.perm_ext_iff_of_nodup m.nodup.of_map m'.nodup.of_map).mpr hmem
  have hperm : m.sorted.Perm m'.sorted :=
    (List.mergeSort_perm m.items _).trans (hitems.trans (List.mergeSort_perm m'.items _).symm)
  have hsorted : m.sorted = m'.sorted := by
    refine hperm.eq_of_pairwise (fun a b ha hb hab hba => ?_)
      (pairwise_mergeSort_key hle m.items) (pairwise_mergeSort_key hle m'.items)
    have hkey : a.1 = b.1 := String.ofList_injective (le_antisymm hab hba)
    have hvalue := Dict.get?_eq_some.mpr ((hmem a).mp ((List.mergeSort_perm _ _).mem_iff.mp ha))
    have hvalue' := Dict.get?_eq_some.mpr ((List.mergeSort_perm _ _).mem_iff.mp hb)
    rw [hkey, hvalue'] at hvalue
    exact Prod.ext hkey (Option.some.inj hvalue).symm
  rw [Values.encode, hsorted, Values.encode]

theorem query_encode_built {u : GoUrl} {edits : List Edit}
    (hquery : u.rawQuery = (Values.built edits).encode) :
    ∃ q, u.query = .ok q ∧ ∀ key, q.get? key = (Values.built edits).get? key := by
  obtain ⟨q, hq, hkeys⟩ := query_encode hquery
  refine ⟨q, hq, fun key => ?_⟩
  obtain ⟨hall, hhas⟩ := hkeys key
  rw [Values.has_iff] at hhas
  cases hbuilt : (Values.built edits).get? key with
  | none =>
    rw [Values.all, hbuilt, Option.getD_none] at hhas
    rw [Option.eq_none_iff_forall_ne_some]
    exact fun values hvalues => hhas.mp ⟨values, hvalues⟩ rfl
  | some values =>
    rw [Values.all, hbuilt, Option.getD_some] at hhas
    obtain ⟨values', hvalues'⟩ := hhas.mpr (ne_nil_of_built hbuilt)
    rw [Values.all, Values.all, hbuilt, hvalues', Option.getD_some, Option.getD_some] at hall
    rw [hvalues', hall]

/-- Values that are built come back from the query that they are written as, and the query does
not depend on the order of the calls for different keys. -/
theorem values_round_trip (edits : List Edit) :
    (∃ q, GoUrl.query { GoUrl.blank with rawQuery := (Values.built edits).encode } = .ok q ∧
      ∀ key, q.get? key = (Values.built edits).get? key) ∧
    ∀ edits', (∀ key, (edits'.filter fun e => e.key = key) = edits.filter fun e => e.key = key) →
      (Values.built edits').encode = (Values.built edits).encode := by
  refine ⟨query_encode_built rfl, fun edits' horder => encode_congr fun key => ?_⟩
  rw [Values.built, Values.built, get?_foldl_apply, get?_foldl_apply, horder]

/-- The calls for one key in between two for another. -/
theorem values_round_trip_between :
    (Values.built [.set "b".toList "1 2".toList, .add "a".toList "&=".toList,
        .add "a".toList []]).encode =
      (Values.built [.add "a".toList "&=".toList, .set "b".toList "1 2".toList,
        .add "a".toList []]).encode := by
  refine (values_round_trip _).2 _ fun key => ?_
  have hne : "a".toList ≠ "b".toList := by decide
  by_cases hkey : "a".toList = key
  · rw [← hkey]
    rfl
  · simp only [List.filter_cons, Edit.key, hkey, decide_false, Bool.false_eq_true, if_false]

end Gourl
end Util
end Eds
