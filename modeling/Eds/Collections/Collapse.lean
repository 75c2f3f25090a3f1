import Mathlib.Data.List.Induction
import Mathlib.Data.List.Nodup

/-!
# Grouping and collapsing a log

`groupBy` gathers the entries of a log under their keys, in the order in which the
keys first occur.  `collapse` shortens a log: a new entry resets what was kept,
is joined to the last entry kept, or is kept beside it.

A log is collapsed one group at a time, and `filter_flatMap_groupBy` says that the
groups do not see each other.
-/

namespace Eds
namespace Collections

variable {α β κ : Type}

/-! ## Groups -/

section Groups

variable [DecidableEq κ]

def addToGroup (k : κ) (a : α) : List (κ × List α) → List (κ × List α)
  | [] => [(k, [a])]
  | (k', as) :: rest =>
    if k' = k then (k', as ++ [a]) :: rest else (k', as) :: addToGroup k a rest

def groupBy (key : α → κ) (l : List α) : List (κ × List α) :=
  l.foldl (fun groups a => addToGroup (key a) a groups) []

def groupOf (k : κ) (groups : List (κ × List α)) : List α := (groups.lookup k).getD []

theorem groupOf_cons (k k' : κ) (as : List α) (rest : List (κ × List α)) :
    groupOf k ((k', as) :: rest) = if k' = k then as else groupOf k rest := by
  rw [groupOf, List.lookup_cons]
  by_cases hk : k' = k
  · rw [if_pos hk, hk, beq_self_eq_true]
    rfl
  · rw [if_neg hk, beq_false_of_ne (Ne.symm hk)]
    rfl

theorem groupOf_addToGroup (k k' : κ) (a : α) (groups : List (κ × List α)) :
    groupOf k (addToGroup k' a groups) =
      if k' = k then groupOf k groups ++ [a] else groupOf k groups := by
  induction groups with
  | nil =>
    rw [addToGroup, groupOf_cons]
    rfl
  | cons group rest ih =>
    obtain ⟨k'', as⟩ := group
    rw [addToGroup]
    by_cases h : k'' = k'
    · subst h
      rw [if_pos rfl, groupOf_cons, groupOf_cons]
      split <;> rfl
    · rw [if_neg h, groupOf_cons, groupOf_cons, ih]
      by_cases hk : k'' = k
      · rw [if_pos hk, if_pos hk, if_neg (fun hkk => h (hk.trans hkk.symm))]
      · rw [if_neg hk, if_neg hk]

theorem keys_addToGroup (k : κ) (a : α) (groups : List (κ × List α)) :
    (addToGroup k a groups).map Prod.fst =
      if k ∈ groups.map Prod.fst then groups.map Prod.fst else groups.map Prod.fst ++ [k] := by
  induction groups with
  | nil => rfl
  | cons group rest ih =>
    obtain ⟨k', as⟩ := group
    rw [addToGroup]
    by_cases h : k' = k
    · simp [h]
    · rw [if_neg h, List.map_cons, ih, List.map_cons]
      by_cases hmem : k ∈ rest.map Prod.fst
      · rw [if_pos hmem, if_pos (List.mem_cons_of_mem _ hmem)]
      · rw [if_neg hmem, if_neg (by simp [Ne.symm h, hmem])]
        rfl

theorem groupBy_append_singleton (key : α → κ) (l : List α) (a : α) :
    groupBy key (l ++ [a]) = addToGroup (key a) a (groupBy key l) := by
  rw [groupBy, List.foldl_append]
  rfl

theorem groupOf_groupBy (key : α → κ) (l : List α) (k : κ) :
    groupOf k (groupBy key l) = l.filter fun a => decide (key a = k) := by
  induction l using List.reverseRecOn with
  | nil => rfl
  | append_singleton l a ih =>
    rw [groupBy_append_singleton, groupOf_addToGroup, ih, List.filter_append]
    by_cases hk : key a = k <;> simp [hk]

theorem keys_groupBy_nodup (key : α → κ) (l : List α) :
    ((groupBy key l).map Prod.fst).Nodup := by
  induction l using List.reverseRecOn with
  | nil => exact List.nodup_nil
  | append_singleton l a ih =>
    rw [groupBy_append_singleton, keys_addToGroup]
    split
    · exact ih
    · next hmem => exact ih.append (List.nodup_singleton _) (by simpa using hmem)

theorem mem_keys_groupBy (key : α → κ) (l : List α) (k : κ) :
    k ∈ (groupBy key l).map Prod.fst ↔ ∃ a ∈ l, key a = k := by
  induction l using List.reverseRecOn with
  | nil => simp [groupBy]
  | append_singleton l a ih =>
    have hkeys : k ∈ (groupBy key (l ++ [a])).map Prod.fst ↔
        k ∈ (groupBy key l).map Prod.fst ∨ k = key a := by
      rw [groupBy_append_singleton, keys_addToGroup]
      split
      · next hmem => exact ⟨Or.inl, fun h => h.elim id fun hk => hk ▸ hmem⟩
      · rw [List.mem_append, List.mem_singleton]
    rw [hkeys, ih]
    simp [or_and_right, exists_or, eq_comm]

theorem addToGroup_map (f : α → β) (k : κ) (a : α) (groups : List (κ × List α)) :
    addToGroup k (f a) (groups.map fun g => (g.1, g.2.map f)) =
      (addToGroup k a groups).map fun g => (g.1, g.2.map f) := by
  induction groups with
  | nil => rfl
  | cons group rest ih =>
    obtain ⟨k', as⟩ := group
    rw [List.map_cons, addToGroup, addToGroup, ih]
    split <;> simp

theorem groupBy_map (f : α → β) (key : β → κ) (l : List α) :
    groupBy key (l.map f) = (groupBy (fun a => key (f a)) l).map fun g => (g.1, g.2.map f) := by
  induction l using List.reverseRecOn with
  | nil => rfl
  | append_singleton l a ih =>
    rw [List.map_append, List.map_singleton, groupBy_append_singleton, ih, addToGroup_map,
      groupBy_append_singleton]

theorem groupOf_eq_of_mem {groups : List (κ × List α)} (h : (groups.map Prod.fst).Nodup) {k : κ}
    {as : List α} (hmem : (k, as) ∈ groups) : groupOf k groups = as := by
  induction groups with
  | nil => cases hmem
  | cons group rest ih =>
    obtain ⟨k', as'⟩ := group
    obtain ⟨hfresh, hrest⟩ := List.nodup_cons.mp h
    rw [groupOf_cons]
    rcases List.mem_cons.mp hmem with heq | hmem
    · cases heq
      exact if_pos rfl
    · have hk : k' ≠ k := by
        intro hgiven
        subst hgiven
        exact hfresh (List.mem_map.mpr ⟨_, hmem, rfl⟩)
      rw [if_neg hk]
      exact ih hrest hmem

theorem filter_flatMap_groups {groups : List (κ × List α)} (hnodup : (groups.map Prod.fst).Nodup)
    {key : β → κ} {f : List α → List β} (hnil : f [] = [])
    (hkey : ∀ k as, (k, as) ∈ groups → ∀ b ∈ f as, key b = k) (k : κ) :
    (groups.flatMap fun g => f g.2).filter (fun b => decide (key b = k)) =
      f (groupOf k groups) := by
  induction groups with
  | nil => exact hnil.symm
  | cons group rest ih =>
    obtain ⟨k', as⟩ := group
    obtain ⟨hfresh, hrest⟩ := List.nodup_cons.mp hnodup
    have htail := ih hrest fun k as hmem => hkey k as (List.mem_cons_of_mem _ hmem)
    have hhead := hkey k' as List.mem_cons_self
    rw [List.flatMap_cons, List.filter_append, htail, groupOf_cons]
    by_cases hk : k' = k
    · subst hk
      have hempty : groupOf k' rest = [] := by
        rw [groupOf, List.lookup_eq_none_iff.mpr]
        · rfl
        · intro g hg
          have hne : k' ≠ g.1 := fun heq => hfresh (List.mem_map.mpr ⟨g, hg, heq.symm⟩)
          simpa using hne
      rw [if_pos rfl, hempty, hnil, List.append_nil]
      exact List.filter_eq_self.mpr fun b hb => decide_eq_true (hhead b hb)
    · rw [if_neg hk, List.filter_eq_nil_iff.mpr, List.nil_append]
      intro b hb
      rw [hhead b hb]
      simpa using hk

/-- What a function makes of the groups, seen at one key, is what it makes of the
group of that key. -/
theorem filter_flatMap_groupBy {key : α → κ} (key' : β → κ) {f : List α → List β}
    (hnil : f [] = []) (hkey : ∀ k as, (∀ a ∈ as, key a = k) → ∀ b ∈ f as, key' b = k)
    (l : List α) (k : κ) :
    ((groupBy key l).flatMap fun g => f g.2).filter (fun b => decide (key' b = k)) =
      f (l.filter fun a => decide (key a = k)) := by
  have hnodup := keys_groupBy_nodup key l
  rw [filter_flatMap_groups hnodup hnil, groupOf_groupBy]
  intro k as hmem
  refine hkey k as fun a ha => ?_
  rw [← groupOf_eq_of_mem hnodup hmem, groupOf_groupBy] at ha
  exact of_decide_eq_true (List.mem_filter.mp ha).2

/-- The parts of a list by their keys, one part after the other. -/
theorem flatMap_filter_perm (key : α → κ) {keys : List κ} (hnodup : keys.Nodup) {l : List α}
    (hl : ∀ a ∈ l, key a ∈ keys) :
    (keys.flatMap fun k => l.filter fun a => decide (key a = k)).Perm l := by
  induction keys generalizing l with
  | nil =>
    cases l with
    | nil => exact List.Perm.nil
    | cons a rest => exact absurd (hl a List.mem_cons_self) List.not_mem_nil
  | cons k keys ih =>
    obtain ⟨hfresh, hrest⟩ := List.nodup_cons.mp hnodup
    have hothers : ∀ a ∈ l.filter fun a => !decide (key a = k), key a ∈ keys := by
      intro a ha
      obtain ⟨ha, hne⟩ := List.mem_filter.mp ha
      rcases List.mem_cons.mp (hl a ha) with heq | hmem
      · simp [heq] at hne
      · exact hmem
    have hsame : (keys.flatMap fun k' => l.filter fun a => decide (key a = k')) =
        keys.flatMap fun k' =>
          (l.filter fun a => !decide (key a = k)).filter fun a => decide (key a = k') := by
      refine List.flatMap_congr fun k' hk' => ?_
      have hne : k' ≠ k := fun heq => hfresh (heq ▸ hk')
      rw [List.filter_filter]
      refine List.filter_congr fun a _ => ?_
      by_cases hk : key a = k'
      · simp [hk, hne]
      · simp [hk]
    rw [List.flatMap_cons, hsame]
    exact ((ih hrest hothers).append_left _).trans (List.filter_append_perm _ l)

/-- Within one key they are in the order of the list. -/
theorem filter_flatMap_filter (key : α → κ) {keys : List κ} (hnodup : keys.Nodup) {l : List α}
    (hl : ∀ a ∈ l, key a ∈ keys) (k : κ) :
    ((keys.flatMap fun k' => l.filter fun a => decide (key a = k')).filter
      fun a => decide (key a = k)) = l.filter fun a => decide (key a = k) := by
  rw [List.filter_flatMap]
  have hpart : ∀ k', ((l.filter fun a => decide (key a = k')).filter fun a => decide (key a = k)) =
      if k' = k then l.filter fun a => decide (key a = k) else [] := by
    intro k'
    by_cases hk : k' = k
    · rw [hk, if_pos rfl, List.filter_filter]
      simp
    · rw [if_neg hk, List.filter_filter]
      refine List.filter_eq_nil_iff.mpr fun a _ h => ?_
      simp only [Bool.and_eq_true, decide_eq_true_eq] at h
      exact hk (h.2.symm.trans h.1)
  simp only [hpart]
  by_cases hk : k ∈ keys
  · obtain ⟨front, back, rfl⟩ := List.append_of_mem hk
    have hsplit := List.nodup_append.mp hnodup
    have hfront : ∀ k' ∈ front, k' ≠ k := fun k' hk' => hsplit.2.2 k' hk' k List.mem_cons_self
    have hback : ∀ k' ∈ back, k' ≠ k :=
      fun k' hk' heq => (List.nodup_cons.mp hsplit.2.1).1 (heq ▸ hk')
    rw [List.flatMap_append, List.flatMap_cons, if_pos rfl,
      List.flatMap_eq_nil_iff.mpr fun k' hk' => if_neg (hfront k' hk'),
      List.flatMap_eq_nil_iff.mpr fun k' hk' => if_neg (hback k' hk'), List.nil_append,
      List.append_nil]
  · have hnone : (l.filter fun a => decide (key a = k)) = [] :=
      List.filter_eq_nil_iff.mpr fun a ha h => hk (of_decide_eq_true h ▸ hl a ha)
    rw [hnone]
    exact List.flatMap_eq_nil_iff.mpr fun _ _ => ite_self _

end Groups

/-! ## Collapsing -/

inductive Action where
  | reset
  | join
  | keep
  deriving DecidableEq

section Collapse

variable (action : α → α → Action) (join : α → α → α)

/-- The entries kept are `front` and, last, `previous`. -/
def collapseStep : List α × α → α → List α × α
  | (front, previous), a =>
    match action a previous with
    | .reset => ([], a)
    | .join => (front, join previous a)
    | .keep => (front ++ [previous], a)

def collapseFrom (st : List α × α) (l : List α) : List α :=
  (l.foldl (collapseStep action join) st).1 ++ [(l.foldl (collapseStep action join) st).2]

def collapse : List α → List α
  | [] => []
  | a :: rest => collapseFrom action join ([], a) rest

section Rules

variable {action : α → α → Action} {join : α → α → α}

theorem collapseFrom_cons (st : List α × α) (a : α) (l : List α) :
    collapseFrom action join st (a :: l) =
      collapseFrom action join (collapseStep action join st a) l := rfl

theorem collapse_append (a : α) (l l' : List α) :
    collapse action join (a :: l ++ l') =
      collapseFrom action join (l.foldl (collapseStep action join) ([], a)) l' := by
  rw [List.cons_append, collapse, collapseFrom, collapseFrom, List.foldl_append]

section Invariant

variable {P : α → Prop} (hjoin : ∀ a b, action b a = .join → P a → P b → P (join a b))

include hjoin

theorem collapseStep_forall {st : List α × α} {a : α} (hst : ∀ b ∈ st.1 ++ [st.2], P b) (ha : P a) :
    ∀ b ∈ (collapseStep action join st a).1 ++ [(collapseStep action join st a).2], P b := by
  obtain ⟨front, previous⟩ := st
  have hfront : ∀ b ∈ front, P b := fun b hb => hst b (List.mem_append_left _ hb)
  have hprevious : P previous := hst previous (by simp)
  rw [collapseStep]
  split
  · simpa using ha
  · next haction =>
    intro b hb
    rcases List.mem_append.mp hb with hb | hb
    · exact hfront b hb
    · rw [List.mem_singleton.mp hb]
      exact hjoin _ _ haction hprevious ha
  · intro b hb
    rcases List.mem_append.mp hb with hb | hb
    · exact hst b hb
    · rw [List.mem_singleton.mp hb]
      exact ha

theorem collapseFrom_forall {l : List α} {st : List α × α} (hst : ∀ b ∈ st.1 ++ [st.2], P b)
    (hl : ∀ a ∈ l, P a) : ∀ b ∈ collapseFrom action join st l, P b := by
  induction l generalizing st with
  | nil => exact hst
  | cons a rest ih =>
    rw [collapseFrom_cons]
    exact ih (collapseStep_forall hjoin hst (hl a List.mem_cons_self))
      fun a ha => hl a (List.mem_cons_of_mem _ ha)

/-- A property that joining keeps holds of what is kept. -/
theorem collapse_forall {l : List α} (hl : ∀ a ∈ l, P a) : ∀ b ∈ collapse action join l, P b := by
  cases l with
  | nil => intro b hb; cases hb
  | cons a rest =>
    refine collapseFrom_forall hjoin ?_ fun b hb => hl b (List.mem_cons_of_mem _ hb)
    simpa using hl a List.mem_cons_self

end Invariant

/-- Collapsing commutes with a map that the actions and the joins do not notice. -/
theorem map_collapse {action' : β → β → Action} {join' : β → β → β} (f : β → α)
    (haction : ∀ a b, action' a b = action (f a) (f b))
    (hjoin : ∀ a b, f (join' a b) = join (f a) (f b)) (l : List β) :
    (collapse action' join' l).map f = collapse action join (l.map f) := by
  have hstep : ∀ st a, Prod.map (List.map f) f (collapseStep action' join' st a) =
      collapseStep action join (Prod.map (List.map f) f st) (f a) := by
    intro h a
    obtain ⟨front, previous⟩ := h
    simp only [collapseStep, Prod.map_apply, haction]
    cases action (f a) (f previous) <;> simp [hjoin]
  have hfrom : ∀ (l : List β) st, (collapseFrom action' join' st l).map f =
      collapseFrom action join (Prod.map (List.map f) f st) (l.map f) := by
    intro l
    induction l with
    | nil => intro st; simp [collapseFrom]
    | cons a rest ih =>
      intro st
      rw [collapseFrom_cons, ih, hstep]
      rfl
  cases l with
  | nil => rfl
  | cons a rest => exact hfrom rest ([], a)

end Rules

end Collapse

/-! ## Logs of resetting and joining entries -/

/-- The action is a matter of the two kinds of entry: `erases` resets, and an entry
that `joins` is joined to one that does. -/
structure Kinds (action : α → α → Action) (join : α → α → α) (erases joins : α → Bool) : Prop where
  reset : ∀ a b, erases a = true → action a b = .reset
  joined : ∀ a b, joins a = true → joins b = true → action a b = .join
  keep : ∀ a b, erases a = false → (joins a = true → joins b = false) → action a b = .keep
  apart : ∀ a, joins a = true → erases a = false
  joins_join : ∀ a b, joins (join a b) = joins a

section Kinds

variable {action : α → α → Action} {join : α → α → α} {erases joins : α → Bool}
  (h : Kinds action join erases joins)

include h

theorem Kinds.collapseStep_keep {front : List α} {previous a : α} (ha : erases a = false)
    (hjoins : joins a = true → joins previous = false) :
    collapseStep action join (front, previous) a = (front ++ [previous], a) := by
  rw [collapseStep, h.keep a previous ha hjoins]

/-- Without a reset the entries in front stay there. -/
theorem Kinds.collapseFrom_front {front : List α} {previous : α} {l : List α}
    (hl : ∀ a ∈ l, erases a = false) :
    collapseFrom action join (front, previous) l =
      front ++ collapseFrom action join ([], previous) l := by
  induction l generalizing front previous with
  | nil => rfl
  | cons a rest ih =>
    have ha := hl a List.mem_cons_self
    have hrest : ∀ b ∈ rest, erases b = false := fun b hb => hl b (List.mem_cons_of_mem _ hb)
    rw [collapseFrom_cons, collapseFrom_cons]
    by_cases hjoins : joins a = true ∧ joins previous = true
    · rw [collapseStep, collapseStep, h.joined a previous hjoins.1 hjoins.2]
      exact ih hrest
    · have hkeep : joins a = true → joins previous = false := fun hja =>
        Bool.eq_false_iff.mpr fun hjp => hjoins ⟨hja, hjp⟩
      rw [h.collapseStep_keep ha hkeep, h.collapseStep_keep ha hkeep, ih hrest,
        @ih ([] ++ [previous]) a hrest]
      simp

/-- A run of joining entries becomes one, and what follows is collapsed by itself. -/
theorem Kinds.collapseFrom_run {previous : α} (hprevious : joins previous = true) {l : List α}
    (hl : ∀ a ∈ l, erases a = false) :
    collapseFrom action join ([], previous) l =
      (l.takeWhile joins).foldl join previous :: collapse action join (l.dropWhile joins) := by
  induction l generalizing previous with
  | nil => rfl
  | cons a rest ih =>
    have ha := hl a List.mem_cons_self
    have hrest : ∀ b ∈ rest, erases b = false := fun b hb => hl b (List.mem_cons_of_mem _ hb)
    rw [collapseFrom_cons]
    by_cases hjoins : joins a = true
    · rw [collapseStep, h.joined a previous hjoins hprevious, List.takeWhile_cons_of_pos hjoins,
        List.dropWhile_cons_of_pos hjoins]
      exact ih ((h.joins_join previous a).trans hprevious) hrest
    · rw [h.collapseStep_keep ha fun hja => absurd hja hjoins, List.takeWhile_cons_of_neg hjoins,
        List.dropWhile_cons_of_neg hjoins, h.collapseFrom_front hrest]
      rfl

/-- After an entry that does not join, a run starts afresh. -/
theorem Kinds.collapse_append_run {l rest : List α} {a : α}
    (hlast : ∀ y ∈ l.getLast?, joins y = false) (ha : joins a = true)
    (hrest : ∀ b ∈ rest, erases b = false) :
    collapse action join (l ++ a :: rest) = collapse action join l ++
      (rest.takeWhile joins).foldl join a :: collapse action join (rest.dropWhile joins) := by
  have happend : ∀ front : List α, collapseFrom action join (front, a) rest =
      front ++ (rest.takeWhile joins).foldl join a :: collapse action join (rest.dropWhile joins) :=
    fun front => by rw [h.collapseFrom_front hrest, h.collapseFrom_run ha hrest]
  cases l with
  | nil => exact happend []
  | cons b l =>
    -- The entry kept last is the last of the log, which does not join.
    have hstate : ∀ (l : List α) (b : α), (∀ y ∈ (b :: l).getLast?, joins y = false) →
        joins (l.foldl (collapseStep action join) ([], b)).2 = false := by
      intro l
      induction l using List.reverseRecOn with
      | nil => intro b hb; exact hb b rfl
      | append_singleton l y _ =>
        intro b hb
        have hy : joins y = false := hb y (by rw [← List.cons_append, List.getLast?_concat]; rfl)
        rw [List.foldl_append, List.foldl_cons, List.foldl_nil]
        generalize l.foldl (collapseStep action join) ([], b) = st
        obtain ⟨front, previous⟩ := st
        cases herases : erases y with
        | true =>
          rw [collapseStep, h.reset y previous herases]
          exact hy
        | false =>
          rw [h.collapseStep_keep herases fun hjy => by rw [hy] at hjy; cases hjy]
          exact hy
    have hprevious := hstate l b hlast
    rw [collapse_append]
    show collapseFrom action join (l.foldl (collapseStep action join) ([], b)) (a :: rest) =
      (l.foldl (collapseStep action join) ([], b)).1 ++
        [(l.foldl (collapseStep action join) ([], b)).2] ++ _
    generalize l.foldl (collapseStep action join) ([], b) = st at hprevious ⊢
    obtain ⟨front, previous⟩ := st
    rw [collapseFrom_cons, h.collapseStep_keep (h.apart a ha) fun _ => hprevious]
    exact happend _

/-- After a reset nothing is left of what was kept before. -/
theorem Kinds.collapseFrom_reset {P : α → Prop}
    (hjoin : ∀ a b, action b a = .join → P a → P b → P (join a b))
    {l : List α} (hl : ∀ a ∈ l, P a) (hreset : ∃ a ∈ l, erases a = true) (st : List α × α) :
    ∀ b ∈ collapseFrom action join st l, P b := by
  induction l generalizing st with
  | nil =>
    obtain ⟨a, ha, _⟩ := hreset
    cases ha
  | cons a rest ih =>
    have hrest : ∀ b ∈ rest, P b := fun b hb => hl b (List.mem_cons_of_mem _ hb)
    rw [collapseFrom_cons]
    by_cases hlater : ∃ b ∈ rest, erases b = true
    · exact ih hrest hlater _
    · obtain ⟨b, hb, herases⟩ := hreset
      have hba : b = a := by
        rcases List.mem_cons.mp hb with hb | hb
        · exact hb
        · exact absurd ⟨b, hb, herases⟩ hlater
      subst hba
      obtain ⟨front, previous⟩ := st
      rw [collapseStep, h.reset b previous herases]
      refine collapseFrom_forall hjoin ?_ hrest
      simpa using hl b List.mem_cons_self

/-! ### Entries that are never joined -/

section Marked

variable {marked : α → Bool} (hmarked : ∀ a, joins a = true → marked a = false)

include hmarked

theorem Kinds.mem_collapseStep (st : List α × α) (a : α) {b : α} (hb : marked b = true) :
    b ∈ (collapseStep action join st a).1 ++ [(collapseStep action join st a).2] ↔
      (b ∈ st.1 ++ [st.2] ∧ erases a = false) ∨ b = a := by
  obtain ⟨front, previous⟩ := st
  cases herases : erases a with
  | true =>
    rw [collapseStep, h.reset a previous herases]
    simp
  | false =>
    by_cases hjoins : joins a = true ∧ joins previous = true
    · rw [collapseStep, h.joined a previous hjoins.1 hjoins.2]
      -- what joins or is joined is not marked
      have hne : ∀ c, joins c = true → b ≠ c := fun c hc heq => by
        rw [heq, hmarked c hc] at hb
        cases hb
      have hjoined : joins (join previous a) = true := (h.joins_join previous a).trans hjoins.2
      simp [hne _ hjoins.1, hne _ hjoins.2, hne _ hjoined]
    · have hkeep : joins a = true → joins previous = false := fun hja =>
        Bool.eq_false_iff.mpr fun hjp => hjoins ⟨hja, hjp⟩
      rw [h.collapseStep_keep herases hkeep]
      simp [or_assoc]

theorem Kinds.mem_collapseFrom {l : List α} {st : List α × α} {b : α} (hb : marked b = true) :
    b ∈ collapseFrom action join st l ↔
      (b ∈ st.1 ++ [st.2] ∧ ∀ a ∈ l, erases a = false) ∨
        ∃ before after, l = before ++ b :: after ∧ ∀ a ∈ after, erases a = false := by
  induction l generalizing st with
  | nil => simp [collapseFrom]
  | cons a rest ih =>
    rw [collapseFrom_cons, ih, h.mem_collapseStep hmarked st a hb]
    constructor
    · intro hgiven
      rcases hgiven with ⟨⟨hst, ha⟩ | heq, hrest⟩ | ⟨before, after, hrest, hafter⟩
      · refine .inl ⟨hst, fun c hc => ?_⟩
        rcases List.mem_cons.mp hc with rfl | hc
        · exact ha
        · exact hrest c hc
      · exact .inr ⟨[], rest, by rw [heq]; rfl, hrest⟩
      · exact .inr ⟨a :: before, after, by rw [hrest]; rfl, hafter⟩
    · intro hgiven
      rcases hgiven with ⟨hst, hall⟩ | ⟨before, after, heq, hafter⟩
      · exact .inl ⟨.inl ⟨hst, hall a List.mem_cons_self⟩,
          fun c hc => hall c (List.mem_cons_of_mem a hc)⟩
      · cases before with
        | nil =>
          cases heq
          exact .inl ⟨.inr rfl, hafter⟩
        | cons c before =>
          cases heq
          exact .inr ⟨before, after, rfl, hafter⟩

/-- A marked entry is kept exactly if no reset comes after it. -/
theorem Kinds.mem_collapse {l : List α} {b : α} (hb : marked b = true) :
    b ∈ collapse action join l ↔
      ∃ before after, l = before ++ b :: after ∧ ∀ a ∈ after, erases a = false := by
  cases l with
  | nil => simp [collapse]
  | cons a rest =>
    rw [collapse, h.mem_collapseFrom hmarked hb]
    constructor
    · intro hgiven
      rcases hgiven with ⟨hst, hrest⟩ | ⟨before, after, hrest, hafter⟩
      · rw [List.nil_append, List.mem_singleton] at hst
        exact ⟨[], rest, by rw [hst]; rfl, hrest⟩
      · exact ⟨a :: before, after, by rw [hrest]; rfl, hafter⟩
    · intro hgiven
      obtain ⟨before, after, heq, hafter⟩ := hgiven
      cases before with
      | nil =>
        cases heq
        exact .inl ⟨List.mem_singleton.mpr rfl, hafter⟩
      | cons c before =>
        cases heq
        exact .inr ⟨before, after, rfl, hafter⟩

end Marked

end Kinds

end Collections
end Eds
