import Eds.Collections.Keyed
import Eds.Collections.Resumed
import Mathlib.Data.List.TakeWhile

/-!
# A snapshot and the log behind it

A store is filled with what the `early` messages of a log have done, and is then given the `late`
ones.  A message may be both.  If no message is neither, and the messages are in order, the store is
that of one pass over the log (`foldl_overlap`); for rows under keys it is enough that those of each
key are in order (`foldl_snapshot`).
-/

namespace Eds
namespace Collections

variable {M S K C V T : Type}

theorem filter_eq_takeWhile {p : M → Bool} {l : List M} (h : l.Pairwise fun a b => p b = true → p a = true) :
    l.filter p = l.takeWhile p := by
  induction l with
  | nil => rfl
  | cons a rest ih =>
    obtain ⟨ha, hrest⟩ := List.pairwise_cons.mp h
    by_cases hp : p a = true
    · rw [List.filter_cons_of_pos hp, List.takeWhile_cons_of_pos hp, ih hrest]
    · rw [List.filter_cons_of_neg hp, List.takeWhile_cons_of_neg hp]
      exact List.filter_eq_nil_iff.mpr fun b hb hpb => hp (ha b hb hpb)

theorem filter_eq_dropWhile {p : M → Bool} {l : List M} (h : l.Pairwise fun a b => p a = true → p b = true) :
    l.filter p = l.dropWhile fun a => !p a := by
  induction l with
  | nil => rfl
  | cons a rest ih =>
    obtain ⟨ha, hrest⟩ := List.pairwise_cons.mp h
    by_cases hp : p a = true
    · rw [List.filter_cons_of_pos hp, List.dropWhile_cons_of_neg (by simpa using hp)]
      exact congrArg _ (List.filter_eq_self.mpr fun b hb => ha b hb hp)
    · rw [List.filter_cons_of_neg hp, List.dropWhile_cons_of_pos (by simpa using hp), ih hrest]

section Overlap

variable {run : T → M → T} {early late : M → Bool} {l : List M}

theorem foldl_overlap (hearly : l.Pairwise fun a b => early b = true → early a = true)
    (hlate : l.Pairwise fun a b => late a = true → late b = true)
    (hcover : ∀ a ∈ l, early a = true ∨ late a = true)
    (hrun : ∀ b : List M, b.Sublist l → Rerunnable run b) (t : T) :
    (l.filter late).foldl run ((l.filter early).foldl run t) = l.foldl run t := by
  rw [filter_eq_takeWhile hearly, filter_eq_dropWhile hlate]
  -- The log is what comes before the late messages, those of them that are early, and the rest.
  generalize ha : l.takeWhile (fun a => !late a) = a
  generalize hs : l.dropWhile (fun a => !late a) = s
  have hl : l = a ++ s := by
    rw [← ha, ← hs, List.takeWhile_append_dropWhile]
  have haearly : ∀ x ∈ a, early x = true := by
    intro x hx
    have hnot := List.mem_takeWhile_imp (ha ▸ hx)
    refine (hcover x (hl ▸ List.mem_append_left s hx)).resolve_right ?_
    simpa using hnot
  have hfirst : l.takeWhile early = a ++ s.takeWhile early := by
    rw [hl, List.takeWhile_append_of_pos haearly]
  have hsplit : s = s.takeWhile early ++ s.dropWhile early := List.takeWhile_append_dropWhile.symm
  have hsub : (s.takeWhile early).Sublist l := by
    rw [hl]
    exact (List.takeWhile_sublist early).trans (List.sublist_append_right a s)
  rw [hfirst]
  generalize s.takeWhile early = b at hsplit hsub
  rw [hl, hsplit, foldl_resume (hrun b hsub), List.append_assoc]

end Overlap

/-! ## Rows under keys -/

section Rows

variable [DecidableEq K]

/-- The write of a message, if it is to that key. -/
def writeAt (meaning : M → Option (K × Write C V)) (k : K) (m : M) : Option (Write C V) :=
  (meaning m).bind fun kw => if kw.1 = k then some kw.2 else none

theorem writeAt_eq_some {meaning : M → Option (K × Write C V)} {k : K} {m : M} {w : Write C V} :
    writeAt meaning k m = some w ↔ meaning m = some (k, w) := by
  rw [writeAt, Option.bind_eq_some_iff]
  constructor
  · rintro ⟨⟨k', w'⟩, hmeaning, hkey⟩
    by_cases hk : k' = k
    · subst hk
      rw [if_pos rfl] at hkey
      cases hkey
      exact hmeaning
    · rw [if_neg hk] at hkey
      cases hkey
  · exact fun hmeaning => ⟨(k, w), hmeaning, if_pos rfl⟩

theorem writesAt_filter (meaning : M → Option (K × Write C V)) (k : K) (p : M → Bool) (l : List M) :
    writesAt k ((l.filter p).map meaning) =
      ((carrying (writeAt meaning k) l).filter p).filterMap (writeAt meaning k) := by
  have hcomm : (carrying (writeAt meaning k) l).filter p = carrying (writeAt meaning k) (l.filter p) := by
    rw [carrying, carrying, List.filter_filter, List.filter_filter]
    exact List.filter_congr fun m _ => Bool.and_comm _ _
  rw [hcomm, filterMap_carrying, writesAt, List.filterMap_map]
  rfl

/-- What a message does to the row of a key. -/
def act (meaning : M → Option (K × Write C V)) (k : K) (row : Option (C → V)) (m : M) : Option (C → V) :=
  (writeAt meaning k m).elim row fun w => w.apply row

theorem foldl_act (meaning : M → Option (K × Write C V)) (k : K) (l : List M) (row : Option (C → V)) :
    l.foldl (act meaning k) row = Write.run (l.filterMap (writeAt meaning k)) row := by
  induction l generalizing row with
  | nil => rfl
  | cons m rest ih =>
    rw [List.foldl_cons, ih, act]
    cases hm : writeAt meaning k m with
    | none => rw [List.filterMap_cons_none hm]; rfl
    | some w => rw [List.filterMap_cons_some hm]; rfl

variable {meaning : M → Option (K × Write C V)} {early late : M → Bool} {l : List M}

/-- For two messages of one key, what holds of the later one holds of the earlier one. -/
def KeyOrdered (meaning : M → Option (K × Write C V)) (r : M → M → Prop) (l : List M) : Prop :=
  l.Pairwise fun a b => ∀ k w w', meaning a = some (k, w) → meaning b = some (k, w') → r a b

theorem KeyOrdered.carrying {r : M → M → Prop} (h : KeyOrdered meaning r l) (k : K) :
    (carrying (writeAt meaning k) l).Pairwise r := by
  refine List.pairwise_filter.mpr (h.imp fun {a b} hab ha hb => ?_)
  obtain ⟨w, hw⟩ := Option.isSome_iff_exists.mp ha
  obtain ⟨w', hw'⟩ := Option.isSome_iff_exists.mp hb
  exact hab k w w' (writeAt_eq_some.mp hw) (writeAt_eq_some.mp hw')

omit [DecidableEq K] in
theorem KeyOrdered.imp {r r' : M → M → Prop} (h : KeyOrdered meaning r l)
    (himp : ∀ a ∈ l, ∀ b ∈ l, r a b → r' a b) : KeyOrdered meaning r' l :=
  List.Pairwise.imp_of_mem
    (fun {a b} ha hb hab k w w' hw hw' => himp a ha b hb (hab k w w' hw hw')) h

theorem execAll_overlap (hearly : KeyOrdered meaning (fun a b => early b = true → early a = true) l)
    (hlate : KeyOrdered meaning (fun a b => late a = true → late b = true) l)
    (hcover : ∀ a ∈ l, ∀ k w, meaning a = some (k, w) → early a = true ∨ late a = true)
    (hagrees : ∀ a ∈ l, ∀ k w, meaning a = some (k, w) → w.Agrees) (t : K → Option (C → V)) :
    execAll ((l.filter late).map meaning) (execAll ((l.filter early).map meaning) t) =
      execAll (l.map meaning) t := by
  funext k
  have hrun : ∀ b : List M, b.Sublist (carrying (writeAt meaning k) l) → Rerunnable (act meaning k) b := by
    intro b hb row
    rw [foldl_act, foldl_act]
    refine Write.run_run (fun w hw => ?_) row
    obtain ⟨m, hm, hmw⟩ := List.mem_filterMap.mp hw
    exact hagrees m (List.mem_of_mem_filter (hb.mem hm)) k w (writeAt_eq_some.mp hmw)
  have hall : writesAt k (l.map meaning) = (carrying (writeAt meaning k) l).filterMap (writeAt meaning k) := by
    rw [filterMap_carrying, writesAt, List.filterMap_map]
    rfl
  rw [execAll_apply, execAll_apply, execAll_apply, writesAt_filter, writesAt_filter, hall, ← foldl_act,
    ← foldl_act, ← foldl_act]
  refine foldl_overlap (hearly.carrying k) (hlate.carrying k) (fun a ha => ?_) hrun (t k)
  obtain ⟨hmem, hsome⟩ := List.mem_filter.mp ha
  obtain ⟨w, hw⟩ := Option.isSome_iff_exists.mp hsome
  exact hcover a hmem k w (writeAt_eq_some.mp hw)

end Rows

section Statements

variable [DecidableEq K] {carry : M → Option S} {run : (K → Option (C → V)) → S → K → Option (C → V)}
  {meaning : S → Option (K × Write C V)} {early late : M → Bool} {l : List M}

theorem foldl_carry (h : ∀ m ∈ l, ∀ s, carry m = some s → ∀ t, run t s = exec t (meaning s))
    (t : K → Option (C → V)) :
    (l.filterMap carry).foldl run t = execAll (l.map fun m => (carry m).bind meaning) t := by
  induction l generalizing t with
  | nil => rfl
  | cons m rest ih =>
    have hrest := ih fun m hm => h m (List.mem_cons_of_mem _ hm)
    cases hm : carry m with
    | none =>
      rw [List.filterMap_cons_none hm, hrest, List.map_cons, hm]
      rfl
    | some s =>
      rw [List.filterMap_cons_some hm, List.foldl_cons, h m List.mem_cons_self s hm, hrest, List.map_cons, hm]
      rfl

/-- A snapshot of the early messages, and the late ones over it. -/
theorem foldl_snapshot (h : ∀ m ∈ l, ∀ s, carry m = some s → ∀ t, run t s = exec t (meaning s))
    (hagrees : ∀ m ∈ l, ∀ s, carry m = some s → ∀ k w, meaning s = some (k, w) → w.Agrees)
    (hearly : KeyOrdered (fun m => (carry m).bind meaning) (fun a b => early b = true → early a = true) l)
    (hlate : KeyOrdered (fun m => (carry m).bind meaning) (fun a b => late a = true → late b = true) l)
    (hcover : ∀ m ∈ l, ∀ s, carry m = some s → early m = true ∨ late m = true)
    (t : K → Option (C → V)) :
    ((l.filter late).filterMap carry).foldl run (((l.filter early).filterMap carry).foldl run t) =
      (l.filterMap carry).foldl run t := by
  have hsub : ∀ p : M → Bool, ∀ m ∈ l.filter p, ∀ s, carry m = some s → ∀ t, run t s = exec t (meaning s) :=
    fun p m hm => h m (List.mem_of_mem_filter hm)
  rw [foldl_carry (hsub late), foldl_carry (hsub early), foldl_carry h]
  refine execAll_overlap hearly hlate (fun m hm k w hw => ?_) (fun m hm k w hw => ?_) t
  · obtain ⟨s, hs, _⟩ := Option.bind_eq_some_iff.mp hw
    exact hcover m hm s hs
  · obtain ⟨s, hs, hmeaning⟩ := Option.bind_eq_some_iff.mp hw
    exact hagrees m hm s hs k w hmeaning

end Statements

end Collections
end Eds
