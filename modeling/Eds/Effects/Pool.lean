import Mathlib.Data.List.Basic
import Mathlib.Logic.Relation

/-!
# Worker pools

A pool of `w` workers takes jobs from a queue, in order, and each job lands once, at some time
between its being taken and its worker's being free again.  `Completes w jobs landed` says that
the jobs can land in the order `landed`.

One worker lands them in the order of the queue (`completes_one`).  Two can hold back any job
until all the others have landed (`completes_delayed`).

When the jobs write values under keys, what a store holds in the end is what landed last under
each key.  It is what was last in the queue, whatever the workers do, if and only if there is
one worker or no key is written with two values (`last_wins_iff`).
-/

namespace Eds
namespace Effects

/-- The jobs that wait, that a worker has, and that have landed. -/
structure Pool (J : Type) where
  waiting : List J
  running : List J
  landed : List J

namespace Pool

variable {J : Type} {w : Nat}

inductive Step (w : Nat) : Pool J → Pool J → Prop where
  | take {j : J} {waiting running landed : List J} (h : running.length < w) :
      Step w ⟨j :: waiting, running, landed⟩ ⟨waiting, running ++ [j], landed⟩
  | land {j : J} {waiting before after landed : List J} :
      Step w ⟨waiting, before ++ j :: after, landed⟩ ⟨waiting, before ++ after, landed ++ [j]⟩

abbrev Steps (w : Nat) : Pool J → Pool J → Prop := Relation.ReflTransGen (Step w)

def Completes (w : Nat) (jobs landed : List J) : Prop := Steps w ⟨jobs, [], []⟩ ⟨[], [], landed⟩

theorem steps_invariant {I : Pool J → Prop} (hstep : ∀ {p q}, Step w p q → I p → I q) {p q : Pool J}
    (h : Steps w p q) (hp : I p) : I q := by
  induction h with
  | refl => exact hp
  | tail _ hlast ih => exact hstep hlast ih

/-- Every job lands once. -/
theorem completes_perm {jobs landed : List J} (h : Completes w jobs landed) : landed.Perm jobs := by
  have hinv := steps_invariant (I := fun p => (p.waiting ++ p.running ++ p.landed).Perm jobs)
    (fun hstep hp => ?_) h (by simp)
  · simpa using hinv
  · refine List.Perm.trans ?_ hp
    cases hstep with
    | @take j waiting running landed _ =>
      have hmove : (waiting ++ (running ++ [j])).Perm (j :: waiting ++ running) := by
        rw [← List.append_assoc]
        exact List.perm_append_singleton j _
      exact hmove.append_right landed
    | @land j waiting before after landed =>
      have hmove : (before ++ after ++ (landed ++ [j])).Perm (before ++ j :: after ++ landed) := by
        have hout : (before ++ after ++ landed ++ [j]).Perm (j :: (before ++ after ++ landed)) :=
          List.perm_append_singleton j _
        have hmiddle : (before ++ j :: (after ++ landed)).Perm (j :: (before ++ (after ++ landed))) :=
          List.perm_middle
        have hin : (j :: (before ++ after ++ landed)).Perm (before ++ j :: after ++ landed) := by
          simpa using hmiddle.symm
        simpa using hout.trans hin
      simpa using hmove.append_left waiting

/-- A single worker lands the jobs in order. -/
theorem completes_one {jobs landed : List J} (h : Completes 1 jobs landed) : landed = jobs := by
  have hinv := steps_invariant (w := 1)
    (I := fun p => p.landed ++ p.running ++ p.waiting = jobs ∧ p.running.length ≤ 1)
    (fun hstep hp => ?_) h ⟨by simp, Nat.zero_le 1⟩
  · simpa using hinv.1
  · obtain ⟨horder, hone⟩ := hp
    cases hstep with
    | @take j waiting running landed hfree =>
      have hnil : running = [] := List.eq_nil_of_length_eq_zero (by omega)
      subst hnil
      exact ⟨by simpa using horder, Nat.le_refl 1⟩
    | @land j waiting before after landed =>
      have hlen : before.length = 0 ∧ after.length = 0 := by
        simp only [List.length_append, List.length_cons] at hone
        omega
      have hbefore : before = [] := List.eq_nil_of_length_eq_zero hlen.1
      have hafter : after = [] := List.eq_nil_of_length_eq_zero hlen.2
      rw [hbefore, hafter] at horder ⊢
      exact ⟨by simpa using horder, Nat.zero_le 1⟩

/-- With a worker to spare, the first jobs of the queue can land one after the other. -/
theorem steps_sweep {jobs rest running landed : List J} (h : running.length < w) :
    Steps w ⟨jobs ++ rest, running, landed⟩ ⟨rest, running, landed ++ jobs⟩ := by
  induction jobs generalizing landed with
  | nil => rw [List.nil_append, List.append_nil]
  | cons j more ih =>
    have htake : Step w ⟨j :: (more ++ rest), running, landed⟩
        ⟨more ++ rest, running ++ [j], landed⟩ := .take h
    have hland : Step w ⟨more ++ rest, running ++ j :: [], landed⟩
        ⟨more ++ rest, running ++ [], landed ++ [j]⟩ := .land
    rw [List.append_nil] at hland
    rw [List.append_cons landed]
    exact .head htake (.head hland ih)

theorem completes_all (hw : 0 < w) (jobs : List J) : Completes w jobs jobs := by
  have hall : Steps w ⟨jobs ++ [], [], []⟩ ⟨[], [], [] ++ jobs⟩ := steps_sweep hw
  rwa [List.append_nil] at hall

/-- With two workers, one job can be held back to the end. -/
theorem completes_delayed (hw : 2 ≤ w) (before : List J) (j : J) (after : List J) :
    Completes w (before ++ j :: after) (before ++ after ++ [j]) := by
  have hfirst : Steps w ⟨before ++ j :: after, [], []⟩ ⟨j :: after, [], [] ++ before⟩ :=
    steps_sweep (Nat.lt_of_lt_of_le Nat.zero_lt_two hw)
  have htake : Step w ⟨j :: after, [], before⟩ ⟨after, [] ++ [j], before⟩ :=
    .take (Nat.lt_of_lt_of_le Nat.zero_lt_two hw)
  have hrest : Steps w ⟨after ++ [], [j], before⟩ ⟨[], [j], before ++ after⟩ := steps_sweep hw
  have hland : Step w ⟨[], [] ++ j :: [], before ++ after⟩ ⟨[], [] ++ [], before ++ after ++ [j]⟩ :=
    .land
  rw [List.append_nil] at hrest
  exact (hfirst.tail htake).trans (hrest.tail hland)

end Pool

/-! ## Jobs that write -/

section Writes

variable {κ ν : Type} [DecidableEq κ]

/-- The value that is last under a key. -/
def lastOf (k : κ) : List (κ × ν) → Option ν
  | [] => none
  | job :: rest => (lastOf k rest).or (if job.1 = k then some job.2 else none)

def writeAll (jobs : List (κ × ν)) (store : κ → Option ν) : κ → Option ν :=
  jobs.foldl (fun s job => Function.update s job.1 (some job.2)) store

theorem lastOf_append (k : κ) (l r : List (κ × ν)) :
    lastOf k (l ++ r) = (lastOf k r).or (lastOf k l) := by
  induction l with
  | nil => simp [lastOf]
  | cons job rest ih => rw [List.cons_append, lastOf, ih, lastOf, Option.or_assoc]

theorem writeAll_apply (jobs : List (κ × ν)) (store : κ → Option ν) (k : κ) :
    writeAll jobs store k = (lastOf k jobs).or (store k) := by
  induction jobs generalizing store with
  | nil => rfl
  | cons job rest ih =>
    rw [writeAll, List.foldl_cons]
    refine (ih _).trans ?_
    rw [lastOf, Option.or_assoc]
    congr 1
    by_cases hk : job.1 = k
    · rw [if_pos hk, hk, Function.update_self]
      rfl
    · rw [if_neg hk, Function.update_of_ne (Ne.symm hk)]
      rfl

theorem mem_of_lastOf {k : κ} {v : ν} {l : List (κ × ν)} (h : lastOf k l = some v) : (k, v) ∈ l := by
  induction l with
  | nil => cases h
  | cons job rest ih =>
    rw [lastOf, Option.or_eq_some_iff] at h
    rcases h with h | ⟨_, h⟩
    · exact List.mem_cons_of_mem job (ih h)
    · by_cases hk : job.1 = k
      · rw [if_pos hk] at h
        cases h
        exact hk ▸ List.mem_cons_self
      · rw [if_neg hk] at h
        cases h

theorem lastOf_of_mem {k : κ} {v : ν} {l : List (κ × ν)} (h : (k, v) ∈ l) :
    ∃ v', lastOf k l = some v' := by
  obtain ⟨before, after, rfl⟩ := List.append_of_mem h
  rw [lastOf_append, lastOf, if_pos rfl]
  cases lastOf k after with
  | none => exact ⟨v, rfl⟩
  | some v' => exact ⟨v', rfl⟩

theorem last_wins_iff {w : Nat} (hw : 0 < w) (jobs : List (κ × ν)) :
    (∀ landed, Pool.Completes w jobs landed → ∀ k, lastOf k landed = lastOf k jobs) ↔
      w = 1 ∨ ∀ k v, (k, v) ∈ jobs → lastOf k jobs = some v := by
  constructor
  · intro h
    by_cases hone : w = 1
    · exact Or.inl hone
    · refine Or.inr fun k v hmem => ?_
      obtain ⟨before, after, rfl⟩ := List.append_of_mem hmem
      have hdelayed := h _ (Pool.completes_delayed (by omega) before (k, v) after) k
      rw [← hdelayed, lastOf_append, lastOf, if_pos rfl]
      rfl
  · intro h landed hcompletes k
    rcases h with rfl | hsame
    · rw [Pool.completes_one hcompletes]
    · have hperm := Pool.completes_perm hcompletes
      cases hlast : lastOf k landed with
      | some v => exact (hsame k v (hperm.subset (mem_of_lastOf hlast))).symm
      | none =>
        cases hjobs : lastOf k jobs with
        | none => rfl
        | some v =>
          obtain ⟨v', hv'⟩ := lastOf_of_mem (hperm.symm.subset (mem_of_lastOf hjobs))
          rw [hlast] at hv'
          cases hv'

end Writes

end Effects
end Eds
