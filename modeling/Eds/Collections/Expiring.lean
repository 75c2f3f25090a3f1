import Mathlib.Logic.Function.Basic

/-!
# Maps whose entries expire

An entry carries a deadline, or none for one that stays.  A lookup removes the entry
it finds expired, and a sweep removes all of them.  Neither adds an entry, so that a
fact about every entry survives them, and this is all that `Thins` says.
-/

namespace Eds
namespace Collections

structure Timed (ν : Type) where
  value : ν
  deadline : Option Int

/-- The deadline itself is still in time. -/
def Timed.expired {ν : Type} (now : Int) (e : Timed ν) : Bool :=
  match e.deadline with
  | none => false
  | some d => decide (d < now)

abbrev Expiring (κ ν : Type) := κ → Option (Timed ν)

namespace Expiring

variable {κ ν : Type}

def empty : Expiring κ ν := fun _ => none

def sweep (now : Int) (m : Expiring κ ν) : Expiring κ ν :=
  fun k => (m k).filter fun e => !e.expired now

def find (k : κ) (now : Int) (m : Expiring κ ν) : Option ν :=
  ((m k).filter fun e => !e.expired now).map Timed.value

/-- What a lookup leaves. -/
def evict [DecidableEq κ] (k : κ) (now : Int) (m : Expiring κ ν) : Expiring κ ν :=
  Function.update m k ((m k).filter fun e => !e.expired now)

def put [DecidableEq κ] (k : κ) (e : Timed ν) (m : Expiring κ ν) : Expiring κ ν :=
  Function.update m k (some e)

def Thins (m m' : Expiring κ ν) : Prop := ∀ k e, m' k = some e → m k = some e

theorem Thins.refl (m : Expiring κ ν) : Thins m m := fun _ _ h => h

theorem Thins.trans {m m' m'' : Expiring κ ν} (h : Thins m m') (h' : Thins m' m'') : Thins m m'' :=
  fun k e he => h k e (h' k e he)

theorem thins_sweep (now : Int) (m : Expiring κ ν) : Thins m (m.sweep now) :=
  fun _ _ he => (Option.filter_eq_some_iff.mp he).1

variable {m : Expiring κ ν} {k : κ} {now : Int}

theorem find_eq_some {v : ν} (h : m.find k now = some v) : ∃ e, m k = some e ∧ e.value = v := by
  obtain ⟨e, he, hv⟩ := Option.map_eq_some_iff.mp h
  exact ⟨e, (Option.filter_eq_some_iff.mp he).1, hv⟩

/-- Entries without a deadline are found. -/
theorem find_lasting (h : ∀ e, m k = some e → e.deadline = none) :
    m.find k now = (m k).map Timed.value := by
  cases hk : m k with
  | none => rw [find, hk]; rfl
  | some e =>
    have hlive : e.expired now = false := by rw [Timed.expired, h e hk]
    rw [find, hk, Option.filter_some, hlive]
    rfl

variable [DecidableEq κ]

theorem thins_evict : Thins m (m.evict k now) := by
  intro k' e he
  by_cases hk : k' = k
  · subst hk
    rw [evict, Function.update_self] at he
    exact (Option.filter_eq_some_iff.mp he).1
  · rw [evict, Function.update_of_ne hk] at he
    exact he

/-- A lookup leaves them. -/
theorem evict_lasting (h : ∀ e, m k = some e → e.deadline = none) : m.evict k now = m := by
  have hkeep : (m k).filter (fun e => !e.expired now) = m k := by
    cases hk : m k with
    | none => rfl
    | some e =>
      have hlive : e.expired now = false := by rw [Timed.expired, h e hk]
      rw [Option.filter_some, hlive]
      rfl
  rw [evict, hkeep, Function.update_eq_self]

theorem put_self {e : Timed ν} : m.put k e k = some e := Function.update_self ..

theorem put_of_ne {k' : κ} {e : Timed ν} (h : k' ≠ k) : m.put k e k' = m k' :=
  Function.update_of_ne h ..

theorem put_eq_some {k' : κ} {e e' : Timed ν} (h : m.put k e k' = some e') :
    (k' = k ∧ e' = e) ∨ (k' ≠ k ∧ m k' = some e') := by
  by_cases hk : k' = k
  · subst hk
    rw [put_self] at h
    exact Or.inl ⟨rfl, (Option.some.inj h).symm⟩
  · rw [put_of_ne hk] at h
    exact Or.inr ⟨hk, h⟩

/-! ## Several keys at once -/

def putAll (keys : List κ) (e : Timed ν) (m : Expiring κ ν) : Expiring κ ν :=
  keys.foldl (fun m k => m.put k e) m

def remove (k : κ) (m : Expiring κ ν) : Expiring κ ν := Function.update m k none

def removeAll (keys : List κ) (m : Expiring κ ν) : Expiring κ ν :=
  keys.foldl (fun m k => m.remove k) m

theorem putAll_apply (keys : List κ) (e : Timed ν) (m : Expiring κ ν) (k : κ) :
    m.putAll keys e k = if k ∈ keys then some e else m k := by
  induction keys generalizing m with
  | nil => rfl
  | cons k' rest ih =>
    rw [putAll, List.foldl_cons]
    refine (ih (m.put k' e)).trans ?_
    by_cases hk : k = k'
    · subst hk
      simp [put_self]
    · simp [put_of_ne hk, hk]

theorem removeAll_apply (keys : List κ) (m : Expiring κ ν) (k : κ) :
    m.removeAll keys k = if k ∈ keys then none else m k := by
  induction keys generalizing m with
  | nil => rfl
  | cons k' rest ih =>
    rw [removeAll, List.foldl_cons]
    refine (ih (m.remove k')).trans ?_
    by_cases hk : k = k'
    · subst hk
      simp [remove]
    · simp [remove, hk]

theorem evict_of_ne {k' : κ} (h : k' ≠ k) : m.evict k now k' = m k' := Function.update_of_ne h ..

end Expiring
end Collections
end Eds
