import Mathlib.Data.List.Basic
import Mathlib.Data.List.Nodup
import Mathlib.Logic.Relation

/-!
# A log given out again and again

Somebody hands out the messages of a log that have not been confirmed, in order, and a
store is changed by what some of them carry.  A round takes the first ones, applies the
beginning of those, confirms a beginning of what was applied, and ends at any point, so
that the next round starts with messages whose effect is already there.

If applying any part of the log twice in a row is applying it once, nothing of that is
seen in the end (`rounds_caughtUp`): what is outstanding, applied to the store as it is,
always gives the store of one pass over the whole log.
-/

namespace Eds
namespace Collections

variable {M E T : Type}

/-- Applying the list twice in a row is applying it once. -/
def Rerunnable (run : T → E → T) (es : List E) : Prop :=
  ∀ t, es.foldl run (es.foldl run t) = es.foldl run t

theorem foldl_resume {run : T → E → T} {b : List E} (h : Rerunnable run b) (a c : List E) (t : T) :
    (b ++ c).foldl run ((a ++ b).foldl run t) = (a ++ b ++ c).foldl run t := by
  rw [List.foldl_append, List.foldl_append, List.foldl_append, List.foldl_append, h]

/-- The messages that carry something. -/
def carrying (carries : M → Option E) (ms : List M) : List M :=
  ms.filter fun m => (carries m).isSome

theorem filterMap_carrying (carries : M → Option E) (ms : List M) :
    (carrying carries ms).filterMap carries = ms.filterMap carries := by
  rw [carrying, List.filterMap_filter]
  refine List.filterMap_congr fun m _ => ?_
  cases carries m <;> rfl

/-- What has been confirmed so far, and the store. -/
structure Delivery (M T : Type) where
  confirmed : List M
  store : T

section Rounds

variable [DecidableEq M]

/-- What has not been confirmed, in order. -/
def outstanding (log confirmed : List M) : List M := log.filter fun m => decide (m ∉ confirmed)

theorem outstanding_nil (log : List M) : outstanding log [] = log := by
  simp [outstanding]

theorem outstanding_sublist (log confirmed : List M) : (outstanding log confirmed).Sublist log :=
  List.filter_sublist

theorem outstanding_append (log confirmed more : List M) :
    outstanding log (confirmed ++ more) = outstanding (outstanding log confirmed) more := by
  simp only [outstanding, List.filter_filter]
  refine List.filter_congr fun m _ => ?_
  simp [Bool.and_comm]

/-- Confirming the first messages leaves the others. -/
theorem outstanding_prefix {a rest : List M} (h : (a ++ rest).Nodup) :
    outstanding (a ++ rest) a = rest := by
  obtain ⟨_, _, hdisjoint⟩ := List.nodup_append.mp h
  have hfirst : a.filter (fun m => decide (m ∉ a)) = [] := by simp
  have hrest : rest.filter (fun m => decide (m ∉ a)) = rest := by
    refine List.filter_eq_self.mpr fun m hm => ?_
    simpa using fun ha => hdisjoint m ha m hm rfl
  rw [outstanding, List.filter_append, hfirst, hrest, List.nil_append]

variable {carries : M → Option E} {run : T → E → T} {log : List M} {x y : Delivery M T}

theorem carrying_outstanding (log confirmed : List M) :
    carrying carries (outstanding log confirmed) =
      outstanding (carrying carries log) (carrying carries confirmed) := by
  simp only [carrying, outstanding, List.filter_filter]
  refine List.filter_congr fun m _ => ?_
  cases hm : (carries m).isSome <;> simp [hm]

/-- One round.  Of the messages that carry something the first ones are applied, and the
first of those are confirmed; the others are confirmed as it comes. -/
structure Round (carries : M → Option E) (run : T → E → T) (log : List M) (x y : Delivery M T)
    (applied received : List M) : Prop where
  first : applied <+: carrying carries (outstanding log x.confirmed)
  earned : carrying carries received <+: applied
  store : y.store = (applied.filterMap carries).foldl run x.store
  confirmed : y.confirmed = x.confirmed ++ received

/-- What the store becomes when everything outstanding is applied to it. -/
def Delivery.caughtUp (carries : M → Option E) (run : T → E → T) (log : List M)
    (x : Delivery M T) : T :=
  ((outstanding log x.confirmed).filterMap carries).foldl run x.store

theorem Round.caughtUp {applied received : List M} (h : Round carries run log x y applied received)
    (hlog : log.Nodup) (hrun : ∀ ms : List M, Rerunnable run (ms.filterMap carries)) :
    y.caughtUp carries run log = x.caughtUp carries run log := by
  obtain ⟨b, hb⟩ := h.earned
  obtain ⟨c, hc⟩ := h.first
  -- Outstanding before is what is received, then `b ++ c`, and `b ++ c` after.
  have hbefore : carrying carries (outstanding log x.confirmed) =
      carrying carries received ++ (b ++ c) := by
    rw [← hc, ← hb, List.append_assoc]
  have hnodup : (carrying carries received ++ (b ++ c)).Nodup := by
    rw [← hbefore]
    exact (hlog.sublist (outstanding_sublist _ _)).filter _
  have hafter : carrying carries (outstanding log y.confirmed) = b ++ c := by
    rw [h.confirmed, outstanding_append, carrying_outstanding, hbefore, outstanding_prefix hnodup]
  rw [Delivery.caughtUp, Delivery.caughtUp, ← filterMap_carrying, hafter, h.store, ← hb,
    ← filterMap_carrying carries (outstanding log x.confirmed), hbefore, ← List.append_assoc]
  simp only [List.filterMap_append]
  exact foldl_resume (hrun b) _ _ _

/-- However the rounds went, what is outstanding completes the one pass. -/
theorem rounds_caughtUp (hlog : log.Nodup)
    (hrun : ∀ ms : List M, Rerunnable run (ms.filterMap carries))
    (h : Relation.ReflTransGen
      (fun x y => ∃ applied received, Round carries run log x y applied received) x y) :
    y.caughtUp carries run log = x.caughtUp carries run log := by
  induction h with
  | refl => rfl
  | tail _ hround ih =>
    obtain ⟨applied, received, hround⟩ := hround
    exact (hround.caughtUp hlog hrun).trans ih

end Rounds

end Collections
end Eds
