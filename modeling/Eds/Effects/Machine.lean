/-!
# Machines

A machine takes an action in a state, or cannot.  `follow` takes a list of actions from a
state on, each of which must also be allowed in the state in which it is taken.
-/

namespace Eds
namespace Effects

section Machine

variable {S A : Type} {fire : S → A → Option S} {allowed : S → A → Bool}

def follow (fire : S → A → Option S) (allowed : S → A → Bool) : List A → S → Option S
  | [], s => some s
  | a :: rest, s => if allowed s a then (fire s a).bind (follow fire allowed rest) else none

theorem follow_cons {a : A} {rest : List A} {s t : S} (h : follow fire allowed (a :: rest) s = some t) :
    ∃ u, allowed s a = true ∧ fire s a = some u ∧ follow fire allowed rest u = some t := by
  rw [follow] at h
  split at h
  · next hallowed =>
    obtain ⟨u, hfire, hrest⟩ := Option.bind_eq_some_iff.mp h
    exact ⟨u, hallowed, hfire, hrest⟩
  · cases h

/-- What every action that is allowed preserves holds wherever the actions lead. -/
theorem follow_invariant {I : S → Prop}
    (hstep : ∀ s a t, allowed s a = true → fire s a = some t → I s → I t) {actions : List A}
    {s t : S} (h : follow fire allowed actions s = some t) (hs : I s) : I t := by
  induction actions generalizing s with
  | nil => exact Option.some.inj h ▸ hs
  | cons a rest ih =>
    obtain ⟨u, hallowed, hfire, hrest⟩ := follow_cons h
    exact ih hrest (hstep s a u hallowed hfire hs)

end Machine

end Effects
end Eds
