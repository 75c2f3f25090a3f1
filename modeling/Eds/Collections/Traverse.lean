import Mathlib.Data.List.Forall2

/-!
# Traversals that may fail
-/

namespace Eds
namespace Collections

variable {α β γ ε : Type}

theorem bind_eq_ok {x : Except ε α} {f : α → Except ε β} {b : β} :
    x >>= f = .ok b ↔ ∃ a, x = .ok a ∧ f a = .ok b := by
  cases x with
  | error e =>
    constructor
    · intro h
      cases h
    · intro hgiven
      obtain ⟨a, ha, _⟩ := hgiven
      cases ha
  | ok a =>
    constructor
    · intro h
      exact ⟨a, rfl, h⟩
    · intro hgiven
      obtain ⟨a', ha, h⟩ := hgiven
      cases ha
      exact h

theorem bind_eq_error {x : Except ε α} {f : α → Except ε β} {e : ε} :
    x >>= f = .error e ↔ x = .error e ∨ ∃ a, x = .ok a ∧ f a = .error e := by
  cases x with
  | error e' =>
    constructor
    · intro h
      cases h
      exact Or.inl rfl
    · rintro (h | ⟨a, ha, _⟩)
      · cases h
        rfl
      · cases ha
  | ok a =>
    constructor
    · intro h
      exact Or.inr ⟨a, rfl, h⟩
    · rintro (h | ⟨a', ha, h⟩)
      · cases h
      · cases ha
        exact h

/-- What a fold that may fail keeps. -/
theorem foldlM_invariant {f : β → α → Except ε β} {P : β → Prop} {l : List α} {b b' : β}
    (hstep : ∀ b a b', a ∈ l → P b → f b a = .ok b' → P b') (hb : P b)
    (h : l.foldlM f b = .ok b') : P b' := by
  induction l generalizing b with
  | nil =>
    cases h
    exact hb
  | cons a rest ih =>
    rw [List.foldlM_cons] at h
    obtain ⟨next, hnext, h⟩ := bind_eq_ok.mp h
    exact ih (fun b a' b' ha' => hstep b a' b' (List.mem_cons_of_mem a ha'))
      (hstep b a next List.mem_cons_self hb hnext) h

theorem mapM_eq_ok {f : α → Except ε β} {l : List α} {r : List β} :
    l.mapM f = .ok r ↔ List.Forall₂ (fun a b => f a = .ok b) l r := by
  induction l generalizing r with
  | nil =>
    rw [List.mapM_nil, List.forall₂_nil_left_iff]
    constructor
    · intro h
      cases h
      rfl
    · intro hgiven
      subst hgiven
      rfl
  | cons a rest ih =>
    rw [List.mapM_cons, bind_eq_ok, List.forall₂_cons_left_iff]
    constructor
    · intro hgiven
      obtain ⟨b, hb, h⟩ := hgiven
      obtain ⟨more, hmore, h⟩ := bind_eq_ok.mp h
      cases h
      exact ⟨b, more, hb, ih.mp hmore, rfl⟩
    · intro hgiven
      obtain ⟨b, more, hb, hmore, rfl⟩ := hgiven
      exact ⟨b, hb, bind_eq_ok.mpr ⟨more, ih.mpr hmore, rfl⟩⟩

theorem exists_of_mem_mapM {f : α → Except ε β} {l : List α} {r : List β} (h : l.mapM f = .ok r)
    {b : β} (hb : b ∈ r) : ∃ a ∈ l, f a = .ok b := by
  obtain ⟨i, hi, rfl⟩ := List.mem_iff_getElem.mp hb
  have hall := List.forall₂_iff_get.mp (mapM_eq_ok.mp h)
  have hi' : i < l.length := hall.1 ▸ hi
  exact ⟨l.get ⟨i, hi'⟩, List.get_mem l ⟨i, hi'⟩, hall.2 i hi' hi⟩

theorem exists_of_mapM {f : α → Except ε β} {l : List α} {r : List β} (h : l.mapM f = .ok r)
    {a : α} (ha : a ∈ l) : ∃ b, f a = .ok b := by
  obtain ⟨i, hi, rfl⟩ := List.mem_iff_getElem.mp ha
  have hall := List.forall₂_iff_get.mp (mapM_eq_ok.mp h)
  exact ⟨r.get ⟨i, hall.1 ▸ hi⟩, hall.2 i hi (hall.1 ▸ hi)⟩

/-- A traversal fails with the error of an element. -/
theorem exists_of_mapM_error {f : α → Except ε β} {l : List α} {e : ε} (h : l.mapM f = .error e) :
    ∃ a ∈ l, f a = .error e := by
  induction l with
  | nil => cases h
  | cons a rest ih =>
    rw [List.mapM_cons] at h
    rcases bind_eq_error.mp h with ha | ⟨b, -, hmore⟩
    · exact ⟨a, List.mem_cons_self, ha⟩
    · rcases bind_eq_error.mp hmore with hrest | ⟨bs, -, hpure⟩
      · obtain ⟨a', ha', hfail⟩ := ih hrest
        exact ⟨a', List.mem_cons_of_mem a ha', hfail⟩
      · cases hpure

/-- What holds of each element from some number on holds of all from some number on. -/
theorem exists_bound {P : Nat → α → Prop} {l : List α}
    (h : ∀ a ∈ l, ∃ n, ∀ m, n ≤ m → P m a) : ∃ n, ∀ m, n ≤ m → ∀ a ∈ l, P m a := by
  induction l with
  | nil => exact ⟨0, fun _ _ _ ha => absurd ha List.not_mem_nil⟩
  | cons a rest ih =>
    obtain ⟨n, hn⟩ := h a List.mem_cons_self
    obtain ⟨k, hk⟩ := ih fun a' ha' => h a' (List.mem_cons_of_mem a ha')
    refine ⟨max n k, fun m hm => List.forall_mem_cons.mpr ⟨hn m ?_, hk m ?_⟩⟩
    · exact Nat.le_trans (Nat.le_max_left n k) hm
    · exact Nat.le_trans (Nat.le_max_right n k) hm

/-- What is known of each result is known of the list. -/
theorem map_of_mapM {f : α → Except ε β} {l : List α} {r : List β} (h : l.mapM f = .ok r)
    {g : β → γ} {g' : α → γ} (hg : ∀ a ∈ l, ∀ b, f a = .ok b → g b = g' a) : r.map g = l.map g' := by
  induction l generalizing r with
  | nil =>
    cases h
    rfl
  | cons a rest ih =>
    obtain ⟨b, more, hb, hmore, rfl⟩ := List.forall₂_cons_left_iff.mp (mapM_eq_ok.mp h)
    rw [List.map_cons, List.map_cons, hg a List.mem_cons_self b hb,
      ih (mapM_eq_ok.mpr hmore) fun a ha => hg a (List.mem_cons_of_mem _ ha)]

/-- Each element paired with its result. -/
theorem mapM_pair [Inhabited β] {f : α → Except ε β} {l : List α} {r : List (α × β)}
    (h : (l.mapM fun a => do
      let b ← f a
      pure (a, b)) = .ok r) :
    ∃ g : α → β, r = l.map (fun a => (a, g a)) ∧ ∀ a ∈ l, f a = .ok (g a) := by
  let g : α → β := fun a =>
    match f a with
    | .ok b => b
    | .error _ => default
  refine ⟨g, ?_⟩
  induction l generalizing r with
  | nil =>
    cases h
    exact ⟨rfl, fun a ha => by cases ha⟩
  | cons a rest ih =>
    rw [List.mapM_cons] at h
    obtain ⟨p, hp, h⟩ := bind_eq_ok.mp h
    obtain ⟨more, hmore, h⟩ := bind_eq_ok.mp h
    cases h
    obtain ⟨b, hb, hp⟩ := bind_eq_ok.mp hp
    cases hp
    have hg : g a = b := by
      show (match f a with | .ok b => b | .error _ => default) = b
      rw [hb]
    obtain ⟨rfl, hall⟩ := ih hmore
    refine ⟨by rw [List.map_cons, hg], fun a' ha' => ?_⟩
    rcases List.mem_cons.mp ha' with rfl | ha'
    · rw [hg]
      exact hb
    · exact hall a' ha'

end Collections
end Eds
