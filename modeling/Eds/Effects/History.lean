import Mathlib.Data.List.Basic

/-!
# Statements about a history

A history is a list of events, oldest first.  Two kinds of statement recur.

`Guarded P t` looks back: every event of `t` is allowed by the events before it.
`Answered A excused t` looks forward: every event of `t` that is not excused is
answered by a later one.

Both are characterised by what happens when one event is added at the end, and an
invariant of a program that only ever adds events needs nothing else.
-/

namespace Eds
namespace Effects

variable {E : Type}

theorem snoc_eq_append_cons {t pre post : List E} {e x : E} :
    t ++ [e] = pre ++ x :: post ↔
      (post = [] ∧ t = pre ∧ e = x) ∨ ∃ post', post = post' ++ [e] ∧ t = pre ++ x :: post' := by
  constructor
  · intro h
    rcases List.eq_nil_or_concat post with rfl | ⟨post', e', rfl⟩
    · have hlast := List.append_inj' h (by simp)
      exact Or.inl ⟨rfl, hlast.1, by simpa using hlast.2⟩
    · right
      have hcut : t ++ [e] = (pre ++ x :: post') ++ [e'] := by simpa using h
      have hlast := List.append_inj' hcut (by simp)
      have he : e = e' := by simpa using hlast.2
      exact ⟨post', by rw [he, List.concat_eq_append], hlast.1⟩
  · intro hgiven
    rcases hgiven with ⟨rfl, rfl, rfl⟩ | ⟨post', rfl, rfl⟩
    · rfl
    · simp

/-! ## Looking back -/

def Guarded (P : List E → E → Prop) (t : List E) : Prop :=
  ∀ pre e post, t = pre ++ e :: post → P pre e

theorem guarded_nil {P : List E → E → Prop} : Guarded P [] := by
  intro pre e post h
  cases pre <;> cases h

theorem guarded_snoc {P : List E → E → Prop} {t : List E} {e : E} :
    Guarded P (t ++ [e]) ↔ Guarded P t ∧ P t e := by
  constructor
  · intro h
    refine ⟨fun pre x post ht => ?_, h t e [] rfl⟩
    exact h pre x (post ++ [e]) (by rw [ht]; simp)
  · intro hgiven pre x post hcut
    obtain ⟨ht, he⟩ := hgiven
    rcases snoc_eq_append_cons.mp hcut with ⟨_, rfl, rfl⟩ | ⟨post', _, hpre⟩
    · exact he
    · exact ht pre x post' hpre

theorem Guarded.snoc {P : List E → E → Prop} {t : List E} (h : Guarded P t) {e : E}
    (he : P t e) : Guarded P (t ++ [e]) := guarded_snoc.mpr ⟨h, he⟩

theorem Guarded.of_append {P : List E → E → Prop} {t es : List E} (h : Guarded P (t ++ es)) :
    Guarded P t := by
  intro pre e post ht
  exact h pre e (post ++ es) (by rw [ht]; simp)

/-- Events that are allowed whatever went before. -/
theorem Guarded.append {P : List E → E → Prop} {t : List E} (h : Guarded P t) {es : List E}
    (hes : ∀ e ∈ es, ∀ pre, P pre e) : Guarded P (t ++ es) := by
  induction es generalizing t with
  | nil => simpa using h
  | cons e rest ih =>
    rw [List.append_cons]
    exact ih (h.snoc (hes e List.mem_cons_self t)) fun x hx => hes x (List.mem_cons_of_mem e hx)

/-- Events that are allowed by `t` and those of them that came first. -/
theorem Guarded.extend {P : List E → E → Prop} {t : List E} (h : Guarded P t) {es : List E}
    (hes : ∀ front e back, es = front ++ e :: back → P (t ++ front) e) : Guarded P (t ++ es) := by
  induction es generalizing t with
  | nil => simpa using h
  | cons e rest ih =>
    have hfirst : P t e := by simpa using hes [] e rest rfl
    rw [List.append_cons]
    refine ih (h.snoc hfirst) fun front x back hcut => ?_
    rw [← List.append_cons]
    exact hes (e :: front) x back (by rw [hcut, List.cons_append])

/-! ## Looking forward -/

def Answered (A : E → E → Prop) (excused : E → Prop) (t : List E) : Prop :=
  ∀ pre e post, t = pre ++ e :: post → excused e ∨ ∃ a ∈ post, A e a

theorem answered_nil {A : E → E → Prop} {X : E → Prop} : Answered A X [] := by
  intro pre e post h
  cases pre <;> cases h

/-- Adding `a` answers what `a` answers, and `a` itself must be excused. -/
theorem answered_snoc {A : E → E → Prop} {X : E → Prop} {t : List E} {a : E} :
    Answered A X (t ++ [a]) ↔ Answered A (fun e => X e ∨ A e a) t ∧ X a := by
  constructor
  · intro h
    constructor
    · intro pre e post ht
      rcases h pre e (post ++ [a]) (by rw [ht]; simp) with hx | ⟨b, hb, hab⟩
      · exact Or.inl (Or.inl hx)
      · rcases List.mem_append.mp hb with hb | hb
        · exact Or.inr ⟨b, hb, hab⟩
        · rw [List.mem_singleton] at hb
          subst hb
          exact Or.inl (Or.inr hab)
    · rcases h t a [] rfl with hx | ⟨b, hb, _⟩
      · exact hx
      · cases hb
  · intro hgiven pre e post hcut
    obtain ⟨h, ha⟩ := hgiven
    rcases snoc_eq_append_cons.mp hcut with ⟨_, rfl, rfl⟩ | ⟨post', rfl, hpre⟩
    · exact Or.inl ha
    · rcases h pre e post' hpre with (hx | hA) | ⟨b, hb, hab⟩
      · exact Or.inl hx
      · exact Or.inr ⟨a, List.mem_append_right _ (List.mem_singleton_self a), hA⟩
      · exact Or.inr ⟨b, List.mem_append_left _ hb, hab⟩

theorem Answered.mono {A : E → E → Prop} {X Y : E → Prop} {t : List E} (h : Answered A X t)
    (hXY : ∀ e ∈ t, X e → Y e) : Answered A Y t := by
  intro pre e post ht
  have he : e ∈ t := by rw [ht]; simp
  exact (h pre e post ht).imp_left (hXY e he)

/-- Events that need no answer. -/
theorem Answered.append {A : E → E → Prop} {X : E → Prop} {t : List E} (h : Answered A X t)
    {es : List E} (hes : ∀ e ∈ es, X e) : Answered A X (t ++ es) := by
  induction es generalizing t with
  | nil => simpa using h
  | cons e rest ih =>
    rw [List.append_cons]
    refine ih ?_ fun x hx => hes x (List.mem_cons_of_mem e hx)
    exact answered_snoc.mpr ⟨h.mono fun _ _ hx => Or.inl hx, hes e List.mem_cons_self⟩

end Effects
end Eds
