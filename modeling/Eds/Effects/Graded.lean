import Eds.Exceptions

/-!
# What a program adds to its state

A program that only ever adds to a part of its state, a trace or a count, is described by what it
adds, whatever the state is that it starts in.  A `Grading` says what it is to go from a state to
another by some amount; `Does g p Q E` says that `p` adds an amount that `Q` allows for its value, or
that `E` allows for its exception.

The rules follow the ways in which programs are built, with the amounts in the order in which they
are added.
-/

namespace Eds
namespace Effects

open Prog

structure Grading (S M : Type) where
  Adds : M → S → S → Prop
  one : M
  mul : M → M → M
  refl : ∀ s, Adds one s s
  trans : ∀ {m m' : M} {s t u : S}, Adds m s t → Adds m' t u → Adds (mul m m') s u

namespace Grading

variable {ε S M α β : Type} (g : Grading S M)

def Does (p : Prog ε S α) (Q : α → M → Prop) (E : ε → M → Prop) : Prop :=
  ∀ s, wp p (fun a t => ∃ m, Q a m ∧ g.Adds m s t) (fun e t => ∃ m, E e m ∧ g.Adds m s t) s

variable {g} {Q P : α → M → Prop} {R : β → M → Prop} {E F : ε → M → Prop}

theorem does_pure {a : α} (h : Q a g.one) : g.Does (pure a : Prog ε S α) Q E :=
  fun s => ⟨g.one, h, g.refl s⟩

theorem does_raise {e : ε} (h : E e g.one) : g.Does (raise e : Prog ε S α) Q E :=
  fun s => ⟨g.one, h, g.refl s⟩

/-- A step that adds `m` in every state. -/
theorem does_update {f : S → S} {m : M} (hf : ∀ s, g.Adds m s (f s)) :
    g.Does (update f : Prog ε S Unit) (fun _ m' => m' = m) fun _ _ => False :=
  fun s => ⟨m, rfl, hf s⟩

theorem does_asks {f : S → α} :
    g.Does (asks f : Prog ε S α) (fun _ m => m = g.one) fun _ _ => False :=
  fun s => ⟨g.one, rfl, g.refl s⟩

theorem Does.mono {p : Prog ε S α} (h : g.Does p Q E) (hQ : ∀ a m, Q a m → P a m)
    (hE : ∀ e m, E e m → F e m) : g.Does p P F := fun s =>
  wp_mono (h s) (fun a _ ⟨m, hm, ht⟩ => ⟨m, hQ a m hm, ht⟩) (fun e _ ⟨m, hm, ht⟩ => ⟨m, hE e m hm, ht⟩)

/-- What runs after `m` was added. -/
theorem Does.after {p : Prog ε S α} {m : M} {s t : S}
    (h : g.Does p (fun a m' => Q a (g.mul m m')) fun e m' => E e (g.mul m m')) (ht : g.Adds m s t) :
    wp p (fun a u => ∃ m', Q a m' ∧ g.Adds m' s u) (fun e u => ∃ m', E e m' ∧ g.Adds m' s u) t :=
  wp_mono (h t) (fun _ _ ⟨m', hm, hu⟩ => ⟨g.mul m m', hm, g.trans ht hu⟩)
    (fun _ _ ⟨m', hm, hu⟩ => ⟨g.mul m m', hm, g.trans ht hu⟩)

theorem Does.bind {p : Prog ε S α} {f : α → Prog ε S β} (hp : g.Does p Q F)
    (hE : ∀ e m, F e m → E e m)
    (hf : ∀ a m, Q a m → g.Does (f a) (fun b m' => R b (g.mul m m')) fun e m' => E e (g.mul m m')) :
    g.Does (p >>= f) R E := by
  intro s
  rw [wp_bind]
  exact wp_mono (hp s) (fun a t ⟨m, hm, ht⟩ => (hf a m hm).after ht)
    (fun e _ ⟨m, hm, ht⟩ => ⟨m, hE e m hm, ht⟩)

theorem Does.handle {p : Prog ε S α} {h : ε → Prog ε S α} (hp : g.Does p Q F)
    (hh : ∀ e m, F e m → g.Does (h e) (fun a m' => Q a (g.mul m m')) fun e' m' => E e' (g.mul m m')) :
    g.Does (Prog.handle p h) Q E := by
  intro s
  rw [wp_handle]
  exact wp_mono (hp s) (fun _ _ h => h) (fun e t ⟨m, hm, ht⟩ => (hh e m hm).after ht)

theorem Does.ensure {p : Prog ε S α} {c : Prog ε S Unit} (hp : g.Does p P F)
    (hc : ∀ a m, P a m → g.Does c (fun _ m' => Q a (g.mul m m')) fun e m' => E e (g.mul m m'))
    (hfail : ∀ e m, F e m → g.Does c (fun _ m' => E e (g.mul m m')) fun e' m' => E e' (g.mul m m')) :
    g.Does (Prog.ensure p c) Q E := by
  intro s
  rw [wp_ensure]
  refine wp_mono (hp s) (fun a t ⟨m, hm, ht⟩ => ?_) (fun e t ⟨m, hm, ht⟩ => ?_)
  · exact wp_mono (hc a m hm t) (fun _ _ ⟨m', hm', hu⟩ => ⟨_, hm', g.trans ht hu⟩)
      (fun _ _ ⟨m', hm', hu⟩ => ⟨_, hm', g.trans ht hu⟩)
  · exact wp_mono (hfail e m hm t) (fun _ _ ⟨m', hm', hu⟩ => ⟨_, hm', g.trans ht hu⟩)
      (fun _ _ ⟨m', hm', hu⟩ => ⟨_, hm', g.trans ht hu⟩)

/-- `except Exception as e` -/
theorem Does.tryExcept {p : Prog Exn S α} {h : Exn → Prog Exn S α} {E F : Exn → M → Prop}
    (hp : g.Does p Q F)
    (hh : ∀ e m, F e m → e.isException = true →
      g.Does (h e) (fun a m' => Q a (g.mul m m')) fun e' m' => E e' (g.mul m m'))
    (hbase : ∀ e m, F e m → e.isException = false → E e m) : g.Does (tryExcept p h) Q E := by
  intro s
  refine wp_tryExcept (wp_mono (hp s) (fun _ _ h => h) (fun e t ⟨m, hm, ht⟩ => ⟨fun he => ?_, fun he => ?_⟩))
  · exact (hh e m hm he).after ht
  · exact ⟨m, hbase e m hm he, ht⟩

/-- The outcome of a run, with what it added. -/
theorem Does.result {p : Prog ε S α} (h : g.Does p Q E) (s : S) :
    (∃ a m, (p s).1 = .ok a ∧ Q a m ∧ g.Adds m s (p s).2) ∨
      ∃ e m, (p s).1 = .error e ∧ E e m ∧ g.Adds m s (p s).2 := by
  rcases wp_elim (h s) with ⟨a, ha, m, hm, ht⟩ | ⟨e, he, m, hm, ht⟩
  · exact .inl ⟨a, m, ha, hm, ht⟩
  · exact .inr ⟨e, m, he, hm, ht⟩

end Grading

end Effects
end Eds
