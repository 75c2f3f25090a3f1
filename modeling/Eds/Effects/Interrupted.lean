import Eds.Effects.Traced

/-!
# Programs that may be cut short

A program over a store `S` changes it by attempts, each of which the world may refuse, and every
store that it goes through is kept in the trace.  A process that is killed leaves one of these, or
the store it began with.

`Keeps C p Q E s` says of a run from `s`, whatever the world does, that it ends in `Q` or in `E` and
that each store on the way satisfies `C`.
-/

namespace Eds
namespace Effects

open Prog Traced

abbrev Stored (S W : Type) := Traced S W S

namespace Stored

variable {ε S W α β : Type}

/-- A change of the store, if the world permits it. -/
def attempt (permit : Prog ε W Unit) (change : S → S) : Prog ε (Stored S W) Unit := do
  outside permit
  update fun s => (s.setVars change).push (change s.vars)

def Keeps (C : S → Prop) (p : Prog ε (Stored S W) α) (Q : α → S → Prop) (E : ε → S → Prop) (s : S) :
    Prop :=
  ∀ (w : W) (passed : List S), wp p (fun a t => Q a t.vars ∧ ∀ c ∈ t.trace, c ∈ passed ∨ C c)
    (fun e t => E e t.vars ∧ ∀ c ∈ t.trace, c ∈ passed ∨ C c) ⟨s, w, passed⟩

section Rules

variable {C : S → Prop} {Q P : α → S → Prop} {R : β → S → Prop} {E F : ε → S → Prop} {s : S}

theorem keeps_pure {a : α} (h : Q a s) : Keeps C (pure a : Prog ε (Stored S W) α) Q E s :=
  fun _ _ => ⟨h, fun _ hc => .inl hc⟩

theorem keeps_raise {e : ε} (h : E e s) : Keeps C (raise e : Prog ε (Stored S W) α) Q E s :=
  fun _ _ => ⟨h, fun _ hc => .inl hc⟩

theorem keeps_read {f : S → α} (h : Q (f s) s) : Keeps C (read f : Prog ε (Stored S W) α) Q E s :=
  fun _ _ => ⟨h, fun _ hc => .inl hc⟩

theorem Keeps.mono {p : Prog ε (Stored S W) α} (h : Keeps C p Q E s) (hQ : ∀ a t, Q a t → P a t)
    (hE : ∀ e t, E e t → F e t) : Keeps C p P F s :=
  fun w passed => wp_mono (h w passed) (fun a t ht => ⟨hQ a t.vars ht.1, ht.2⟩)
    (fun e t ht => ⟨hE e t.vars ht.1, ht.2⟩)

/-- What runs after `p` adds to the stores that were passed before. -/
theorem Keeps.after {p : Prog ε (Stored S W) α} {t : Stored S W} {passed : List S}
    (h : Keeps C p Q E t.vars) (hpassed : ∀ c ∈ t.trace, c ∈ passed ∨ C c) :
    wp p (fun a u => Q a u.vars ∧ ∀ c ∈ u.trace, c ∈ passed ∨ C c)
      (fun e u => E e u.vars ∧ ∀ c ∈ u.trace, c ∈ passed ∨ C c) t := by
  have hmore : ∀ u : Stored S W, (∀ c ∈ u.trace, c ∈ t.trace ∨ C c) →
      ∀ c ∈ u.trace, c ∈ passed ∨ C c :=
    fun u hu c hc => (hu c hc).elim (hpassed c) .inr
  exact wp_mono (h t.world t.trace) (fun a u hu => ⟨hu.1, hmore u hu.2⟩)
    (fun e u hu => ⟨hu.1, hmore u hu.2⟩)

theorem Keeps.bind {p : Prog ε (Stored S W) α} {f : α → Prog ε (Stored S W) β}
    (hp : Keeps C p Q E s) (hf : ∀ a t, Q a t → Keeps C (f a) R E t) : Keeps C (p >>= f) R E s := by
  intro w passed
  rw [wp_bind]
  exact wp_mono (hp w passed) (fun a t ht => (hf a t.vars ht.1).after ht.2) (fun _ _ ht => ht)

theorem Keeps.handle {p : Prog ε (Stored S W) α} {h : ε → Prog ε (Stored S W) α}
    (hp : Keeps C p Q F s) (hh : ∀ e t, F e t → Keeps C (h e) Q E t) :
    Keeps C (Prog.handle p h) Q E s := by
  intro w passed
  rw [wp_handle]
  exact wp_mono (hp w passed) (fun _ _ ht => ht) (fun e t ht => (hh e t.vars ht.1).after ht.2)

/-- The rule for `finally`, whose own exception takes the place of the program's. -/
theorem Keeps.ensure {p : Prog ε (Stored S W) α} {c : Prog ε (Stored S W) Unit}
    (hp : Keeps C p Q F s) (hc : ∀ a t, Q a t → Keeps C c (fun _ u => P a u) E t)
    (hfail : ∀ e t, F e t → Keeps C c (fun _ u => E e u) E t) : Keeps C (Prog.ensure p c) P E s := by
  have hhandled : Keeps C (Prog.handle p fun e => do c; raise e) Q E s :=
    hp.handle fun e t ht => (hfail e t ht).bind fun _ _ hu => keeps_raise hu
  exact hhandled.bind fun a t ht => (hc a t ht).bind fun _ _ hu => keeps_pure hu

/-- A call that does not change the store. -/
theorem keeps_outside {p : Prog ε W α} (hQ : ∀ a w w', p w = (.ok a, w') → Q a s)
    (hE : ∀ e w w', p w = (.error e, w') → E e s) :
    Keeps C (outside p : Prog ε (Stored S W) α) Q E s :=
  fun _ _ => wp_outside (fun a _ hp => ⟨hQ a _ _ hp, fun _ hc => .inl hc⟩)
    (fun e _ hp => ⟨hE e _ _ hp, fun _ hc => .inl hc⟩)

theorem keeps_attempt {permit : Prog ε W Unit} {change : S → S} {Q : Unit → S → Prop}
    (hQ : Q () (change s)) (hC : C (change s)) (hE : ∀ e w w', permit w = (.error e, w') → E e s) :
    Keeps C (attempt permit change : Prog ε (Stored S W) Unit) Q E s := by
  intro w passed
  rw [attempt, wp_bind]
  refine wp_outside (fun _ _ _ => ⟨hQ, fun c hc => ?_⟩)
    (fun e _ hp => ⟨hE e _ _ hp, fun _ hc => .inl hc⟩)
  rcases List.mem_append.mp hc with hc | hc
  · exact .inl hc
  · exact .inr ((List.mem_singleton.mp hc).symm ▸ hC)

/-- The rule for a loop over a list, with the elements that are done. -/
theorem keeps_each {f : α → Prog ε (Stored S W) Unit} (I : List α → S → Prop)
    (hstep : ∀ a rest s, I (a :: rest) s → Keeps C (f a) (fun _ t => I rest t) E s) :
    ∀ (l : List α) (s : S), I l s → Keeps C (each f l) (fun _ t => I [] t) E s := by
  intro l
  induction l with
  | nil => intro s h; exact keeps_pure h
  | cons a rest ih =>
    intro s h
    rw [each]
    exact (hstep a rest s h).bind fun _ t ht => ih t ht

/-- The stores of a whole run, from nothing passed. -/
theorem Keeps.passed {p : Prog ε (Stored S W) α} (h : Keeps C p Q E s) (w : W) :
    ∀ c ∈ (p ⟨s, w, []⟩).2.trace, C c := by
  intro c hc
  have hkept := wp_state (I := fun t : Stored S W => ∀ c ∈ t.trace, c ∈ ([] : List S) ∨ C c)
    (wp_mono (h w []) (fun _ _ ht => ht.2) (fun _ _ ht => ht.2))
  exact (hkept c hc).resolve_left List.not_mem_nil

end Rules

end Stored
end Effects
end Eds
