import Mathlib.Data.List.Basic
import Mathlib.Algebra.GroupWithZero.Nat

/-!
# Programs that return or raise

`Prog ε σ α` is a program over a state `σ` that returns an `α` or raises an `ε`.
The state reached so far survives a raise, which is what an object whose method
was left by an exception looks like to its next caller.

`wp p Q E s` is the weakest precondition of `p` at the state `s`: `Q` of the value
and the state if `p` returns, `E` of the exception and the state if it raises.
The rules below are equivalences, so that a program is run symbolically by
rewriting with them, and `wp_mono` is the one place where a specification of a
callee replaces its body.
-/

namespace Eds
namespace Effects

def Prog (ε σ α : Type) : Type := σ → Except ε α × σ

namespace Prog

variable {ε σ τ α β : Type}

instance : Monad (Prog ε σ) where
  pure a := fun s => (.ok a, s)
  bind p f := fun s =>
    match p s with
    | (.ok a, s') => f a s'
    | (.error e, s') => (.error e, s')

def raise (e : ε) : Prog ε σ α := fun s => (.error e, s)

def asks (f : σ → α) : Prog ε σ α := fun s => (.ok (f s), s)

def update (f : σ → σ) : Prog ε σ Unit := fun s => (.ok (), f s)

/-- Run `p` and hand what it raises to `h`, in the state `p` left. -/
def handle (p : Prog ε σ α) (h : ε → Prog ε σ α) : Prog ε σ α := fun s =>
  match p s with
  | (.ok a, s') => (.ok a, s')
  | (.error e, s') => h e s'

def on (get : σ → τ) (set : τ → σ → σ) (p : Prog ε τ α) : Prog ε σ α := fun s =>
  ((p (get s)).1, set (p (get s)).2 s)

/-- On one side of a pair. -/
def first (p : Prog ε σ α) : Prog ε (σ × τ) α := on Prod.fst (fun a s => (a, s.2)) p

def second (p : Prog ε τ α) : Prog ε (σ × τ) α := on Prod.snd (fun b s => (s.1, b)) p

def each (f : α → Prog ε σ Unit) : List α → Prog ε σ Unit
  | [] => pure ()
  | a :: rest => do f a; each f rest

/-- Run `f` on each element in turn and add up what it returns. -/
def sumOver (f : α → Prog ε σ Nat) : List α → Prog ε σ Nat
  | [] => pure 0
  | a :: rest => do
    let n ← f a
    let total ← sumOver f rest
    pure (n + total)

def ofExcept : Except ε α → Prog ε σ α
  | .ok a => pure a
  | .error e => raise e

/-- `try: p`, `finally: c`.  What `c` raises takes the place of what `p` did. -/
def ensure (p : Prog ε σ α) (c : Prog ε σ Unit) : Prog ε σ α := do
  let a ← handle p fun e => do c; raise e
  c
  pure a

/-! ## Running a program -/

section Running

variable {p : Prog ε σ α} {f : α → Prog ε σ β} {s s' : σ} {t : τ}

theorem bind_of_ok {a : α} (h : p s = (.ok a, s')) : (p >>= f) s = f a s' := by
  show (match p s with | (.ok a, s') => f a s' | (.error e, s') => (.error e, s')) = _
  rw [h]

theorem bind_of_error {e : ε} (h : p s = (.error e, s')) : (p >>= f) s = (.error e, s') := by
  show (match p s with | (.ok a, s') => f a s' | (.error e, s') => (.error e, s')) = _
  rw [h]

theorem each_of_ok {f : α → Prog ε σ Unit} {a : α} {rest : List α} (h : f a s = (.ok (), s')) :
    each f (a :: rest) s = each f rest s' := bind_of_ok h

theorem bind_ok_iff {b : β} {u : σ} :
    (p >>= f) s = (.ok b, u) ↔ ∃ a s', p s = (.ok a, s') ∧ f a s' = (.ok b, u) := by
  constructor
  · intro h
    rcases hp : p s with ⟨r, s'⟩
    cases r with
    | ok a => exact ⟨a, s', rfl, (bind_of_ok hp).symm.trans h⟩
    | error e => cases (bind_of_error hp).symm.trans h
  · rintro ⟨a, s', hp, hf⟩
    exact (bind_of_ok hp).trans hf

theorem each_append_ok_iff {f : α → Prog ε σ Unit} {l l' : List α} {u : σ} :
    each f (l ++ l') s = (.ok (), u) ↔
      ∃ s', each f l s = (.ok (), s') ∧ each f l' s' = (.ok (), u) := by
  induction l generalizing s with
  | nil => exact ⟨fun h => ⟨s, rfl, h⟩, fun ⟨_, h, h'⟩ => by cases h; exact h'⟩
  | cons a rest ih =>
    rw [List.cons_append, each, each, bind_ok_iff]
    constructor
    · rintro ⟨x, v, ha, hrest⟩
      obtain ⟨s', hl, hl'⟩ := ih.mp hrest
      exact ⟨s', bind_ok_iff.mpr ⟨x, v, ha, hl⟩, hl'⟩
    · rintro ⟨s', hl, hl'⟩
      obtain ⟨x, v, ha, hrest⟩ := bind_ok_iff.mp hl
      exact ⟨x, v, ha, ih.mpr ⟨s', hrest, hl'⟩⟩

theorem first_of {r : Except ε α} (h : p s = (r, s')) : first p (s, t) = (r, (s', t)) := by
  show ((p s).1, ((p s).2, t)) = _
  rw [h]

end Running

/-! ## Weakest preconditions -/

def wp (p : Prog ε σ α) (Q : α → σ → Prop) (E : ε → σ → Prop) (s : σ) : Prop :=
  match p s with
  | (.ok a, s') => Q a s'
  | (.error e, s') => E e s'

section Rules

variable {Q Q' : α → σ → Prop} {R : β → σ → Prop} {E E' : ε → σ → Prop} {s : σ}

theorem wp_pure {a : α} : wp (pure a : Prog ε σ α) Q E s ↔ Q a s := Iff.rfl

theorem wp_raise {e : ε} : wp (raise e : Prog ε σ α) Q E s ↔ E e s := Iff.rfl

theorem wp_ofExcept_ok {a : α} : wp (ofExcept (.ok a) : Prog ε σ α) Q E s ↔ Q a s := Iff.rfl

theorem wp_bind {p : Prog ε σ α} {f : α → Prog ε σ β} :
    wp (p >>= f) R E s ↔ wp p (fun a => wp (f a) R E) E s := by
  show (match (match p s with | (.ok a, s') => f a s' | (.error e, s') => (.error e, s')) with
    | (.ok b, s') => R b s' | (.error e, s') => E e s') ↔ _
  unfold wp
  rcases p s with ⟨r, s'⟩
  cases r <;> rfl

theorem wp_handle {p : Prog ε σ α} {h : ε → Prog ε σ α} :
    wp (handle p h) Q E s ↔ wp p Q (fun e => wp (h e) Q E) s := by
  unfold wp handle
  rcases p s with ⟨r, s'⟩
  cases r <;> rfl

theorem wp_on {get : σ → τ} {set : τ → σ → σ} {p : Prog ε τ α} :
    wp (on get set p) Q E s ↔
      wp p (fun a t => Q a (set t s)) (fun e t => E e (set t s)) (get s) := by
  unfold wp on
  rcases p (get s) with ⟨r, t⟩
  cases r <;> rfl

theorem wp_mono {p : Prog ε σ α} (h : wp p Q E s) (hQ : ∀ a t, Q a t → Q' a t)
    (hE : ∀ e t, E e t → E' e t) : wp p Q' E' s := by
  unfold wp at h ⊢
  generalize p s = out at h ⊢
  obtain ⟨r, s'⟩ := out
  cases r with
  | ok a => exact hQ a s' h
  | error e => exact hE e s' h

/-- A specification in place of the body, with the exceptions as they are. -/
theorem wp_post {p : Prog ε σ α} (h : wp p Q E s) (hQ : ∀ a t, Q a t → Q' a t) : wp p Q' E s :=
  wp_mono h hQ fun _ _ he => he

theorem wp_ensure {p : Prog ε σ α} {c : Prog ε σ Unit} :
    wp (ensure p c) Q E s ↔
      wp p (fun a => wp c (fun _ => Q a) E) (fun e => wp c (fun _ => E e) E) s := by
  rw [ensure, wp_bind, wp_handle]
  constructor
  · intro h
    exact wp_mono h (fun _ _ ha => wp_bind.mp ha) (fun _ _ he => wp_bind.mp he)
  · intro h
    exact wp_mono h (fun _ _ ha => wp_bind.mpr ha) (fun _ _ he => wp_bind.mpr he)

theorem wp_and {p : Prog ε σ α} (h : wp p Q E s) (h' : wp p Q' E' s) :
    wp p (fun a t => Q a t ∧ Q' a t) (fun e t => E e t ∧ E' e t) s := by
  unfold wp at h h' ⊢
  generalize p s = out at h h' ⊢
  obtain ⟨r, s'⟩ := out
  cases r with
  | ok a => exact ⟨h, h'⟩
  | error e => exact ⟨h, h'⟩

theorem wp_any {p : Prog ε σ α} (hQ : ∀ a t, Q a t) (hE : ∀ e t, E e t) : wp p Q E s := by
  unfold wp
  rcases p s with ⟨r, s'⟩
  cases r with
  | ok a => exact hQ a s'
  | error e => exact hE e s'

theorem wp_elim {p : Prog ε σ α} (h : wp p Q E s) :
    (∃ a, (p s).1 = .ok a ∧ Q a (p s).2) ∨ ∃ e, (p s).1 = .error e ∧ E e (p s).2 := by
  unfold wp at h
  generalize p s = out at h ⊢
  obtain ⟨r, s'⟩ := out
  cases r with
  | ok a => exact Or.inl ⟨a, rfl, h⟩
  | error e => exact Or.inr ⟨e, rfl, h⟩

/-- The outcome, beside what is known of it. -/
theorem wp_run {p : Prog ε σ α} (h : wp p Q E s) :
    wp p (fun a t => Q a t ∧ p s = (.ok a, t)) (fun e t => E e t ∧ p s = (.error e, t)) s := by
  unfold wp at h ⊢
  generalize p s = out at h ⊢
  obtain ⟨r, s'⟩ := out
  cases r with
  | ok a => exact ⟨h, rfl⟩
  | error e => exact ⟨h, rfl⟩

/-- A property of the state alone, whatever the outcome. -/
theorem wp_state {p : Prog ε σ α} {I : σ → Prop} (h : wp p (fun _ => I) (fun _ => I) s) :
    I (p s).2 := by
  rcases wp_elim h with ⟨_, _, hI⟩ | ⟨_, _, hI⟩
  · exact hI
  · exact hI

theorem wp_ok {p : Prog ε σ α} (h : wp p Q E s) {a : α} {s' : σ} (hp : p s = (.ok a, s')) :
    Q a s' := by
  simpa only [wp, hp] using h

theorem wp_error {p : Prog ε σ α} (h : wp p Q E s) {e : ε} {s' : σ} (hp : p s = (.error e, s')) :
    E e s' := by
  simpa only [wp, hp] using h

end Rules

/-- The rule for a loop over a list.  `I` speaks of the elements still to come and
of the state, the body takes it from `a :: rest` to `rest`, and the loop ends with
it at the empty list. -/
theorem wp_each {f : α → Prog ε σ Unit} {E : ε → σ → Prop} (I : List α → σ → Prop)
    (hstep : ∀ a rest s, I (a :: rest) s → wp (f a) (fun _ t => I rest t) E s) :
    ∀ (l : List α) (s : σ), I l s → wp (each f l) (fun _ t => I [] t) E s := by
  intro l
  induction l with
  | nil => intro s h; exact h
  | cons a rest ih =>
    intro s h
    rw [each, wp_bind]
    exact wp_post (hstep a rest s h) fun _ t ht => ih t ht

/-- The same rule for a loop that adds up. -/
theorem wp_sumOver {f : α → Prog ε σ Nat} {E : ε → σ → Prop} (I : List α → σ → Prop)
    (hstep : ∀ a rest s, I (a :: rest) s → wp (f a) (fun _ t => I rest t) E s) :
    ∀ (l : List α) (s : σ), I l s → wp (sumOver f l) (fun _ t => I [] t) E s := by
  intro l
  induction l with
  | nil => intro s h; exact h
  | cons a rest ih =>
    intro s h
    rw [sumOver, wp_bind]
    refine wp_post (hstep a rest s h) fun n t ht => ?_
    rw [wp_bind]
    exact wp_post (ih t ht) fun _ _ hu => hu

/-- The rule for an invariant of the elements that are done. -/
theorem wp_each_done {f : α → Prog ε σ Unit} {E : ε → σ → Prop} {l : List α} (I : List α → σ → Prop)
    (hstep : ∀ done a rest s, l = done ++ a :: rest → I done s →
      wp (f a) (fun _ t => I (done ++ [a]) t) E s) {s : σ} (h : I [] s) :
    wp (each f l) (fun _ t => I l t) E s := by
  refine wp_post (wp_each (fun rest t => ∃ done, l = done ++ rest ∧ I done t)
    (fun a rest t ht => ?_) l s ⟨[], rfl, h⟩) fun _ t ht => ?_
  · obtain ⟨done, hsplit, hdone⟩ := ht
    refine wp_post (hstep done a rest t hsplit hdone) fun _ u hu => ?_
    exact ⟨done ++ [a], by rw [hsplit, List.append_cons], hu⟩
  · obtain ⟨done, hsplit, hdone⟩ := ht
    rw [hsplit, List.append_nil]
    exact hdone

theorem wp_sumOver_done {f : α → Prog ε σ Nat} {E : ε → σ → Prop} {l : List α}
    (I : List α → σ → Prop)
    (hstep : ∀ done a rest s, l = done ++ a :: rest → I done s →
      wp (f a) (fun _ t => I (done ++ [a]) t) E s) {s : σ} (h : I [] s) :
    wp (sumOver f l) (fun _ t => I l t) E s := by
  refine wp_post (wp_sumOver (fun rest t => ∃ done, l = done ++ rest ∧ I done t)
    (fun a rest t ht => ?_) l s ⟨[], rfl, h⟩) fun _ t ht => ?_
  · obtain ⟨done, hsplit, hdone⟩ := ht
    refine wp_post (hstep done a rest t hsplit hdone) fun _ u hu => ?_
    exact ⟨done ++ [a], by rw [hsplit, List.append_cons], hu⟩
  · obtain ⟨done, hsplit, hdone⟩ := ht
    rw [hsplit, List.append_nil]
    exact hdone

/-! ## Frames

A program that moves the state along `R` only, whatever its outcome. -/

def Within (R : σ → σ → Prop) (p : Prog ε σ α) : Prop := ∀ s, R s (p s).2

section Frames

variable {R : σ → σ → Prop}

theorem Within.wp {p : Prog ε σ α} (h : Within R p) (s : σ) :
    wp p (fun _ t => R s t) (fun _ t => R s t) s := by
  have hs := h s
  unfold Prog.wp
  generalize p s = out at hs ⊢
  obtain ⟨r, t⟩ := out
  cases r with
  | ok a => exact hs
  | error e => exact hs

theorem Within.reply {p : Prog ε σ α} (h : Within R p) {s t : σ} {r : Except ε α}
    (hp : p s = (r, t)) : R s t := by
  have hs := h s
  rw [hp] at hs
  exact hs

theorem within_pure (hrefl : ∀ s, R s s) (a : α) : Within R (pure a : Prog ε σ α) := hrefl

theorem within_raise (hrefl : ∀ s, R s s) (e : ε) : Within R (raise e : Prog ε σ α) := hrefl

theorem Within.bind {p : Prog ε σ α} {f : α → Prog ε σ β} (hp : Within R p)
    (hf : ∀ a, Within R (f a)) (htrans : ∀ {s t u}, R s t → R t u → R s u) :
    Within R (p >>= f) := by
  intro s
  refine wp_state (I := fun t => R s t) (wp_bind.mpr ?_)
  exact wp_mono (hp.wp s) (fun a t ht => wp_mono ((hf a).wp t) (fun _ _ hu => htrans ht hu)
    (fun _ _ hu => htrans ht hu)) (fun _ _ ht => ht)

theorem Within.handle {p : Prog ε σ α} {h : ε → Prog ε σ α} (hp : Within R p)
    (hh : ∀ e, Within R (h e)) (htrans : ∀ {s t u}, R s t → R t u → R s u) :
    Within R (Prog.handle p h) := by
  intro s
  refine wp_state (I := fun t => R s t) (wp_handle.mpr ?_)
  exact wp_mono (hp.wp s) (fun _ _ ht => ht) (fun e t ht => wp_mono ((hh e).wp t)
    (fun _ _ hu => htrans ht hu) (fun _ _ hu => htrans ht hu))

theorem within_each {f : α → Prog ε σ Unit} (hf : ∀ a, Within R (f a)) (hrefl : ∀ s, R s s)
    (htrans : ∀ {s t u}, R s t → R t u → R s u) (l : List α) : Within R (each f l) := by
  induction l with
  | nil => exact within_pure hrefl ()
  | cons a rest ih => exact (hf a).bind (fun _ => ih) htrans

theorem Within.ensure {p : Prog ε σ α} {c : Prog ε σ Unit} (hp : Within R p) (hc : Within R c)
    (hrefl : ∀ s, R s s) (htrans : ∀ {s t u}, R s t → R t u → R s u) : Within R (Prog.ensure p c) := by
  have hfinal : ∀ e : ε, Within R (do c; raise e : Prog ε σ α) :=
    fun e => hc.bind (fun _ => within_raise hrefl e) htrans
  exact (hp.handle hfinal htrans).bind (fun a => hc.bind (fun _ => within_pure hrefl a) htrans) htrans

theorem within_first {τ : Type} {p : Prog ε σ α} (h : Within R p) :
    Within (fun s t => R s.1 t.1 ∧ t.2 = s.2) (first p : Prog ε (σ × τ) α) := fun s => ⟨h s.1, rfl⟩

end Frames

/-! ## Values

A program whose value, if it returns one, satisfies `P`, from any state. -/

def Returns (p : Prog ε σ α) (P : α → Prop) : Prop :=
  ∀ s, wp p (fun a _ => P a) (fun _ _ => True) s

section Values

variable {P : α → Prop} {Q : β → Prop}

theorem returns_pure {a : α} (h : P a) : Returns (pure a : Prog ε σ α) P := fun _ => h

theorem returns_raise (e : ε) : Returns (raise e : Prog ε σ α) P := fun _ => trivial

theorem returns_any (p : Prog ε σ α) : Returns p fun _ => True :=
  fun _ => wp_any (fun _ _ => trivial) (fun _ _ => trivial)

theorem Returns.bind {p : Prog ε σ α} {f : α → Prog ε σ β} (hp : Returns p P)
    (hf : ∀ a, P a → Returns (f a) Q) : Returns (p >>= f) Q := by
  intro s
  rw [wp_bind]
  exact wp_mono (hp s) (fun a t ha => hf a ha t) (fun _ _ _ => trivial)

theorem Returns.ensure {p : Prog ε σ α} {c : Prog ε σ Unit} (hp : Returns p P) :
    Returns (Prog.ensure p c) P := by
  intro s
  rw [wp_ensure]
  refine wp_mono (hp s) (fun a t ha => ?_) (fun e t _ => ?_)
  · exact wp_any (fun _ _ => ha) (fun _ _ => trivial)
  · exact wp_any (fun _ _ => trivial) (fun _ _ => trivial)

theorem returns_first {τ : Type} {p : Prog ε σ α} (hp : Returns p P) :
    Returns (first p : Prog ε (σ × τ) α) P := fun s => wp_on.mpr (hp s.1)

theorem Returns.reply {p : Prog ε σ α} (hp : Returns p P) {s t : σ} {a : α}
    (h : p s = (.ok a, t)) : P a := wp_ok (hp s) h

/-- A loop that adds up numbers that do not depend on the state. -/
theorem returns_sumOver {f : α → Prog ε σ Nat} {count : α → Nat}
    (hf : ∀ a, Returns (f a) fun n => n = count a) (l : List α) :
    Returns (sumOver f l) fun total => total = (l.map count).sum := by
  induction l with
  | nil => exact returns_pure rfl
  | cons a rest ih =>
    refine (hf a).bind fun n hn => ih.bind fun total htotal => returns_pure ?_
    rw [hn, htotal, List.map_cons, List.sum_cons]

end Values

end Prog
end Effects
end Eds
