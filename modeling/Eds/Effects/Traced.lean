import Eds.Effects.Prog

/-!
# Programs in an unknown world

A `Traced` state has three parts: the variables `L` a program owns, the world `W`
it calls into, and the trace of what it did.  A call into the world is a program
over `W` alone, and nothing is assumed about it, so a result proved through
`wp_call` holds for every reply the world may give, in every order and with every
exception.

The trace is what statements are about.  It is written by `note`, and by `call`
when a reply is an exception.
-/

namespace Eds
namespace Effects

structure Traced (L W E : Type) where
  vars : L
  world : W
  trace : List E

namespace Traced

variable {ε L W E α : Type}

def push (s : Traced L W E) (e : E) : Traced L W E := { s with trace := s.trace ++ [e] }

/-- Add the event, if there is one. -/
def pushOpt (s : Traced L W E) : Option E → Traced L W E
  | none => s
  | some e => s.push e

def pushAll (s : Traced L W E) (es : List E) : Traced L W E := { s with trace := s.trace ++ es }

def inWorld (s : Traced L W E) (w : W) : Traced L W E := { s with world := w }

def setVars (s : Traced L W E) (f : L → L) : Traced L W E := { s with vars := f s.vars }

section Fields

variable (s : Traced L W E) (e : E) (r : Option E) (es : List E) (w : W) (f : L → L)

@[simp] theorem push_vars : (s.push e).vars = s.vars := rfl

@[simp] theorem push_world : (s.push e).world = s.world := rfl

@[simp] theorem push_trace : (s.push e).trace = s.trace ++ [e] := rfl

@[simp] theorem pushOpt_vars : (s.pushOpt r).vars = s.vars := by cases r <;> rfl

@[simp] theorem pushOpt_world : (s.pushOpt r).world = s.world := by cases r <;> rfl

@[simp] theorem pushOpt_trace : (s.pushOpt r).trace = s.trace ++ r.toList := by
  cases r with
  | none => exact (List.append_nil _).symm
  | some e => rfl

@[simp] theorem pushAll_vars : (s.pushAll es).vars = s.vars := rfl

@[simp] theorem pushAll_world : (s.pushAll es).world = s.world := rfl

@[simp] theorem pushAll_trace : (s.pushAll es).trace = s.trace ++ es := rfl

@[simp] theorem inWorld_vars : (s.inWorld w).vars = s.vars := rfl

@[simp] theorem inWorld_world : (s.inWorld w).world = w := rfl

@[simp] theorem inWorld_trace : (s.inWorld w).trace = s.trace := rfl

@[simp] theorem setVars_vars : (s.setVars f).vars = f s.vars := rfl

@[simp] theorem setVars_world : (s.setVars f).world = s.world := rfl

@[simp] theorem setVars_trace : (s.setVars f).trace = s.trace := rfl

end Fields

def note (e : E) : Prog ε (Traced L W E) Unit := Prog.update fun s => s.push e

def read (f : L → α) : Prog ε (Traced L W E) α := Prog.asks fun s => f s.vars

def assign (f : L → L) : Prog ε (Traced L W E) Unit := Prog.update fun s => s.setVars f

def outside (p : Prog ε W α) : Prog ε (Traced L W E) α :=
  Prog.on Traced.world (fun w s => s.inWorld w) p

/-- A call into the world; an exception is recorded before it is raised again. -/
def call (raised : ε → E) (p : Prog ε W α) : Prog ε (Traced L W E) α :=
  Prog.handle (outside p) fun e => do note (raised e); Prog.raise e

/-- A program that keeps a trace of its own, with its events recorded under `f`. -/
def embed {F : Type} (f : E → F) (p : Prog ε (Traced L W E) α) : Prog ε (Traced L W F) α :=
  Prog.on (fun s => ⟨s.vars, s.world, []⟩)
    (fun t s => ⟨t.vars, t.world, s.trace ++ t.trace.map f⟩) p

/-- A program with variables and a trace of its own, of which the world sees only what it does
to the world. -/
def alone (vars : L) (p : Prog ε (Traced L W E) α) : Prog ε W α :=
  Prog.on (fun w => ⟨vars, w, []⟩) (fun t _ => t.world) p

section Rules

open Prog

variable {Q : α → Traced L W E → Prop} {X : ε → Traced L W E → Prop} {s : Traced L W E}

theorem wp_note {e : E} {Q : Unit → Traced L W E → Prop} :
    wp (note e : Prog ε (Traced L W E) Unit) Q X s ↔ Q () (s.push e) := Iff.rfl

theorem wp_each_note {f : α → E} (l : List α) {Q : Unit → Traced L W E → Prop} :
    wp (each (fun a => note (f a)) l : Prog ε (Traced L W E) Unit) Q X s ↔
      Q () (s.pushAll (l.map f)) := by
  induction l generalizing s with
  | nil => simp [each, wp_pure, pushAll]
  | cons a rest ih =>
    rw [each, wp_bind, wp_note, ih]
    simp [push, pushAll]

theorem wp_read {f : L → α} :
    wp (read f : Prog ε (Traced L W E) α) Q X s ↔ Q (f s.vars) s := Iff.rfl

theorem wp_assign {f : L → L} {Q : Unit → Traced L W E → Prop} :
    wp (assign f : Prog ε (Traced L W E) Unit) Q X s ↔ Q () (s.setVars f) := Iff.rfl

theorem wp_outside {p : Prog ε W α}
    (hQ : ∀ a w, p s.world = (.ok a, w) → Q a (s.inWorld w))
    (hX : ∀ e w, p s.world = (.error e, w) → X e (s.inWorld w)) :
    wp (outside p) Q X s := by
  rw [outside, wp_on]
  unfold wp
  cases hp : p s.world with
  | mk r w =>
    cases r with
    | ok a => exact hQ a w hp
    | error e => exact hX e w hp

/-- A call into the world by its own specification. -/
theorem wp_outside_iff {p : Prog ε W α} :
    wp (outside p) Q X s ↔
      wp p (fun a w => Q a (s.inWorld w)) (fun e w => X e (s.inWorld w)) s.world := wp_on

theorem wp_embed {F : Type} {f : E → F} {p : Prog ε (Traced L W E) α} {s : Traced L W F}
    {Q : α → Traced L W F → Prop} {X : ε → Traced L W F → Prop} :
    wp (embed f p) Q X s ↔
      wp p (fun a t => Q a ⟨t.vars, t.world, s.trace ++ t.trace.map f⟩)
        (fun e t => X e ⟨t.vars, t.world, s.trace ++ t.trace.map f⟩) ⟨s.vars, s.world, []⟩ := wp_on

/-- A recorded call: whatever the world replies and however it changes, with an
exception in the trace. -/
theorem wp_call {raised : ε → E} {p : Prog ε W α}
    (hQ : ∀ a w, p s.world = (.ok a, w) → Q a (s.inWorld w))
    (hX : ∀ e w, p s.world = (.error e, w) → X e ((s.inWorld w).push (raised e))) :
    wp (call raised p) Q X s := by
  rw [call, wp_handle]
  refine wp_outside hQ (fun e w hp => ?_)
  rw [wp_bind, wp_note, wp_raise]
  exact hX e w hp

end Rules

/-! ## Steps that only the world sees -/

def Quiet (s t : Traced L W E) : Prop := t.vars = s.vars ∧ t.trace = s.trace

theorem Quiet.refl (s : Traced L W E) : Quiet s s := ⟨rfl, rfl⟩

theorem Quiet.trans {s t u : Traced L W E} (h : Quiet s t) (h' : Quiet t u) : Quiet s u :=
  ⟨h'.1.trans h.1, h'.2.trans h.2⟩

theorem quiet_outside (p : Prog ε W α) :
    Prog.Within Quiet (outside p : Prog ε (Traced L W E) α) := fun _ => ⟨rfl, rfl⟩

theorem returns_outside {P : α → Prop} {p : Prog ε W α} (hp : Prog.Returns p P) :
    Prog.Returns (outside p : Prog ε (Traced L W E) α) P :=
  fun s => Prog.wp_on.mpr (hp s.world)

/-! ## Steps that add events of one kind -/

def Adds (P : E → Prop) (s t : Traced L W E) : Prop :=
  ∃ es, t.trace = s.trace ++ es ∧ ∀ e ∈ es, P e

section Adds

variable {P : E → Prop}

theorem Adds.nothing {s t : Traced L W E} (h : t.trace = s.trace) : Adds P s t :=
  ⟨[], by rw [h, List.append_nil], fun _ h => absurd h List.not_mem_nil⟩

theorem Adds.one {s t : Traced L W E} {e : E} (h : t.trace = s.trace ++ [e]) (he : P e) :
    Adds P s t := by
  refine ⟨[e], h, fun e' he' => ?_⟩
  rw [List.mem_singleton.mp he']
  exact he

theorem Adds.refl (s : Traced L W E) : Adds P s s := Adds.nothing rfl

theorem Adds.trans {s t u : Traced L W E} (h : Adds P s t) (h' : Adds P t u) : Adds P s u := by
  obtain ⟨es, hes, hP⟩ := h
  obtain ⟨es', hes', hP'⟩ := h'
  refine ⟨es ++ es', by rw [hes', hes, List.append_assoc], fun e he => ?_⟩
  exact (List.mem_append.mp he).elim (hP e) (hP' e)

theorem Adds.all {s t : Traced L W E} (h : Adds P s t) (hs : ∀ e ∈ s.trace, P e) :
    ∀ e ∈ t.trace, P e := by
  obtain ⟨es, hes, hP⟩ := h
  intro e he
  rw [hes] at he
  exact (List.mem_append.mp he).elim (hs e) (hP e)

theorem adds_outside (p : Prog ε W α) :
    Prog.Within (Adds P) (outside p : Prog ε (Traced L W E) α) := fun _ => Adds.nothing rfl

theorem adds_note {e : E} (he : P e) :
    Prog.Within (Adds P) (note e : Prog ε (Traced L W E) Unit) := fun _ => Adds.one rfl he

theorem adds_embed {F : Type} {f : F → E} (hf : ∀ o, P (f o)) (p : Prog ε (Traced L W F) α) :
    Prog.Within (Adds P) (embed f p : Prog ε (Traced L W E) α) := by
  refine fun s => ⟨_, rfl, fun e he => ?_⟩
  obtain ⟨o, _, rfl⟩ := List.mem_map.mp he
  exact hf o

end Adds

end Traced
end Effects
end Eds
