import Mathlib.Data.List.Basic

/-!
# Machines that read text

A transducer reads a text one symbol at a time and emits tokens.  What it still owes
at the end of the text comes from `finish`, which fails where the text stops too
early.  `Passes` follows the machine over a part of a text, whatever comes after it.
-/

namespace Eds
namespace Lexing

structure Transducer (α σ τ : Type) where
  start : σ
  step : σ → α → σ × List τ
  finish : σ → Option (List τ)

namespace Transducer

variable {α σ τ : Type} (T : Transducer α σ τ)

def readFrom : σ → List α → Option (List τ)
  | s, [] => T.finish s
  | s, a :: text => (readFrom (T.step s a).1 text).map ((T.step s a).2 ++ ·)

def read (text : List α) : Option (List τ) := T.readFrom T.start text

/-- From `s` the machine reads `text`, emits `out` and is in `s'`. -/
def Passes (s : σ) (text : List α) (s' : σ) (out : List τ) : Prop :=
  ∀ rest, T.readFrom s (text ++ rest) = (T.readFrom s' rest).map (out ++ ·)

variable {T} {s s' s'' : σ} {a : α} {text text' : List α} {out out' : List τ}

theorem map_append_append (r : Option (List τ)) (out out' : List τ) :
    (r.map (out' ++ ·)).map (out ++ ·) = r.map (out ++ out' ++ ·) := by
  cases r with
  | none => rfl
  | some tokens => simp only [Option.map_some, List.append_assoc]

theorem map_nil_append (r : Option (List τ)) : r.map ([] ++ ·) = r := by
  cases r <;> rfl

theorem Passes.nil : T.Passes s [] s [] := by
  intro rest
  rw [List.nil_append, map_nil_append]

theorem Passes.single (hstep : T.step s a = (s', out)) : T.Passes s [a] s' out := by
  intro rest
  simp only [List.singleton_append, readFrom, hstep]

theorem Passes.append (h : T.Passes s text s' out) (h' : T.Passes s' text' s'' out') :
    T.Passes s (text ++ text') s'' (out ++ out') := by
  intro rest
  rw [List.append_assoc, h, h', map_append_append]

theorem Passes.cons (hstep : T.step s a = (s', out)) (h : T.Passes s' text s'' out') :
    T.Passes s (a :: text) s'' (out ++ out') :=
  (Passes.single hstep).append h

/-- Parts that are read one by one; the machine remembers what it has read. -/
theorem Passes.flatMap {β : Type} {state : List β → σ} {encode : α → List α} {decode : α → List β}
    {text : List α}
    (h : ∀ a ∈ text, ∀ before, T.Passes (state before) (encode a) (state (before ++ decode a)) [])
    (before : List β) :
    T.Passes (state before) (text.flatMap encode) (state (before ++ text.flatMap decode)) [] := by
  induction text generalizing before with
  | nil =>
    rw [List.flatMap_nil, List.flatMap_nil, List.append_nil]
    exact Passes.nil
  | cons a text ih =>
    rw [List.flatMap_cons, List.flatMap_cons, ← List.append_assoc]
    exact (h a List.mem_cons_self before).append
      (ih (fun a' ha' => h a' (List.mem_cons_of_mem a ha')) (before ++ decode a))

theorem Passes.readFrom_eq (h : T.Passes s text s' out) :
    T.readFrom s text = (T.finish s').map (out ++ ·) := by
  have hall := h []
  rw [List.append_nil] at hall
  exact hall

end Transducer
end Lexing
end Eds
