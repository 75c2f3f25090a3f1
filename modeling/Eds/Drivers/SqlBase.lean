import Eds.Effects.Traced
import Eds.Event

/-!
# The shared part of the SQL drivers

A driver buffers one SQL text per event and executes the whole buffer as one
transaction.  The statement builders, the registry and the database are hooks over
a world `D` of which nothing is known.  The trace records the text that was built
for each event, and each text that was executed by a call that returned.

The migration methods of the driver talk to the database and to the cached schema
only.  They touch neither `pending` nor `count`, and belong to the world.
-/

namespace Eds
namespace Drivers

open Effects Effects.Prog Effects.Traced

variable {D : Type}

inductive IngestMode where
  | upsert
  | append
  deriving DecidableEq

structure SqlHooks (D : Type) where
  getTableVersion : Json → Prog Exn D (Bool × String)
  getSchema : Json → Json → Prog Exn D Schema
  toSql : DBChangeEvent → Schema → Prog Exn D String
  toAppendSql : DBChangeEvent → Schema → Prog Exn D String
  executeInTransaction : String → Prog Exn D Unit
  onFlushed : Nat → Prog Exn D Unit
  str : Json → String

structure SqlDriverBase where
  pending : List String
  count : Nat
  mode : IngestMode
  hasRegistry : Bool
  hasDb : Bool

inductive SqlObs where
  | built (evt : DBChangeEvent) (sql : String)
  | executed (sql : String)

abbrev SqlWorld (D : Type) := Traced SqlDriverBase D SqlObs

abbrev SqlProg (D α : Type) := Prog Exn (SqlWorld D) α

namespace SqlDriverBase

def tableVersion (hooks : SqlHooks D) (event : DBChangeEvent) : SqlProg D String :=
  tryExcept
    (do let (_, version) ← outside (hooks.getTableVersion event.table); pure version)
    fun e => raise (.valueError
      s!"unable to get table version for table: {hooks.str event.table}: {e.str}")

def tableSchema (hooks : SqlHooks D) (event : DBChangeEvent) (version : String) :
    SqlProg D Schema :=
  tryExcept (outside (hooks.getSchema event.table (.str version)))
    fun e => raise (.valueError
      s!"unable to get schema for table: {hooks.str event.table} ({version}). {e.str}")

def build (hooks : SqlHooks D) (event : DBChangeEvent) (schema : Schema) : SqlProg D String := do
  let mode ← read SqlDriverBase.mode
  match mode with
  | .append => outside (hooks.toAppendSql event schema)
  | .upsert => outside (hooks.toSql event schema)

def buffer (sql : String) (d : SqlDriverBase) : SqlDriverBase :=
  { d with pending := d.pending ++ [sql], count := d.count + 1 }

def reset (d : SqlDriverBase) : SqlDriverBase := { d with pending := [], count := 0 }

/-- An `assert` that does not hold. -/
def assertion : Exn := .exception ""

def process (hooks : SqlHooks D) (event : DBChangeEvent) : SqlProg D Bool := do
  let hasRegistry ← read SqlDriverBase.hasRegistry
  if hasRegistry then do
    let version ← tableVersion hooks event
    let schema ← tableSchema hooks event version
    let sql ← build hooks event schema
    note (.built event sql)
    assign (buffer sql)
    pure false
  else raise assertion

/-- One transaction for the whole buffer. -/
def execute (hooks : SqlHooks D) (d : SqlDriverBase) : SqlProg D Unit := do
  outside (hooks.executeInTransaction (String.join d.pending))
  note (.executed (String.join d.pending))
  outside (hooks.onFlushed d.count)

/-- The reset is reached only when nothing raised. -/
def flush (hooks : SqlHooks D) : SqlProg D Unit := do
  let d ← read id
  if d.hasDb then do
    if 0 < d.count then execute hooks d else pure ()
    assign reset
  else raise assertion

/-! ## What the two methods do to the buffer -/

def built (t : List SqlObs) : List (DBChangeEvent × String) :=
  t.filterMap fun o => match o with
    | .built evt sql => some (evt, sql)
    | .executed _ => none

def executed (t : List SqlObs) : List String :=
  t.filterMap fun o => match o with
    | .built _ _ => none
    | .executed sql => some sql

/-- The driver and its history are as before. -/
def Same (w w' : SqlWorld D) : Prop := w'.vars = w.vars ∧ w'.trace = w.trace

theorem Same.refl (w : SqlWorld D) : Same w w := ⟨rfl, rfl⟩

theorem Same.trans {w w' w'' : SqlWorld D} (h : Same w w') (h' : Same w' w'') : Same w w'' :=
  ⟨h'.1.trans h.1, h'.2.trans h.2⟩

theorem same_outside {α : Type} (p : Prog Exn D α) : Within Same (outside p : SqlProg D α) :=
  fun _ => ⟨rfl, rfl⟩

section Specs

variable {hooks : SqlHooks D} {event : DBChangeEvent} {w : SqlWorld D}

theorem tableVersion_same : Within Same (tableVersion hooks event) := by
  refine within_tryExcept ?_ (fun _ => within_raise Same.refl _) Same.refl Same.trans
  exact (same_outside _).bind (fun _ => within_pure Same.refl _) Same.trans

theorem tableSchema_same {version : String} : Within Same (tableSchema hooks event version) :=
  within_tryExcept (same_outside _) (fun _ => within_raise Same.refl _) Same.refl Same.trans

theorem build_same {schema : Schema} : Within Same (build hooks event schema) := by
  refine Within.bind (fun w => Same.refl w) (fun mode => ?_) Same.trans
  cases mode with
  | upsert => exact same_outside _
  | append => exact same_outside _

/-- An event is buffered as one text, or nothing happens. -/
theorem process_spec :
    wp (process hooks event)
      (fun _ w' => ∃ sql, w'.vars = buffer sql w.vars ∧ w'.trace = w.trace ++ [.built event sql])
      (fun _ w' => Same w w') w := by
  rw [process, wp_bind, wp_read]
  by_cases hr : w.vars.hasRegistry = true
  · rw [if_pos hr, wp_bind]
    refine wp_mono (tableVersion_same.wp w) (fun version w₁ h₁ => ?_) (fun _ _ h => h)
    rw [wp_bind]
    refine wp_mono (tableSchema_same.wp w₁) (fun schema w₂ h₂ => ?_) (fun _ _ h => h₁.trans h)
    rw [wp_bind]
    refine wp_mono (build_same.wp w₂) (fun sql w₃ h₃ => ?_) (fun _ _ h => (h₁.trans h₂).trans h)
    rw [wp_bind, wp_note, wp_bind, wp_assign, wp_pure]
    have hsame := (h₁.trans h₂).trans h₃
    exact ⟨sql, by simp [hsame.1], by simp [hsame.2]⟩
  · rw [if_neg hr]
    exact ⟨rfl, rfl⟩

theorem execute_spec {d : SqlDriverBase} :
    wp (execute hooks d)
      (fun _ w' => w'.vars = w.vars ∧ w'.trace = w.trace ++ [.executed (String.join d.pending)])
      (fun _ w' => w'.vars = w.vars ∧ (w'.trace = w.trace ∨
        w'.trace = w.trace ++ [.executed (String.join d.pending)])) w := by
  rw [execute, wp_bind]
  refine wp_mono ((same_outside _).wp w) (fun _ w₁ h₁ => ?_) (fun _ _ h => ⟨h.1, Or.inl h.2⟩)
  rw [wp_bind, wp_note]
  refine wp_mono ((same_outside _).wp _) (fun _ w₂ h₂ => ?_) (fun _ w₂ h₂ => ?_)
  · exact ⟨h₂.1.trans h₁.1, by rw [h₂.2, push_trace, h₁.2]⟩
  · exact ⟨h₂.1.trans h₁.1, Or.inr (by rw [h₂.2, push_trace, h₁.2])⟩

/-- What a flush that returns has executed. -/
def flushed (d : SqlDriverBase) : List SqlObs :=
  if 0 < d.count then [.executed (String.join d.pending)] else []

/-- A flush that raises leaves the buffer as it was. -/
theorem flush_spec :
    wp (flush hooks)
      (fun _ w' => w'.vars = reset w.vars ∧ w'.trace = w.trace ++ flushed w.vars)
      (fun _ w' => w'.vars = w.vars ∧ (w'.trace = w.trace ∨
        w'.trace = w.trace ++ [.executed (String.join w.vars.pending)])) w := by
  rw [flush, wp_bind, wp_read]
  by_cases hdb : w.vars.hasDb = true
  · simp only [id, hdb, if_true]
    by_cases hcount : 0 < w.vars.count
    · rw [flushed, if_pos hcount, if_pos hcount, wp_bind]
      refine wp_mono execute_spec (fun _ w₁ h₁ => ?_) (fun _ _ h => h)
      exact ⟨by rw [setVars_vars, h₁.1], h₁.2⟩
    · rw [flushed, if_neg hcount, if_neg hcount]
      exact ⟨rfl, (List.append_nil _).symm⟩
  · simp only [id, hdb]
    exact ⟨rfl, Or.inl rfl⟩

end Specs

end SqlDriverBase
end Drivers
end Eds
