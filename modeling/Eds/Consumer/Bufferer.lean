import Eds.Consumer.Lifecycle

/-!
# The drain task

`Bufferer.run` is one task that takes items from a queue and hands them to the
processor.  It gives up control only inside the processor, which looks neither at
the queue nor at the cancel event, and while it waits for an item.  So the task is
a machine that makes one turn at a time, and what the other tasks do (put an item,
set the cancel event, cancel the task itself) falls between two turns.

A turn at `draining` is `get_nowait` with what follows it: the item is handled, or
the queue is empty and the cancel event or the idle tick is next.  A turn at
`waiting` is the bounded wait for an item; `timeout` ends it without one.
-/

namespace Eds
namespace Consumer

open Effects Effects.Prog Effects.Traced

variable {W M : Type}

inductive Pc where
  | draining
  | waiting
  | returned
  | crashed (e : Exn)
  deriving DecidableEq

def Pc.running : Pc → Bool
  | draining | waiting => true
  | returned | crashed _ => false

/-- `queue` holds `none` for the sentinel, `fatal` what `on_fatal` was called with. -/
structure Bufferer (W M : Type) where
  pc : Pc
  queue : List (Option M)
  cancel : Bool
  fatal : Option Exn
  processor : State W M

namespace Bufferer

def afterCall (next : Pc) : Except Exn Unit → Pc
  | .ok () => next
  | .error e => if e.isConsumerStop then .returned else .crashed e

def reported (before : Option Exn) : Except Exn Unit → Option Exn
  | .error (.consumerFatal msg) => some (.consumerFatal msg)
  | _ => before

/-- A call of the processor under the two `except` clauses; `on_fatal` runs in the
second. -/
def guardedCall (b : Bufferer W M) (next : Pc) (p : Proc W M Unit) : Bufferer W M :=
  { b with
    pc := afterCall next (p b.processor).1
    fatal := reported b.fatal (p b.processor).1
    processor := (p b.processor).2 }

/-- Both signals are swallowed and the run is over. -/
def finalFlush (env : Env W M) (b : Bufferer W M) : Bufferer W M :=
  { b with
    pc := afterCall .returned (flush env b.processor).1
    processor := (flush env b.processor).2 }

/-- The hard cancel: no `except` clause around the call. -/
def giveUp (env : Env W M) (b : Bufferer W M) : Bufferer W M :=
  { b with
    pc := match (nackEverything env b.processor).1 with
      | .ok () => .returned
      | .error e => .crashed e
    processor := (nackEverything env b.processor).2 }

theorem afterCall_returned_running (r : Except Exn Unit) :
    (afterCall .returned r).running = false := by
  cases r with
  | ok _ => rfl
  | error e =>
    show (if e.isConsumerStop then Pc.returned else .crashed e).running = false
    split <;> rfl

theorem giveUp_running (env : Env W M) (b : Bufferer W M) :
    (b.giveUp env).pc.running = false := by
  unfold giveUp
  dsimp only
  split <;> rfl

/-- Of the items `items` that were offered, the messages taken so far come first and
those still queued last; the sentinel may stand between them once the run is over. -/
def Accounts (items : List (Option M)) (b : Bufferer W M) : Prop :=
  items = (tooks b.processor.trace).map some ++ b.queue ∨
    (b.pc.running = false ∧ items = (tooks b.processor.trace).map some ++ none :: b.queue)

theorem Accounts.mono {items : List (Option M)} {b b' : Bufferer W M}
    (h : Accounts items b)
    (htooks : tooks b'.processor.trace = tooks b.processor.trace) (hqueue : b'.queue = b.queue)
    (hpc : b.pc.running = false → b'.pc.running = false) : Accounts items b' := by
  rw [Accounts, htooks, hqueue]
  exact h.imp id fun hover => ⟨hpc hover.1, hover.2⟩

variable [DecidableEq M]

def handle (cfg : Config) (env : Env W M) (b : Bufferer W M) : Option M → Bufferer W M
  | none => b.finalFlush env
  | some m => b.guardedCall .draining (processMessage cfg env m)

def turn (cfg : Config) (env : Env W M) (b : Bufferer W M) : Bufferer W M :=
  match b.pc, b.queue with
  | .draining, item :: rest => handle cfg env { b with queue := rest } item
  | .draining, [] => if b.cancel then b.giveUp env else b.guardedCall .waiting (onIdle cfg env)
  | .waiting, item :: rest => handle cfg env { b with queue := rest } item
  | .waiting, [] => b
  | .returned, _ => b
  | .crashed _, _ => b

inductive Move (M : Type) where
  | turn
  | timeout
  | put (item : Option M)
  | setCancel
  | kill

/-- The task is cancelled: the exception arrives at the `await` it is in. -/
def kill (b : Bufferer W M) : Bufferer W M :=
  if b.pc.running then { b with pc := .crashed (.base "CancelledError") } else b

def step (cfg : Config) (env : Env W M) (b : Bufferer W M) : Move M → Bufferer W M
  | .turn => b.turn cfg env
  | .timeout => if b.pc = .waiting then { b with pc := .draining } else b
  | .put item => { b with queue := b.queue ++ [item] }
  | .setCancel => { b with cancel := true }
  | .kill => b.kill

def exec (cfg : Config) (env : Env W M) (b : Bufferer W M) (moves : List (Move M)) :
    Bufferer W M :=
  moves.foldl (step cfg env) b

/-- A new bufferer around a new processor. -/
def initial (queue : List (Option M)) (cancel : Bool) (sequence : Int) (w : W) : Bufferer W M where
  pc := .draining
  queue := queue
  cancel := cancel
  fatal := none
  processor := ⟨⟨[], none, sequence⟩, w, []⟩

def Move.added : Move M → List (Option M)
  | .put item => [item]
  | .turn | .timeout | .setCancel | .kill => []

/-- The items that ever stand in the queue, in order. -/
def offered (queue : List (Option M)) (moves : List (Move M)) : List (Option M) :=
  queue ++ moves.flatMap Move.added

/-! ## A run is a session -/

/-- The phase the processor is left in when the task stands at `pc`. -/
def Agrees (pc : Pc) (ph : Phase M) (s : State W M) : Prop :=
  match pc with
  | .draining => ph = .idle
  | .waiting => ph = .idle
  | .returned => (ph = .idle ∧ s.vars.pending = []) ∨ ∃ e, ph = .raised e ∧ e.isConsumerStop = true
  | .crashed _ => True

def Follows (cfg : Config) (env : Env W M) (s₀ : State W M) (b : Bufferer W M) : Prop :=
  ∃ ph, Session cfg env s₀ (ph, b.processor) ∧ Agrees b.pc ph b.processor

section Runs

variable {cfg : Config} {env : Env W M} {s₀ : State W M} {b : Bufferer W M}

theorem Follows.idle (h : Follows cfg env s₀ b) (hrun : b.pc.running = true) :
    Session cfg env s₀ (.idle, b.processor) := by
  obtain ⟨ph, hsession, hagree⟩ := h
  cases hpc : b.pc with
  | draining =>
    rw [hpc] at hagree
    rw [← show ph = .idle from hagree]
    exact hsession
  | waiting =>
    rw [hpc] at hagree
    rw [← show ph = .idle from hagree]
    exact hsession
  | returned => rw [hpc] at hrun; cases hrun
  | crashed e => rw [hpc] at hrun; cases hrun

/-- What the two `except` clauses make of a call of the processor. -/
theorem follows_afterCall {next : Pc} {p : Proc W M Unit} {s : State W M}
    (h : wp p (fun _ t => Session cfg env s₀ (.idle, t) ∧ Agrees next .idle t)
      (fun e t => Session cfg env s₀ (.raised e, t)) s) :
    ∃ ph, Session cfg env s₀ (ph, (p s).2) ∧ Agrees (afterCall next (p s).1) ph (p s).2 := by
  rcases wp_elim h with ⟨_, hr, hs, ha⟩ | ⟨e, hr, hs⟩
  · rw [hr]
    exact ⟨.idle, hs, ha⟩
  · rw [hr]
    refine ⟨.raised e, hs, ?_⟩
    show Agrees (if e.isConsumerStop then .returned else .crashed e) _ _
    by_cases he : e.isConsumerStop = true
    · rw [if_pos he]
      exact Or.inr ⟨e, rfl, he⟩
    · rw [if_neg he]
      trivial

theorem follows_handle {item : Option M} (h : Session cfg env s₀ (.idle, b.processor)) :
    Follows cfg env s₀ (handle cfg env b item) := by
  cases item with
  | none =>
    have hflush := flush_path (Relation.ReflTransGen.refl (r := Micro cfg env)
      (a := (Phase.idle, b.processor)))
    refine follows_afterCall (wp_mono (wp_and hflush flush_clears) ?_ ?_)
    · intro _ t ht
      exact ⟨h.path ht.1, Or.inl ⟨rfl, ht.2⟩⟩
    · intro e t ht
      exact h.path ht.1
  | some m =>
    refine follows_afterCall (wp_mono (processMessage_path .refl) ?_ ?_)
    · intro _ t ht
      exact ⟨(h.took m).path ht, rfl⟩
    · intro e t ht
      exact (h.took m).path ht

theorem follows_onIdle (h : Session cfg env s₀ (.idle, b.processor)) :
    Follows cfg env s₀ (b.guardedCall .waiting (onIdle cfg env)) := by
  refine follows_afterCall (wp_mono (onIdle_path .refl) ?_ ?_)
  · intro _ t ht
    exact ⟨h.path ht, rfl⟩
  · intro e t ht
    exact h.path ht

theorem follows_giveUp (h : Session cfg env s₀ (.idle, b.processor)) :
    Follows cfg env s₀ (b.giveUp env) := by
  have hstart : Session cfg env s₀ (.nacking b.processor.vars.pending none, b.processor) :=
    h.giveBack
  have hnack := nackEverything_path (Relation.ReflTransGen.refl (r := Micro cfg env)
    (a := (Phase.nacking b.processor.vars.pending none, b.processor)))
  rcases wp_elim (wp_and hnack nackEverything_clears) with
    ⟨_, hr, hpath, hclear⟩ | ⟨e, hr, hpath, _⟩
  · refine ⟨.idle, hstart.path hpath, ?_⟩
    simp only [giveUp, hr]
    exact Or.inl ⟨rfl, hclear⟩
  · refine ⟨.raised e, hstart.path hpath, ?_⟩
    simp only [giveUp, hr]
    trivial

theorem follows_turn (h : Follows cfg env s₀ b) : Follows cfg env s₀ (b.turn cfg env) := by
  unfold turn
  split
  · next hpc hq => exact follows_handle (h.idle (by rw [hpc]; rfl))
  · next hpc hq =>
    split
    · exact follows_giveUp (h.idle (by rw [hpc]; rfl))
    · exact follows_onIdle (h.idle (by rw [hpc]; rfl))
  · next hpc hq => exact follows_handle (h.idle (by rw [hpc]; rfl))
  · exact h
  · exact h
  · exact h

theorem follows_step (h : Follows cfg env s₀ b) (mv : Move M) :
    Follows cfg env s₀ (b.step cfg env mv) := by
  cases mv with
  | turn => exact follows_turn h
  | timeout =>
    show Follows cfg env s₀ (if b.pc = .waiting then _ else _)
    by_cases hpc : b.pc = .waiting
    · rw [if_pos hpc]
      exact ⟨.idle, h.idle (by rw [hpc]; rfl), rfl⟩
    · rw [if_neg hpc]
      exact h
  | put item => exact h
  | setCancel => exact h
  | kill =>
    show Follows cfg env s₀ b.kill
    unfold kill
    split
    · next hrun => exact ⟨.idle, h.idle hrun, trivial⟩
    · exact h

theorem follows_exec (h : Follows cfg env s₀ b) (moves : List (Move M)) :
    Follows cfg env s₀ (b.exec cfg env moves) := by
  induction moves generalizing b with
  | nil => exact h
  | cons mv rest ih => exact ih (follows_step h mv)

end Runs

/-! ## What becomes of the queue -/

section Accounting

variable {cfg : Config} {env : Env W M} {b : Bufferer W M} {items : List (Option M)}

theorem tooks_of_path {p : Proc W M Unit} {s : State W M} {x : Phase M × State W M}
    (h : wp p (fun _ t => Path cfg env x (.idle, t)) (fun e t => Path cfg env x (.raised e, t)) s) :
    tooks (p s).2.trace = tooks x.2.trace :=
  wp_state (I := fun t => tooks t.trace = tooks x.2.trace)
    (wp_mono h (fun _ _ ht => path_tooks ht) (fun _ _ ht => path_tooks ht))

theorem tooks_handle {item : Option M} {rest : List (Option M)} :
    tooks (handle cfg env { b with queue := rest } item).processor.trace =
      tooks b.processor.trace ++ item.toList := by
  cases item with
  | none =>
    have hpath : Path cfg env (.idle, b.processor) (.idle, b.processor) := .refl
    show tooks (flush env b.processor).2.trace = _
    rw [tooks_of_path (flush_path hpath), Option.toList_none, List.append_nil]
  | some m =>
    have hpath : Path cfg env (.taken m, b.processor.push (.took m))
        (.taken m, b.processor.push (.took m)) := .refl
    show tooks (processMessage cfg env m b.processor).2.trace = _
    rw [tooks_of_path (processMessage_path hpath)]
    simp [Obs.taken]

theorem accounts_handle {item : Option M} {rest : List (Option M)}
    (h : items = (tooks b.processor.trace).map some ++ item :: rest) :
    Accounts items (handle cfg env { b with queue := rest } item) := by
  cases item with
  | none =>
    refine Or.inr ⟨afterCall_returned_running _, ?_⟩
    rw [h, tooks_handle, Option.toList_none, List.append_nil]
    rfl
  | some m =>
    refine Or.inl ?_
    rw [h, tooks_handle, Option.toList_some, List.map_append, List.append_assoc]
    rfl

theorem accounts_turn (h : Accounts items b) : Accounts items (b.turn cfg env) := by
  unfold turn
  split
  · next hpc hq =>
    rcases h with h | h
    · exact accounts_handle (by rw [h, hq])
    · rw [hpc] at h
      cases h.1
  · next hpc hq =>
    split
    · have hstart : Path cfg env (.nacking b.processor.vars.pending none, b.processor)
          (.nacking b.processor.vars.pending none, b.processor) := .refl
      exact h.mono (tooks_of_path (nackEverything_path hstart)) rfl (by rw [hpc]; exact nofun)
    · have hstart : Path cfg env (.idle, b.processor) (.idle, b.processor) := .refl
      exact h.mono (tooks_of_path (onIdle_path hstart)) rfl (by rw [hpc]; exact nofun)
  · next hpc hq =>
    rcases h with h | h
    · exact accounts_handle (by rw [h, hq])
    · rw [hpc] at h
      cases h.1
  · exact h
  · exact h
  · exact h

theorem accounts_step (h : Accounts items b) (mv : Move M) :
    Accounts (items ++ mv.added) (b.step cfg env mv) := by
  cases mv with
  | turn =>
    rw [Move.added, List.append_nil]
    exact accounts_turn h
  | timeout =>
    rw [Move.added, List.append_nil]
    show Accounts items (if b.pc = .waiting then _ else _)
    split
    · next hpc => exact h.mono rfl rfl (by rw [hpc]; exact nofun)
    · exact h
  | put item =>
    rcases h with h | h
    · exact Or.inl (by rw [h, Move.added, List.append_assoc]; rfl)
    · exact Or.inr ⟨h.1, by rw [h.2, Move.added, List.append_assoc]; rfl⟩
  | setCancel =>
    rw [Move.added, List.append_nil]
    exact h.mono rfl rfl id
  | kill =>
    rw [Move.added, List.append_nil]
    show Accounts items b.kill
    unfold kill
    split
    · exact h.mono rfl rfl fun _ => rfl
    · exact h

theorem accounts_exec (h : Accounts items b) (moves : List (Move M)) :
    Accounts (items ++ moves.flatMap Move.added) (b.exec cfg env moves) := by
  induction moves generalizing b items with
  | nil =>
    rw [List.flatMap_nil, List.append_nil]
    exact h
  | cons mv rest ih =>
    rw [List.flatMap_cons, ← List.append_assoc]
    exact ih (accounts_step h mv)

theorem accounts_initial (cfg : Config) (env : Env W M) (queue : List (Option M)) (cancel : Bool)
    (sequence : Int) (w : W) (moves : List (Move M)) :
    Accounts (offered queue moves) ((initial queue cancel sequence w).exec cfg env moves) :=
  accounts_exec (b := initial queue cancel sequence w) (Or.inl rfl) moves

end Accounting

end Bufferer
end Consumer
end Eds
