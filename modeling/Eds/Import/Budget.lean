import Eds.Import.Recovery
import Eds.Effects.History

/-!
# The retry budget

`attempts` counts the retries that are left and computes each delay.  The source counts
the attempts, compares the count with `max_retries`, and takes the delay out of a list by
an index that lags one behind.  `recoveryLoop` is the loop as it is written there, with
the variable `attempt` beside the state; `recoveryLoop_eq` says that it is `attempts`.

`Stages.recorded` writes down the calls that the loop makes, in a list beside the world:
each stage as it is called and what it raises, a cancel flag that was found set, and each
delay.  An entry is final when the loop has to end there.
-/

namespace Eds
namespace Import

open Effects Effects.Prog Effects.Traced

variable {W : Type}

/-! ## The loop -/

def recoveryBaseDelaySeconds : Nat := 30

def backoffLadder (maxRetries : Int) : List Nat :=
  (List.range (max 0 maxRetries).toNat).map fun n => recoveryBaseDelaySeconds * 2 ^ n

/-- `ladder[i]` -/
def delayAt (ladder : List Nat) (i : Nat) : Except Exn Nat :=
  match ladder[i]? with
  | some delay => .ok delay
  | none => .error (.exception "list index out of range")

/-- `while True`: each round takes one unit of the fuel, and `none` means that there was too
little of it.  The second component of the state is the variable `attempt`; the result says
whether the retries are used up. -/
def recoveryLoop (stages : Stages W) (req : Request) : Nat → Prog Exn (RState W × Nat) (Option Bool)
  | 0 => pure none
  | fuel + 1 => do
    update fun s => (s.1, s.2 + 1)
    let attempt ← asks Prod.snd
    let ended ← first (round stages req)
    if ended then pure (some false)
    else if (attempt : Int) > req.maxRetries then pure (some true)
    else do
      first (checkCancelled stages)
      let delay ← ofExcept (delayAt (backoffLadder req.maxRetries) (attempt - 1))
      first (do note (.slept delay); outside (stages.sleep delay))
      first (checkCancelled stages)
      recoveryLoop stages req fuel

/-- The delay of a retry that is allowed is in the ladder. -/
theorem delayAt_backoffLadder {maxRetries : Int} {n : Nat} (h : n < maxRetries.toNat) :
    delayAt (backoffLadder maxRetries) n = .ok (30 * 2 ^ n) := by
  have hlen : (max 0 maxRetries).toNat = maxRetries.toNat := by omega
  have hget : (backoffLadder maxRetries)[n]? = some (30 * 2 ^ n) := by
    rw [backoffLadder, hlen, List.getElem?_map, List.getElem?_range h]
    rfl
  rw [delayAt, hget]

/-- The wait between two attempts, before loops that agree. -/
theorem backOff_eq {stages : Stages W} {ladder : List Nat} {done : Nat}
    {rest : Prog Exn (RState W × Nat) (Option Bool)} {rest' : RProg W Bool}
    (hdelay : delayAt ladder (done + 1 - 1) = .ok (30 * 2 ^ done))
    (hrest : ∀ s, ∃ n, rest (s, done + 1) = ((rest' s).1.map some, ((rest' s).2, n)))
    (s : RState W) :
    ∃ n, (do
        first (checkCancelled stages)
        let delay ← ofExcept (delayAt ladder (done + 1 - 1))
        first (do note (.slept delay); outside (stages.sleep delay))
        first (checkCancelled stages)
        rest : Prog Exn (RState W × Nat) (Option Bool)) (s, done + 1) =
      (((backOff stages done >>= fun _ => rest') s).1.map some,
        (((backOff stages done >>= fun _ => rest') s).2, n)) := by
  rw [hdelay]
  rcases hcheck : checkCancelled stages s with ⟨r, s₁⟩
  cases r with
  | error e =>
    have hback : backOff stages done s = (.error e, s₁) := bind_of_error hcheck
    rw [bind_of_error (first_of hcheck), bind_of_error hback]
    exact ⟨done + 1, rfl⟩
  | ok _ =>
    have hlookup : (ofExcept (.ok (30 * 2 ^ done)) : Prog Exn (RState W × Nat) Nat) (s₁, done + 1) =
        (.ok (30 * 2 ^ done), (s₁, done + 1)) := rfl
    rw [bind_of_ok (first_of hcheck), bind_of_ok hlookup]
    rcases hsleep : outside (stages.sleep (30 * 2 ^ done)) (s₁.push (.slept (30 * 2 ^ done)))
      with ⟨r, s₂⟩
    have hwait : (do note (.slept (30 * 2 ^ done)); outside (stages.sleep (30 * 2 ^ done)) :
        RProg W Unit) s₁ = (r, s₂) := (bind_of_ok rfl).trans hsleep
    cases r with
    | error e =>
      have hback : backOff stages done s = (.error e, s₂) :=
        (bind_of_ok hcheck).trans ((bind_of_ok rfl).trans (bind_of_error hsleep))
      rw [bind_of_error (first_of hwait), bind_of_error hback]
      exact ⟨done + 1, rfl⟩
    | ok _ =>
      rw [bind_of_ok (first_of hwait)]
      rcases hagain : checkCancelled stages s₂ with ⟨r, s₃⟩
      have hback : backOff stages done s = (r, s₃) :=
        (bind_of_ok hcheck).trans ((bind_of_ok rfl).trans ((bind_of_ok hsleep).trans hagain))
      cases r with
      | error e =>
        rw [bind_of_error (first_of hagain), bind_of_error hback]
        exact ⟨done + 1, rfl⟩
      | ok _ =>
        rw [bind_of_ok (first_of hagain), bind_of_ok hback]
        exact hrest s₃

/-- With fuel for every attempt the loop does what `attempts` does. -/
theorem recoveryLoop_eq (stages : Stages W) (req : Request) (extra : Nat) {done retries : Nat}
    (h : req.maxRetries.toNat = done + retries) (s : RState W) :
    ∃ n, recoveryLoop stages req (retries + 1 + extra) (s, done) =
      ((attempts stages req done retries s).1.map some,
        ((attempts stages req done retries s).2, n)) := by
  induction retries generalizing done s with
  | zero =>
    refine ⟨done + 1, ?_⟩
    have hover : ((done + 1 : Nat) : Int) > req.maxRetries := by omega
    rw [Nat.add_right_comm, recoveryLoop, attempts]
    refine (bind_of_ok rfl).trans ((bind_of_ok rfl).trans ?_)
    rcases hround : round stages req s with ⟨ended, s₁⟩
    cases ended with
    | error e => rw [bind_of_error (first_of hround), bind_of_error hround]; rfl
    | ok ended =>
      rw [bind_of_ok (first_of hround), bind_of_ok hround]
      cases ended with
      | true => rfl
      | false =>
        simp only [Bool.false_eq_true, if_false, if_pos hover]
        rfl
  | succ retries ih =>
    have hwithin : ¬ ((done + 1 : Nat) : Int) > req.maxRetries := by omega
    have hdelay : delayAt (backoffLadder req.maxRetries) (done + 1 - 1) = .ok (30 * 2 ^ done) :=
      delayAt_backoffLadder (by omega)
    rw [Nat.add_right_comm, recoveryLoop, attempts]
    have hround_of : ∀ {r : Except Exn Bool} {s₁ : RState W}, round stages req s = (r, s₁) →
        first (round stages req) (s, done + 1) = (r, (s₁, done + 1)) := first_of
    rcases hround : round stages req s with ⟨ended, s₁⟩
    cases ended with
    | error e =>
      refine ⟨done + 1, (bind_of_ok rfl).trans ((bind_of_ok rfl).trans ?_)⟩
      rw [bind_of_error (hround_of hround), bind_of_error hround]
      rfl
    | ok ended =>
      cases ended with
      | true =>
        refine ⟨done + 1, (bind_of_ok rfl).trans ((bind_of_ok rfl).trans ?_)⟩
        rw [bind_of_ok (hround_of hround), bind_of_ok hround]
        rfl
      | false =>
        rw [bind_of_ok hround, if_neg Bool.false_ne_true]
        have hrest : ∀ s₂, ∃ n, recoveryLoop stages req (retries + 1 + extra) (s₂, done + 1) =
            ((attempts stages req (done + 1) retries s₂).1.map some,
              ((attempts stages req (done + 1) retries s₂).2, n)) := fun s₂ => ih (by omega) s₂
        obtain ⟨n, hn⟩ := backOff_eq hdelay hrest s₁
        refine ⟨n, (bind_of_ok rfl).trans ((bind_of_ok rfl).trans ?_)⟩
        rw [bind_of_ok (hround_of hround), if_neg Bool.false_ne_true, if_neg hwithin]
        exact hn

/-! ## The calls that the loop makes -/

inductive StageName where
  | export
  | poll
  | download
  | import
  deriving DecidableEq

/-- `raised` is what a stage raised, and `aborted` what another call did. -/
inductive Act where
  | stage (name : StageName)
  | raised (e : Exn)
  | aborted (e : Exn)
  | cancelSeen
  | slept (seconds : Nat)
  deriving DecidableEq

/-- The world, and the calls so far. -/
abbrev Ledger (W : Type) := W × List Act

/-- Caught by the loop, and worth another attempt. -/
def retried (e : Exn) : Bool := e.isException && isRecoverable e

/-- The loop raises `e` because of this entry. -/
def Act.Explains (e : Exn) : Act → Prop
  | raised e' => e' = e ∧ retried e = false
  | aborted e' => e' = e
  | cancelSeen => e = .recoveryCancelled
  | stage _ | slept _ => False

def Act.Final (a : Act) : Prop := ∃ e, a.Explains e

def Act.delay : Act → Option Nat
  | slept seconds => some seconds
  | stage _ | raised _ | aborted _ | cancelSeen => none

def delays (log : List Act) : List Nat := log.filterMap Act.delay

section Recording

variable {α : Type}

def record (a : Act) : Prog Exn (Ledger W) Unit := update fun w => (w.1, w.2 ++ [a])

def recordStage (name : StageName) (p : Prog Exn W α) : Prog Exn (Ledger W) α := do
  record (.stage name)
  handle (first p) fun e => do
    record (.raised e)
    raise e

def recordCall (p : Prog Exn W α) : Prog Exn (Ledger W) α :=
  handle (first p) fun e => do
    record (.aborted e)
    raise e

end Recording

def Stages.recorded (stages : Stages W) : Stages (Ledger W) where
  exportFn tables := recordStage .export (stages.exportFn tables)
  pollFn jobId := recordStage .poll (stages.pollFn jobId)
  downloadFn job tables jobId := recordStage .download (stages.downloadFn job tables jobId)
  importFn jobId tables dir := recordStage .import (stages.importFn jobId tables dir)
  progressMarkerPresent table := recordCall (stages.progressMarkerPresent table)
  cancelled := do
    let stop ← recordCall stages.cancelled
    if stop then do
      record .cancelSeen
      pure stop
    else pure stop
  sleep seconds := do
    record (.slept seconds)
    recordCall (stages.sleep seconds)

/-! ## How a log grows -/

/-- Neither a delay nor the end of the loop. -/
def Act.Plain : Act → Prop
  | stage _ => True
  | raised e => retried e = true
  | aborted _ | cancelSeen | slept _ => False

def Goes (log log' : List Act) : Prop := ∃ es, log' = log ++ es ∧ ∀ a ∈ es, a.Plain

/-- A stage has raised `e`. -/
def Fails (log : List Act) (e : Exn) (log' : List Act) : Prop :=
  ∃ front, Goes log front ∧ log' = front ++ [.raised e]

/-- The loop is about to raise `e`. -/
def Stops (log : List Act) (e : Exn) (log' : List Act) : Prop :=
  ∃ front a, Goes log front ∧ log' = front ++ [a] ∧ a.Explains e ∧ a.delay = none

section Logs

variable {log log' log'' : List Act} {e : Exn}

theorem Act.Plain.not_final {a : Act} (h : a.Plain) : ¬ a.Final := by
  intro hfinal
  obtain ⟨e, he⟩ := hfinal
  cases a with
  | stage name => exact he
  | raised e' =>
    obtain ⟨rfl, hfatal⟩ := he
    exact absurd (h.symm.trans hfatal) (by decide)
  | aborted e' => exact h
  | cancelSeen => exact h
  | slept seconds => exact h

theorem Act.Plain.delay_eq {a : Act} (h : a.Plain) : a.delay = none := by
  cases a with
  | slept seconds => exact h.elim
  | _ => rfl

theorem Goes.refl (log : List Act) : Goes log log :=
  ⟨[], (List.append_nil _).symm, fun _ h => absurd h List.not_mem_nil⟩

theorem Goes.trans (h : Goes log log') (h' : Goes log' log'') : Goes log log'' := by
  obtain ⟨es, rfl, hes⟩ := h
  obtain ⟨es', rfl, hes'⟩ := h'
  refine ⟨es ++ es', List.append_assoc _ _ _, fun a ha => ?_⟩
  exact (List.mem_append.mp ha).elim (hes a) (hes' a)

theorem goes_snoc {a : Act} (ha : a.Plain) : Goes log (log ++ [a]) := by
  refine ⟨[a], rfl, fun a' ha' => ?_⟩
  rw [List.mem_singleton.mp ha']
  exact ha

theorem Fails.after (h : Goes log log') (h' : Fails log' e log'') : Fails log e log'' := by
  obtain ⟨front, hfront, hlog⟩ := h'
  exact ⟨front, h.trans hfront, hlog⟩

theorem Stops.after (h : Goes log log') (h' : Stops log' e log'') : Stops log e log'' := by
  obtain ⟨front, a, hfront, hrest⟩ := h'
  exact ⟨front, a, h.trans hfront, hrest⟩

theorem delays_append (log log' : List Act) : delays (log ++ log') = delays log ++ delays log' :=
  List.filterMap_append

theorem Goes.delays_eq (h : Goes log log') : delays log' = delays log := by
  obtain ⟨es, rfl, hes⟩ := h
  have hnone : delays es = [] := by
    rw [delays, List.filterMap_eq_nil_iff]
    exact fun a ha => (hes a ha).delay_eq
  rw [delays_append, hnone, List.append_nil]

theorem Stops.delays_eq (h : Stops log e log') : delays log' = delays log := by
  obtain ⟨front, a, hfront, rfl, _, ha⟩ := h
  have hnone : delays [a] = [] := by
    rw [delays, List.filterMap_cons_none ha]
    rfl
  rw [delays_append, hnone, List.append_nil, hfront.delays_eq]

end Logs

/-! ## One attempt -/

def acts (s : RState (Ledger W)) : List Act := s.world.2

/-- A program that only calls stages: what it raises is what the last of them raised. -/
def Attempting {α : Type} (p : RProg (Ledger W) α) : Prop :=
  ∀ s, wp p (fun _ t => Goes (acts s) (acts t)) (fun e t => Fails (acts s) e (acts t)) s

section Attempts

variable {α β : Type} {stages : Stages W} {req : Request}

theorem attempting_pure (a : α) : Attempting (pure a : RProg (Ledger W) α) :=
  fun s => Goes.refl (acts s)

theorem attempting_read (f : Loop → α) : Attempting (read f : RProg (Ledger W) α) :=
  fun s => Goes.refl (acts s)

theorem attempting_assign (f : Loop → Loop) : Attempting (assign f : RProg (Ledger W) Unit) :=
  fun s => Goes.refl (acts s)

theorem attempting_note (e : Event) : Attempting (note e : RProg (Ledger W) Unit) :=
  fun s => Goes.refl (acts s)

theorem Attempting.bind {p : RProg (Ledger W) α} {f : α → RProg (Ledger W) β} (hp : Attempting p)
    (hf : ∀ a, Attempting (f a)) : Attempting (p >>= f) := by
  intro s
  rw [wp_bind]
  refine wp_post (hp s) fun a t ht => ?_
  exact wp_mono (hf a t) (fun _ _ hu => ht.trans hu) (fun _ _ hu => Fails.after ht hu)

theorem attempting_stage (name : StageName) (p : Prog Exn W α) :
    Attempting (outside (recordStage name p)) := by
  intro s
  rw [wp_outside_iff, recordStage, wp_bind]
  have hstage : Goes (acts s) (acts s ++ [.stage name]) := goes_snoc trivial
  show wp (handle (first p) _) _ _ (s.world.1, acts s ++ [.stage name])
  rw [wp_handle, first, wp_on]
  refine wp_any (fun _ _ => hstage) (fun e _ => ?_)
  exact ⟨_, hstage, rfl⟩

theorem post_attempting : Attempting (post stages.recorded) := by
  refine (attempting_read _).bind fun needPost => (attempting_read _).bind fun tables => ?_
  split
  · exact (attempting_stage _ _).bind fun _ => attempting_assign _
  · exact attempting_pure ()

theorem pollJob_attempting : Attempting (pollJob stages.recorded) := by
  refine (attempting_read _).bind fun jobId => (attempting_stage _ _).bind fun job => ?_
  refine (attempting_read _).bind fun imported => (attempting_note _).bind fun _ => ?_
  exact (attempting_assign _).bind fun _ => attempting_pure job

theorem load_attempting (job : ExportJobResponse) (ready : List String) :
    Attempting (load stages.recorded job ready) := by
  refine (attempting_read _).bind fun jobId => (attempting_stage _ _).bind fun reply => ?_
  refine (attempting_note _).bind fun _ => (attempting_stage _ _).bind fun _ => ?_
  refine (attempting_note _).bind fun _ => (attempting_read _).bind fun imported => ?_
  exact (attempting_note _).bind fun _ => attempting_assign _

theorem remaining_attempting : Attempting (remaining : RProg (Ledger W) Bool) := by
  refine (attempting_read _).bind fun left => ?_
  split
  · exact attempting_pure true
  · exact (attempting_assign _).bind fun _ => attempting_pure false

theorem attempt_attempting : Attempting (attempt stages.recorded) := by
  refine (attempting_assign _).bind fun _ => post_attempting.bind fun _ => ?_
  refine pollJob_attempting.bind fun job => (attempting_read _).bind fun ready => ?_
  split
  · exact (load_attempting job ready).bind fun _ => remaining_attempting
  · exact remaining_attempting

end Attempts

/-! ## One round of the loop -/

section Rounds

variable {α : Type} {stages : Stages W} {req : Request} {s : RState (Ledger W)} {log : List Act}

theorem recordCall_spec {p : Prog Exn W α} {w : Ledger W} :
    wp (recordCall p) (fun _ w' => w'.2 = w.2) (fun e w' => w'.2 = w.2 ++ [.aborted e]) w := by
  rw [recordCall, wp_handle, first, wp_on]
  exact wp_any (fun _ _ => rfl) (fun _ _ => rfl)

theorem stops_aborted (e : Exn) : Stops log e (log ++ [.aborted e]) :=
  ⟨log, _, Goes.refl log, rfl, rfl, rfl⟩

/-- The progress markers are looked up. -/
theorem marked_spec {tables : List String} {w : Ledger W} :
    wp (marked stages.recorded.progressMarkerPresent tables) (fun _ w' => w'.2 = w.2)
      (fun e w' => w'.2 = w.2 ++ [.aborted e]) w := by
  induction tables generalizing w with
  | nil => rfl
  | cons t rest ih =>
    rw [marked, wp_bind]
    refine wp_post recordCall_spec fun found w₁ h₁ => ?_
    rw [wp_bind]
    refine wp_mono ih (fun more w₂ h₂ => ?_) (fun e w₂ h₂ => ?_)
    · exact h₂.trans h₁
    · rw [h₂, h₁]

theorem recover_spec (e : Exn) :
    wp (recover stages.recorded req e) (fun _ t => Goes (acts s) (acts t))
      (fun e t => Stops (acts s) e (acts t)) s := by
  have hdrop : ∀ (scope : Option (List String)) (s : RState (Ledger W)),
      wp (dropFlushed stages.recorded req scope) (fun _ t => Goes (acts s) (acts t))
        (fun e t => Stops (acts s) e (acts t)) s := by
    intro scope s
    cases scope with
    | none => exact Goes.refl (acts s)
    | some scope =>
      rw [dropFlushed]
      split
      · rw [wp_bind, wp_outside_iff]
        refine wp_mono marked_spec (fun flushed w hw => ?_) (fun e w hw => ?_)
        · rw [wp_bind, wp_read, wp_bind, wp_each_note, wp_bind, wp_read, wp_bind, wp_note, wp_bind,
            wp_assign, wp_pure]
          show Goes (acts s) w.2
          rw [hw]
          exact Goes.refl (acts s)
        · show Stops (acts s) e w.2
          rw [hw]
          exact stops_aborted e
      · exact Goes.refl (acts s)
  rw [recover, wp_bind, wp_note, wp_bind, wp_read, wp_bind]
  exact wp_post (hdrop _ _) fun scope t ht => ht

theorem round_spec :
    wp (round stages.recorded req) (fun _ t => Goes (acts s) (acts t))
      (fun e t => Stops (acts s) e (acts t)) s := by
  rw [round, wp_bind]
  have htry : wp (tryAttempt stages.recorded req) (fun _ t => Goes (acts s) (acts t))
      (fun e t => Stops (acts s) e (acts t)) s := by
    refine wp_tryExcept (wp_mono (attempt_attempting s) (fun _ _ ht => ht) (fun e t ht => ?_))
    obtain ⟨front, hfront, hlog⟩ := ht
    have hstops : retried e = false → Stops (acts s) e (acts t) :=
      fun hfatal => ⟨front, .raised e, hfront, hlog, ⟨rfl, hfatal⟩, rfl⟩
    refine ⟨fun hexn => ?_, fun hexn => hstops (by rw [retried, hexn, Bool.false_and])⟩
    split
    · next hrecoverable =>
      have hplain : retried e = true := by rw [retried, hexn, hrecoverable]; rfl
      have hgoes : Goes (acts s) (acts t) := by
        rw [hlog]
        exact hfront.trans (goes_snoc hplain)
      rw [wp_bind]
      exact wp_mono (recover_spec e) (fun _ _ hu => hgoes.trans hu) (fun _ _ hu => Stops.after hgoes hu)
    · next hrecoverable =>
      exact hstops (by rw [retried, Bool.eq_false_of_not_eq_true hrecoverable, Bool.and_false])
  exact wp_post htry fun _ _ ht => ht

theorem checkCancelled_spec :
    wp (checkCancelled stages.recorded) (fun _ t => acts t = acts s)
      (fun e t => Stops (acts s) e (acts t)) s := by
  rw [checkCancelled, wp_bind, wp_outside_iff]
  show wp (recordCall stages.cancelled >>= _) _ _ _
  rw [wp_bind]
  refine wp_mono recordCall_spec (fun stop w hw => ?_) (fun e w hw => ?_)
  · cases stop with
    | true =>
      show Stops (acts s) .recoveryCancelled (w.2 ++ [.cancelSeen])
      rw [hw]
      exact ⟨acts s, _, Goes.refl _, rfl, rfl, rfl⟩
    | false => exact hw
  · show Stops (acts s) e w.2
    rw [hw]
    exact stops_aborted e

theorem sleep_spec {seconds : Nat} :
    wp (do note (.slept seconds); outside (stages.recorded.sleep seconds) : RProg (Ledger W) Unit)
      (fun _ t => acts t = acts s ++ [.slept seconds])
      (fun e t => Stops (acts s ++ [.slept seconds]) e (acts t)) s := by
  rw [wp_bind, wp_note, wp_outside_iff]
  show wp (recordCall (stages.sleep seconds)) _ _ (s.world.1, acts s ++ [.slept seconds])
  refine wp_mono recordCall_spec (fun _ w hw => hw) (fun e w hw => ?_)
  show Stops _ e w.2
  rw [hw]
  exact stops_aborted e

end Rounds

/-! ## The budget -/

def ladderPrefix (n : Nat) : List Nat := (List.range n).map fun k => 30 * 2 ^ k

/-- No entry of the log ends the loop. -/
def Open (log : List Act) : Prop := ∀ a ∈ log, ¬ a.Final

/-- What holds of the log and of the number of attempts, with `retries` in all. -/
structure Budgeted (retries : Nat) (log : List Act) (attempt : Nat) : Prop where
  attempts : attempt ≤ retries + 1
  slept : ∃ k ≤ retries, delays log = ladderPrefix k

section Loops

variable {stages : Stages W} {req : Request} {log log' : List Act} {e : Exn} {a : Act}

theorem Open.goes (h : Open log) (hgoes : Goes log log') : Open log' := by
  obtain ⟨es, rfl, hes⟩ := hgoes
  intro a ha
  exact (List.mem_append.mp ha).elim (h a) fun h => (hes a h).not_final

theorem Open.slept (h : Open log) (seconds : Nat) : Open (log ++ [.slept seconds]) := by
  intro a ha hfinal
  rcases List.mem_append.mp ha with ha | ha
  · exact h a ha hfinal
  · obtain ⟨e, he⟩ := hfinal
    rw [List.mem_singleton.mp ha] at he
    exact he

theorem delays_slept (log : List Act) (seconds : Nat) :
    delays (log ++ [.slept seconds]) = delays log ++ [seconds] := by
  rw [delays_append]
  rfl

theorem ladderPrefix_succ (n : Nat) : ladderPrefix (n + 1) = ladderPrefix n ++ [30 * 2 ^ n] := by
  rw [ladderPrefix, List.range_succ, List.map_append]
  rfl

/-- How the loop ends when it raises: the last entry says why, and it is the only final one. -/
def Ends (log : List Act) (e : Exn) : Prop :=
  ∃ front a, log = front ++ [a] ∧ Open front ∧ a.Explains e

theorem Stops.ends (h : Open log) (hstops : Stops log e log') : Ends log' e := by
  obtain ⟨front, a, hfront, hlog, hexplains, _⟩ := hstops
  exact ⟨front, a, hlog, h.goes hfront, hexplains⟩

theorem wp_first {α τ : Type} {p : RProg (Ledger W) α} {Q : α → RState (Ledger W) × τ → Prop}
    {X : Exn → RState (Ledger W) × τ → Prop} {s : RState (Ledger W)} {n : τ} :
    wp (first p) Q X (s, n) ↔ wp p (fun a t => Q a (t, n)) (fun e t => X e (t, n)) s := wp_on

/-- The wait that follows attempt `done + 1`, when a retry is left, and what comes after it. -/
theorem wait_spec {α : Type} {retries done : Nat} (hdone : done + 1 ≤ retries)
    {s : RState (Ledger W)} (hopen : Open (acts s)) (hslept : delays (acts s) = ladderPrefix done)
    {rest : Prog Exn (RState (Ledger W) × Nat) α} {Q : α → RState (Ledger W) × Nat → Prop}
    (hrest : ∀ t, Open (acts t) → delays (acts t) = ladderPrefix (done + 1) →
      wp rest Q (fun e t => Ends (acts t.1) e ∧ Budgeted retries (acts t.1) t.2) (t, done + 1)) :
    wp (do
        first (checkCancelled stages.recorded)
        let delay ← ofExcept (.ok (30 * 2 ^ done))
        first (do note (.slept delay); outside (stages.recorded.sleep delay))
        first (checkCancelled stages.recorded)
        rest)
      Q (fun e t => Ends (acts t.1) e ∧ Budgeted retries (acts t.1) t.2) (s, done + 1) := by
  rw [wp_bind, wp_first]
  refine wp_mono checkCancelled_spec (fun _ s₁ h₁ => ?_) (fun e s₁ h₁ => ?_)
  · have hopen₁ : Open (acts s₁ ++ [.slept (30 * 2 ^ done)]) := by
      rw [h₁]
      exact hopen.slept _
    have hslept₁ : delays (acts s₁ ++ [.slept (30 * 2 ^ done)]) = ladderPrefix (done + 1) := by
      rw [h₁, delays_slept, hslept, ladderPrefix_succ]
    have hfailed : ∀ e (t : RState (Ledger W)), Stops (acts s₁ ++ [.slept (30 * 2 ^ done)]) e (acts t) →
        Ends (acts t) e ∧ Budgeted retries (acts t) (done + 1) :=
      fun e t ht => ⟨ht.ends hopen₁, by omega, done + 1, hdone, ht.delays_eq.trans hslept₁⟩
    rw [wp_bind, wp_ofExcept_ok, wp_bind, wp_first]
    refine wp_mono sleep_spec (fun _ s₂ h₂ => ?_) hfailed
    rw [wp_bind, wp_first]
    refine wp_mono checkCancelled_spec (fun _ s₃ h₃ => ?_) (fun e s₃ h₃ => ?_)
    · have hlog : acts s₃ = acts s₁ ++ [.slept (30 * 2 ^ done)] := h₃.trans h₂
      refine hrest s₃ ?_ ?_
      · rw [hlog]
        exact hopen₁
      · rw [hlog]
        exact hslept₁
    · rw [h₂] at h₃
      exact hfailed e s₃ h₃
  · exact ⟨h₁.ends hopen, by omega, done, by omega, h₁.delays_eq.trans hslept⟩

/-- By induction on the retries that are left, after `done` attempts and as many delays. -/
theorem recoveryLoop_spec (extra : Nat) {done retries : Nat}
    (h : req.maxRetries.toNat = done + retries) {s : RState (Ledger W)} (hopen : Open (acts s))
    (hslept : delays (acts s) = ladderPrefix done) :
    wp (recoveryLoop stages.recorded req (retries + 1 + extra))
      (fun r t => r ≠ none ∧ Open (acts t.1) ∧ Budgeted req.maxRetries.toNat (acts t.1) t.2)
      (fun e t => Ends (acts t.1) e ∧ Budgeted req.maxRetries.toNat (acts t.1) t.2) (s, done) := by
  induction retries generalizing done s with
  | zero =>
    have hover : ((done + 1 : Nat) : Int) > req.maxRetries := by omega
    rw [Nat.add_right_comm, recoveryLoop, wp_bind]
    show wp (asks Prod.snd >>= _) _ _ (s, done + 1)
    rw [wp_bind]
    show wp (first (round stages.recorded req) >>= _) _ _ (s, done + 1)
    rw [wp_bind, wp_first]
    refine wp_mono round_spec (fun ended t ht => ?_) (fun e t ht => ?_)
    · have hbudget : Budgeted req.maxRetries.toNat (acts t) (done + 1) :=
        ⟨by omega, done, by omega, ht.delays_eq.trans hslept⟩
      cases ended with
      | true => exact ⟨nofun, hopen.goes ht, hbudget⟩
      | false =>
        rw [if_neg Bool.false_ne_true, if_pos hover]
        exact ⟨nofun, hopen.goes ht, hbudget⟩
    · exact ⟨ht.ends hopen, by omega, done, by omega, ht.delays_eq.trans hslept⟩
  | succ retries ih =>
    have hwithin : ¬ ((done + 1 : Nat) : Int) > req.maxRetries := by omega
    have hdelay : delayAt (backoffLadder req.maxRetries) (done + 1 - 1) = .ok (30 * 2 ^ done) :=
      delayAt_backoffLadder (by omega)
    rw [Nat.add_right_comm, recoveryLoop, wp_bind]
    show wp (asks Prod.snd >>= _) _ _ (s, done + 1)
    rw [wp_bind]
    show wp (first (round stages.recorded req) >>= _) _ _ (s, done + 1)
    rw [wp_bind, wp_first]
    refine wp_mono round_spec (fun ended t ht => ?_) (fun e t ht => ?_)
    · have hslept' : delays (acts t) = ladderPrefix done := ht.delays_eq.trans hslept
      cases ended with
      | true =>
        exact ⟨nofun, hopen.goes ht, by omega, done, by omega, hslept'⟩
      | false =>
        rw [if_neg Bool.false_ne_true, if_neg hwithin, hdelay]
        exact wait_spec (by omega) (hopen.goes ht) hslept' fun u hu hslept'' =>
          ih (by omega) hu hslept''
    · exact ⟨ht.ends hopen, by omega, done, by omega, ht.delays_eq.trans hslept⟩

end Loops

/-- The loop of `run_with_recovery`, for any stages, any sleep and any cancel flag: it ends
within the fuel, after at most one attempt more than there are retries; the delays are the
first ones of the ladder; and nothing is called after the entry that ends the loop, which is
a cancel flag that was found set, a stage's error that is not worth a retry, or the failure
of another call.  No error comes from the ladder. -/
theorem recovery_stays_in_budget (stages : Stages W) (req : Request) (extra : Nat) (w : W) :
    let retries := req.maxRetries.toNat
    let out := recoveryLoop stages.recorded req (retries + 1 + extra) (RState.initial req (w, []), 0)
    let log := acts out.2.1
    out.1 ≠ .ok none ∧ out.2.2 ≤ retries + 1 ∧
      (∃ k ≤ retries, delays log = ladderPrefix k) ∧
      (∀ before a after, log = before ++ a :: after → a.Final →
        after = [] ∧ ∃ e, out.1 = .error e ∧ a.Explains e) ∧
      ∀ e, out.1 = .error e → ∃ before a, log = before ++ [a] ∧ a.Explains e := by
  intro retries out log
  have hspec : wp (recoveryLoop stages.recorded req (retries + 1 + extra)) _ _
      (RState.initial req (w, []), 0) :=
    recoveryLoop_spec extra (Nat.zero_add _).symm (fun _ h => absurd h List.not_mem_nil) rfl
  rcases wp_elim hspec with ⟨r, hr, hsome, hopen, hbudget⟩ | ⟨e, he, hends, hbudget⟩
  · refine ⟨fun hnone => ?_, hbudget.attempts, hbudget.slept, fun before a after hlog hfinal => ?_,
      fun e he => ?_⟩
    · rw [show out.1 = _ from hr] at hnone
      exact hsome (Except.ok.inj hnone)
    · refine absurd hfinal (hopen a ?_)
      rw [show acts _ = _ from hlog]
      exact List.mem_append_right _ List.mem_cons_self
    · rw [show out.1 = _ from hr] at he
      cases he
  · obtain ⟨front, last, hlast, hopen, hexplains⟩ := hends
    refine ⟨fun hnone => ?_, hbudget.attempts, hbudget.slept, fun before a after hlog hfinal => ?_,
      fun e' he' => ?_⟩
    · rw [show out.1 = _ from he] at hnone
      cases hnone
    · rw [show log = _ from hlast] at hlog
      rcases snoc_eq_append_cons.mp hlog with ⟨hafter, _, hsame⟩ | ⟨post, _, hfront⟩
      · exact ⟨hafter, e, he, hsame ▸ hexplains⟩
      · refine absurd hfinal (hopen a ?_)
        rw [hfront]
        exact List.mem_append_right _ List.mem_cons_self
    · rw [show out.1 = _ from he] at he'
      rw [← Except.error.inj he']
      exact ⟨front, last, hlast, hexplains⟩

end Import
end Eds
