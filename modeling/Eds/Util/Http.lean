import Eds.Import.Recovery

/-!
# Requests that are sent again

`HttpRetry.do` sends a request until the outcome is one that is not retried.  Five statuses are
retried without a bound, a connection that is refused or reset as long as the time for it is not up,
and nothing else.

`retried_until_final` says what every run does: rounds that end in a pause, and then one outcome.
-/

namespace Eds
namespace Util
namespace Http

open Effects Effects.Prog Effects.Traced

variable {W R : Type}

/-- What happens in a run. -/
inductive Obs (R : Type) where
  | sent (outcome : Except Exn R)
  | closed
  | clock (now : Rat)
  | slept (ms : Nat)
  | broke (e : Exn)

/-- What the class is given. -/
structure HttpRetry (W R : Type) where
  send : Prog Exn W R
  statusCode : R → Option Int
  close : R → Prog Exn W Unit
  now : Prog Exn W Rat
  random : Prog Exn W Nat
  sleep : Nat → Prog Exn W Unit
  timeout : Rat

/-- The variable is `_attempts`. -/
abbrev HttpProg (W R α : Type) := Prog Exn (Traced Nat W (Obs R)) α

def retryStatus : List Int := [408, 429, 502, 503, 504]

def retryMarkers : List String := ["connection reset", "connection refused"]

def isConnectionError (e : Exn) : Bool :=
  retryMarkers.any fun marker => Import.contains (Import.lower e.str) marker.toList

section

variable (http : HttpRetry W R)

def HttpRetry.retriesStatus (resp : R) : Bool :=
  match http.statusCode resp with
  | some code => retryStatus.contains code
  | none => false

/-- `_should_retry` -/
def shouldRetry (outcome : Except Exn R) (started : Rat) : HttpProg W R Bool :=
  match outcome with
  | .error e =>
    if isConnectionError e then do
      let now ← call .broke http.now
      note (.clock now)
      pure (decide (now < started + http.timeout))
    else pure false
  | .ok resp =>
    if http.retriesStatus resp then do
      call .broke (http.close resp)
      note .closed
      pure true
    else pure false

/-- `try: resp = self._send()`, `except Exception as e: err = e` -/
def sendOnce : HttpProg W R (Except Exn R) := do
  let outcome ← handle (do let resp ← outside http.send; pure (Except.ok resp)) fun e =>
    if e.isException then pure (.error e)
    else do
      note (.broke e)
      raise e
  note (.sent outcome)
  pure outcome

/-- `100 + self._rng.randrange(500 * self._attempts)` milliseconds -/
def pauseAgain : HttpProg W R Unit := do
  let attempts ← read id
  let drawn ← call .broke http.random
  note (.slept (100 + drawn % (500 * attempts)))
  call .broke (http.sleep (100 + drawn % (500 * attempts)))

/-- One round of the loop. -/
def attempt (started : Rat) : HttpProg W R (Option R) := do
  assign (· + 1)
  let outcome ← sendOnce http
  let again ← shouldRetry http outcome started
  if again then do
    pauseAgain http
    pure none
  else match outcome with
    | .ok resp => pure (some resp)
    | .error e => raise e

/-- The loop, for at most so many rounds. -/
def rounds (started : Rat) : Nat → HttpProg W R (Option R)
  | 0 => pure none
  | fuel + 1 => do
    let resp ← attempt http started
    match resp with
    | some resp => pure (some resp)
    | none => rounds started fuel

/-- `HttpRetry.do` -/
def doRequest (fuel : Nat) : HttpProg W R (Option R) := do
  let started ← call .broke http.now
  note (.clock started)
  rounds http started fuel

/-! ## What a round does -/

def Jitter (attempts ms : Nat) : Prop := 100 ≤ ms ∧ ms < 100 + 500 * attempts

/-- A round after which the request is sent again. -/
inductive Again (started : Rat) (attempts : Nat) : List (Obs R) → Prop where
  | status {resp : R} {ms : Nat} (hstatus : http.retriesStatus resp = true)
      (hms : Jitter attempts ms) : Again started attempts [.sent (.ok resp), .closed, .slept ms]
  | connection {e : Exn} {now : Rat} {ms : Nat} (hconn : isConnectionError e = true)
      (hnow : now < started + http.timeout) (hms : Jitter attempts ms) :
      Again started attempts [.sent (.error e), .clock now, .slept ms]

/-- Rounds that follow `attempts` others. -/
inductive AgainEach (started : Rat) : Nat → List (List (Obs R)) → Prop where
  | nil {attempts : Nat} : AgainEach started attempts []
  | cons {attempts : Nat} {round : List (Obs R)} {rest : List (List (Obs R))}
      (hround : Again http started (attempts + 1) round) (hrest : AgainEach started (attempts + 1) rest) :
      AgainEach started attempts (round :: rest)

/-- How the last round ends with a response. -/
def Answers (resp : R) (last : List (Obs R)) : Prop :=
  last = [.sent (.ok resp)] ∧ http.retriesStatus resp = false

/-- How the last round ends with an exception: with one that is not retried, with one whose time is
up, or with what a call other than the request raised. -/
def Fails (started : Rat) (e : Exn) (last : List (Obs R)) : Prop :=
  (last = [.sent (.error e)] ∧ e.isException = true ∧ isConnectionError e = false) ∨
    (∃ now, last = [.sent (.error e), .clock now] ∧ isConnectionError e = true ∧
      started + http.timeout ≤ now) ∨
    ∃ front, last = front ++ [.broke e]

end

section Rounds

variable {http : HttpRetry W R} {started : Rat} {s : Traced Nat W (Obs R)}

theorem wp_sendOnce :
    wp (sendOnce http)
      (fun outcome t => t.vars = s.vars ∧ t.trace = s.trace ++ [.sent outcome] ∧
        ∀ e, outcome = .error e → e.isException = true)
      (fun e t => t.trace = s.trace ++ [.broke e]) s := by
  rw [sendOnce, wp_bind, wp_handle, wp_bind]
  refine wp_outside (fun resp w _ => ?_) (fun e w _ => ?_)
  · rw [wp_pure, wp_bind, wp_note, wp_pure]
    exact ⟨rfl, rfl, fun e he => by cases he⟩
  · cases he : e.isException with
    | false =>
      rw [if_neg (by decide), wp_bind, wp_note, wp_raise]
      rfl
    | true =>
      rw [if_pos rfl, wp_pure, wp_bind, wp_note, wp_pure]
      refine ⟨rfl, rfl, fun e' he' => ?_⟩
      cases he'
      exact he

theorem wp_pauseAgain (hpos : 0 < s.vars) :
    wp (pauseAgain http)
      (fun _ t => t.vars = s.vars ∧ ∃ ms, Jitter s.vars ms ∧ t.trace = s.trace ++ [.slept ms])
      (fun e t => ∃ front, t.trace = s.trace ++ (front ++ [.broke e])) s := by
  rw [pauseAgain, wp_bind, wp_read, wp_bind]
  refine wp_call (fun drawn w _ => ?_) (fun e w _ => ⟨[], rfl⟩)
  have hms : Jitter s.vars (100 + drawn % (500 * s.vars)) :=
    ⟨Nat.le_add_right _ _, Nat.add_lt_add_left (Nat.mod_lt _ (by omega)) 100⟩
  rw [wp_bind, wp_note]
  refine wp_call (fun _ w' _ => ⟨rfl, _, hms, rfl⟩)
    (fun e w' _ => ⟨[.slept (100 + drawn % (500 * s.vars))], ?_⟩)
  exact List.append_assoc _ _ _

theorem wp_attempt :
    wp (attempt http started)
      (fun found t => ∃ round, t.trace = s.trace ++ round ∧ t.vars = s.vars + 1 ∧
        match found with
        | some resp => Answers http resp round
        | none => Again http started (s.vars + 1) round)
      (fun e t => ∃ last, t.trace = s.trace ++ last ∧ Fails http started e last) s := by
  have hpause : ∀ (t : Traced Nat W (Obs R)) (front : List (Obs R)), t.vars = s.vars + 1 →
      t.trace = s.trace ++ front →
      (∀ ms, Jitter (s.vars + 1) ms → Again http started (s.vars + 1) (front ++ [.slept ms])) →
      wp (do pauseAgain http; pure none)
        (fun found t => ∃ round, t.trace = s.trace ++ round ∧ t.vars = s.vars + 1 ∧
          match found with
          | some resp => Answers http resp round
          | none => Again http started (s.vars + 1) round)
        (fun e t => ∃ last, t.trace = s.trace ++ last ∧ Fails http started e last) t := by
    intro t front hvars htrace hagain
    rw [wp_bind]
    have hpause := @wp_pauseAgain _ _ http t (hvars ▸ Nat.succ_pos _)
    refine wp_mono hpause (fun _ u hu => ?_) fun e u hu => ?_
    · obtain ⟨hu, ms, hms, hutrace⟩ := hu
      refine ⟨front ++ [.slept ms], ?_, hu.trans hvars, hagain ms (hvars ▸ hms)⟩
      rw [hutrace, htrace, List.append_assoc]
    · obtain ⟨front', hutrace⟩ := hu
      refine ⟨front ++ (front' ++ [.broke e]), ?_, .inr (.inr ⟨front ++ front', ?_⟩)⟩
      · rw [hutrace, htrace, List.append_assoc]
      · rw [List.append_assoc]
  rw [attempt, wp_bind, wp_assign, wp_bind]
  refine wp_mono wp_sendOnce (fun outcome t ht => ?_) (fun e t ht => ⟨_, ht, .inr (.inr ⟨[], rfl⟩)⟩)
  obtain ⟨hvars, htrace, hexn⟩ := ht
  rw [setVars_vars] at hvars
  rw [setVars_trace] at htrace
  rw [wp_bind]
  cases outcome with
  | error e =>
    rw [shouldRetry]
    cases hconn : isConnectionError e with
    | false =>
      rw [if_neg (by decide), wp_pure, if_neg (by decide), wp_raise]
      exact ⟨_, htrace, .inl ⟨rfl, hexn e rfl, hconn⟩⟩
    | true =>
      rw [if_pos rfl, wp_bind]
      refine wp_call (fun now w _ => ?_) (fun e' w _ => ⟨[.sent (.error e), .broke e'], ?_, .inr (.inr ?_)⟩)
      · rw [wp_bind, wp_note, wp_pure]
        have hclock : ((t.inWorld w).push (.clock now)).trace =
            s.trace ++ [.sent (.error e), .clock now] := by simp [htrace]
        by_cases hnow : now < started + http.timeout
        · rw [if_pos (decide_eq_true hnow)]
          exact hpause _ _ hvars hclock fun ms hms => .connection hconn hnow hms
        · rw [if_neg (by simpa using hnow), wp_raise]
          exact ⟨_, hclock, .inr (.inl ⟨now, rfl, hconn, not_lt.mp hnow⟩)⟩
      · simp [htrace]
      · exact ⟨[.sent (.error e)], rfl⟩
  | ok resp =>
    rw [shouldRetry]
    cases hstatus : http.retriesStatus resp with
    | false =>
      rw [if_neg (by decide), wp_pure, if_neg (by decide), wp_pure]
      exact ⟨_, htrace, hvars, rfl, hstatus⟩
    | true =>
      rw [if_pos rfl, wp_bind]
      refine wp_call (fun _ w _ => ?_) (fun e' w _ => ⟨[.sent (.ok resp), .broke e'], ?_, .inr (.inr ?_)⟩)
      · rw [wp_bind, wp_note, wp_pure, if_pos rfl]
        refine hpause _ [.sent (.ok resp), .closed] hvars ?_ fun ms hms => .status hstatus hms
        simp [htrace]
      · simp [htrace]
      · exact ⟨[.sent (.ok resp)], rfl⟩

/-- A run of the loop, by induction on the rounds it may still take. -/
theorem wp_rounds (fuel : Nat) :
    ∀ s : Traced Nat W (Obs R), wp (rounds http started fuel)
      (fun found t => ∃ again last, t.trace = s.trace ++ again.flatten ++ last ∧
        AgainEach http started s.vars again ∧
        match found with
        | some resp => Answers http resp last
        | none => last = [] ∧ again.length = fuel)
      (fun e t => ∃ again last, t.trace = s.trace ++ again.flatten ++ last ∧
        AgainEach http started s.vars again ∧ Fails http started e last) s := by
  induction fuel with
  | zero =>
    intro s
    exact ⟨[], [], by simp, .nil, rfl, rfl⟩
  | succ fuel ih =>
    intro s
    rw [rounds, wp_bind]
    refine wp_mono wp_attempt (fun found t ht => ?_) (fun e t ht => ?_)
    · obtain ⟨round, htrace, hvars, hround⟩ := ht
      cases found with
      | some resp => exact ⟨[], round, by simpa using htrace, .nil, hround⟩
      | none =>
        refine wp_mono (ih t) (fun found u hu => ?_) (fun e u hu => ?_)
        · obtain ⟨again, last, hutrace, hagain, hfound⟩ := hu
          refine ⟨round :: again, last, ?_, .cons hround (hvars ▸ hagain), ?_⟩
          · rw [hutrace, htrace, List.flatten_cons, List.append_assoc s.trace]
          · cases found with
            | some resp => exact hfound
            | none => exact ⟨hfound.1, by rw [List.length_cons, hfound.2]⟩
        · obtain ⟨again, last, hutrace, hagain, hfails⟩ := hu
          refine ⟨round :: again, last, ?_, .cons hround (hvars ▸ hagain), hfails⟩
          rw [hutrace, htrace, List.flatten_cons, List.append_assoc s.trace]
    · obtain ⟨last, htrace, hfails⟩ := ht
      exact ⟨[], last, by simpa using htrace, .nil, hfails⟩

/-- A loop that ended does the same when it may take more rounds. -/
theorem rounds_more {t : Traced Nat W (Obs R)} {r : Except Exn (Option R)} (fuel more : Nat)
    (hr : r ≠ .ok none) :
    ∀ s, rounds http started fuel s = (r, t) → rounds http started (fuel + more) s = (r, t) := by
  induction fuel with
  | zero =>
    intro s h
    cases h
    exact absurd rfl hr
  | succ fuel ih =>
    intro s h
    rw [Nat.succ_add, rounds]
    rw [rounds] at h
    rcases hone : attempt http started s with ⟨_ | found, u⟩
    · rw [bind_of_error hone] at h ⊢
      exact h
    · rw [bind_of_ok hone] at h ⊢
      cases found with
      | some resp => exact h
      | none => exact ih u h

end Rounds

/-- Every run is rounds that are retried, each for its reason and with its pause, and then one
outcome that is not: a response with a status that is retried is never returned, and a run that is
not over after `fuel` rounds has sent the request again in each of them. -/
theorem retried_until_final (http : HttpRetry W R) (fuel : Nat) (w : W) :
    let run := doRequest http fuel ⟨0, w, []⟩
    (∀ found, run.1 = .ok found → ∃ started again last,
      run.2.trace = .clock started :: (again.flatten ++ last) ∧ AgainEach http started 0 again ∧
        match found with
        | some resp => Answers http resp last
        | none => last = [] ∧ again.length = fuel) ∧
    (∀ e, run.1 = .error e → run.2.trace = [.broke e] ∨ ∃ started again last,
      run.2.trace = .clock started :: (again.flatten ++ last) ∧ AgainEach http started 0 again ∧
        Fails http started e last) ∧
    ∀ more, run.1 ≠ .ok none → doRequest http (fuel + more) ⟨0, w, []⟩ = run := by
  intro run
  have hspec : wp (doRequest http fuel)
      (fun found t => ∃ started again last,
        t.trace = .clock started :: (again.flatten ++ last) ∧ AgainEach http started 0 again ∧
          match found with
          | some resp => Answers http resp last
          | none => last = [] ∧ again.length = fuel)
      (fun e t => t.trace = [.broke e] ∨ ∃ started again last,
        t.trace = .clock started :: (again.flatten ++ last) ∧ AgainEach http started 0 again ∧
          Fails http started e last) ⟨0, w, []⟩ := by
    rw [doRequest, wp_bind]
    refine wp_call (fun started w' _ => ?_) (fun e w' _ => .inl rfl)
    rw [wp_bind, wp_note]
    refine wp_mono (wp_rounds fuel _) (fun found t ht => ?_) (fun e t ht => ?_)
    · obtain ⟨again, last, htrace, hrest⟩ := ht
      exact ⟨started, again, last, by simpa using htrace, hrest⟩
    · obtain ⟨again, last, htrace, hrest⟩ := ht
      exact .inr ⟨started, again, last, by simpa using htrace, hrest⟩
  refine ⟨fun found h => wp_ok hspec (Prod.ext h rfl), fun e h => wp_error hspec (Prod.ext h rfl),
    fun more h => ?_⟩
  rcases hnow : (call .broke http.now : HttpProg W R Rat) ⟨0, w, []⟩ with ⟨_ | started, t⟩
  · exact (bind_of_error hnow).trans (bind_of_error hnow).symm
  · have hrun : ∀ n, doRequest http n ⟨0, w, []⟩ = rounds http started n (t.push (.clock started)) := by
      intro n
      rw [doRequest, bind_of_ok hnow]
      rfl
    rw [hrun]
    refine (rounds_more fuel more h _ ?_).trans rfl
    exact (hrun fuel).symm

end Http
end Util
end Eds
