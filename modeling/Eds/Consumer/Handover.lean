import Eds.Consumer.Pending
import Eds.Consumer.Steady
import Eds.Consumer.Transactions
import Eds.Collections.Resumed

/-!
# What a session leaves in the database

`Mirrors` is the processor over a SQL driver and a database: the statements of the messages
`done` have been run, in order, and those of the messages `live` are in the driver's buffer.
While the processor works `done` is what it has acknowledged.  A flush that raises, or whose
acknowledgements do, leaves more done than acknowledged, never less (`Ahead`).
-/

namespace Eds
namespace Consumer

open Effects Effects.Prog Effects.Traced Drivers Drivers.SqlDriverBase Collections

variable {D M W S T : Type}

/-! ## The processor over the database -/

def Obs.acked : Obs M → Option M
  | .ack m => some m
  | .took _ | .skipped _ | .processed _ _ _ | .flushed | .nak _ | .raised _ _ => none

def acked (t : List (Obs M)) : List M := t.filterMap Obs.acked

@[simp] theorem acked_append (t t' : List (Obs M)) : acked (t ++ t') = acked t ++ acked t' :=
  List.filterMap_append

/-- The statement of the event of a message, if it has both. -/
def statement (event : M → Option DBChangeEvent) (build : DBChangeEvent → Except Exn S) (m : M) :
    Option S :=
  (event m).bind fun evt => (build evt).toOption

theorem statement_eq_some {event : M → Option DBChangeEvent} {build : DBChangeEvent → Except Exn S}
    {m : M} {s : S} (h : statement event build m = some s) :
    ∃ evt, event m = some evt ∧ build evt = .ok s := by
  obtain ⟨evt, hevent, hbuild⟩ := Option.bind_eq_some_iff.mp h
  refine ⟨evt, hevent, ?_⟩
  cases hb : build evt with
  | error e => rw [hb] at hbuild; cases hbuild
  | ok s' => rw [hb] at hbuild; cases hbuild; rfl

/-- The table of the database, what it was at first, and what a message does to it. -/
structure Ledger (D M S T : Type) where
  table : D → T
  start : T
  carries : M → Option S
  render : S → String
  exec : T → S → T

namespace Ledger

variable (l : Ledger D M S T)

/-- The acknowledged messages that carry a statement. -/
def paid (s : SqlState D M) : List M := carrying l.carries (acked s.trace)

def after (done : List M) : T := (done.filterMap l.carries).foldl l.exec l.start

/-- `done` has been run and `live` is in the driver's buffer. -/
structure Mirrors (s : SqlState D M) (done live : List M) : Prop where
  mode : s.world.vars.mode = .upsert
  count : s.world.vars.count = live.length
  pending : s.world.vars.pending = (live.filterMap l.carries).map l.render
  table : l.table s.world.world = l.after done
  handed : (handed s.trace).map Handed.msg = done ++ live
  carry : ∀ m ∈ done ++ live, (l.carries m).isSome = true

/-- What was acknowledged is the beginning of what has been run, and that of what was handed
to the driver. -/
def Ahead (s : SqlState D M) : Prop :=
  ∃ done, l.paid s <+: done ∧ done <+: (handed s.trace).map Handed.msg ∧
    (∀ m ∈ (handed s.trace).map Handed.msg, (l.carries m).isSome = true) ∧
    l.table s.world.world = l.after done

def Backs (s : SqlState D M) : Phase M → Prop
  | .idle => s.vars.pending.Sublist (tooks s.trace) ∧ l.Mirrors s (l.paid s) s.vars.pending
  | .taken m => (s.vars.pending ++ [m]).Sublist (tooks s.trace) ∧
      l.Mirrors s (l.paid s) s.vars.pending
  | .held m _ | .checked m _ => s.vars.pending.Sublist (tooks s.trace) ∧
      ∃ old, s.vars.pending = old ++ [m] ∧ l.Mirrors s (l.paid s) old
  | .skipping m => l.carries m = none ∧ s.vars.pending.Sublist (tooks s.trace) ∧
      ∃ old, s.vars.pending = old ++ [m] ∧ l.Mirrors s (l.paid s) old
  | .acking rest => l.Mirrors s (l.paid s ++ rest) []
  | .nacking _ none => False
  | .nacking _ (some _) => l.Ahead s
  | .raised _ => l.Ahead s

variable {l}

/-- The observations `t` were added, and neither the driver nor the table has changed. -/
structure Grown (l : Ledger D M S T) (s s' : SqlState D M) (t : List (Obs M)) : Prop where
  world : Still l.table s.world s'.world
  trace : s'.trace = s.trace ++ t
  handed : handed t = []
  paid : carrying l.carries (acked t) = []

section Growth

variable {s s' : SqlState D M} {t : List (Obs M)} {done live : List M}

theorem Grown.paid_eq (hg : l.Grown s s' t) : l.paid s' = l.paid s := by
  rw [Ledger.paid, hg.trace, acked_append, carrying, List.filter_append]
  exact (congrArg _ hg.paid).trans (List.append_nil _)

theorem Grown.handed_eq (hg : l.Grown s s' t) : Consumer.handed s'.trace = Consumer.handed s.trace := by
  rw [hg.trace, handed_append, hg.handed, List.append_nil]

theorem Mirrors.grow (h : l.Mirrors s done live) (hg : l.Grown s s' t) : l.Mirrors s' done live where
  mode := by rw [hg.world.1, h.mode]
  count := by rw [hg.world.1, h.count]
  pending := by rw [hg.world.1, h.pending]
  table := hg.world.2.trans h.table
  handed := by rw [hg.handed_eq, h.handed]
  carry := h.carry

theorem Ahead.grow (h : l.Ahead s) (hg : l.Grown s s' t) : l.Ahead s' := by
  obtain ⟨done, hpaid, hhanded, hcarry, htable⟩ := h
  rw [Ahead, hg.paid_eq, hg.handed_eq]
  exact ⟨done, hpaid, hhanded, hcarry, hg.world.2.trans htable⟩

theorem Mirrors.ahead (h : l.Mirrors s done live) (hpaid : l.paid s <+: done) : l.Ahead s :=
  ⟨done, hpaid, by rw [h.handed]; exact List.prefix_append _ _, by rw [h.handed]; exact h.carry,
    h.table⟩

end Growth

/-! ## What the processor's steps do to it -/

section Moves

variable {s : SqlState D M} {w : SqlWorld D} {done live rest : List M} {m : M}

theorem Mirrors.process (h : l.Mirrors s done live) {st : S} {seq : Int} {evt : DBChangeEvent}
    (hm : l.carries m = some st) (hvars : w.vars = buffer (l.render st) s.world.vars)
    (htable : l.table w.world = l.table s.world.world) :
    l.Mirrors ((s.inWorld w).push (.processed m seq evt)) done (live ++ [m]) where
  mode := by rw [push_world, inWorld_world, hvars]; exact h.mode
  count := by
    rw [push_world, inWorld_world, hvars, List.length_append]
    exact congrArg (· + 1) h.count
  pending := by
    rw [push_world, inWorld_world, hvars]
    show s.world.vars.pending ++ [l.render st] = _
    rw [h.pending, List.filterMap_append, List.map_append]
    simp [hm]
  table := htable.trans h.table
  handed := by
    rw [push_trace, inWorld_trace, handed_append, List.map_append, h.handed, List.append_assoc]
    rfl
  carry := by
    intro x hx
    rw [← List.append_assoc] at hx
    rcases List.mem_append.mp hx with hx | hx
    · exact h.carry x hx
    · rw [List.mem_singleton.mp hx, hm]
      rfl

theorem after_append (done live : List M) :
    l.after (done ++ live) = (live.filterMap l.carries).foldl l.exec (l.after done) := by
  rw [after, List.filterMap_append, List.foldl_append]
  rfl

theorem Mirrors.flush (h : l.Mirrors s done live) (hvars : w.vars = reset s.world.vars)
    (htable : l.table w.world = (live.filterMap l.carries).foldl l.exec (l.table s.world.world)) :
    l.Mirrors ((s.inWorld w).push .flushed) (done ++ live) [] where
  mode := by rw [push_world, inWorld_world, hvars]; exact h.mode
  count := by rw [push_world, inWorld_world, hvars]; rfl
  pending := by rw [push_world, inWorld_world, hvars]; rfl
  table := by rw [push_world, inWorld_world, htable, h.table, after_append]
  handed := by
    rw [push_trace, inWorld_trace, handed_append, List.map_append, h.handed]
    rfl
  carry := by rw [List.append_nil]; exact h.carry

theorem paid_push {o : Obs M} (ho : carrying l.carries o.acked.toList = []) :
    l.paid (s.push o) = l.paid s := by
  rw [paid, push_trace, acked_append, carrying, List.filter_append]
  have hlast : (acked [o]).filter (fun m => (l.carries m).isSome) = [] := by
    cases o <;> exact ho
  rw [hlast, List.append_nil]
  rfl

theorem paid_ack (hm : (l.carries m).isSome = true) :
    l.paid ((s.push (.ack m)).inWorld w) = l.paid s ++ [m] := by
  rw [paid, inWorld_trace, push_trace, acked_append, carrying, List.filter_append]
  refine congrArg _ (List.filter_eq_self.mpr fun x hx => ?_)
  obtain rfl : x = m := List.mem_singleton.mp hx
  exact hm

/-- A flush that raised ran all of the buffer or nothing. -/
theorem Mirrors.flushRaised (h : l.Mirrors s (l.paid s) live) {c : Call M} {e : Exn}
    (htable : l.table w.world = l.table s.world.world ∨
      l.table w.world = (live.filterMap l.carries).foldl l.exec (l.table s.world.world)) :
    l.Ahead ((s.inWorld w).push (.raised c e)) := by
  have hhanded : Consumer.handed ((s.inWorld w).push (.raised c e)).trace =
      Consumer.handed s.trace := by
    rw [push_trace, handed_append]
    exact List.append_nil _
  have hpaid : l.paid ((s.inWorld w).push (.raised c e)) = l.paid s := paid_push (s := s.inWorld w) rfl
  rw [Ahead, hpaid, hhanded, h.handed, push_world, inWorld_world]
  rcases htable with htable | htable
  · exact ⟨l.paid s, List.prefix_rfl, List.prefix_append _ _, h.carry, htable.trans h.table⟩
  · exact ⟨l.paid s ++ live, List.prefix_append _ _, List.prefix_rfl, h.carry,
      by rw [htable, h.table, after_append]⟩

theorem Mirrors.ack (h : l.Mirrors s (l.paid s ++ m :: rest) []) (hw : Still l.table s.world w) :
    l.Mirrors ((s.push (.ack m)).inWorld w) (l.paid ((s.push (.ack m)).inWorld w) ++ rest) [] := by
  have hm : (l.carries m).isSome = true := h.carry m (by simp)
  have hdone : l.paid ((s.push (.ack m)).inWorld w) ++ rest = l.paid s ++ m :: rest := by
    rw [paid_ack hm, List.append_assoc]
    rfl
  rw [hdone]
  exact {
    mode := by rw [inWorld_world, hw.1, h.mode]
    count := by rw [inWorld_world, hw.1, h.count]
    pending := by rw [inWorld_world, hw.1, h.pending]
    table := hw.2.trans h.table
    handed := by
      rw [inWorld_trace, push_trace, handed_append, List.map_append, h.handed]
      exact List.append_nil _
    carry := h.carry }

end Moves

section Steps

variable {cfg : Config} {hooks : SqlHooks D} {rest : Env D M} {event : M → Option DBChangeEvent}
  {build : DBChangeEvent → Except Exn S}

/-- The surroundings of a session: the database behind the driver, and calls that leave its
table alone. -/
structure Serves (l : Ledger D M S T) (hooks : SqlHooks D) (rest : Env D M)
    (event : M → Option DBChangeEvent) (build : DBChangeEvent → Except Exn S) : Prop where
  database : Transacts hooks l.table build l.render l.exec fun evt => ∃ m, event m = some evt
  apart : rest.Spares (Untouched l.table)
  carries : l.carries = statement event build

theorem Serves.spares (h : l.Serves hooks rest event build) :
    (sqlEnv hooks rest).Spares (Still l.table) where
  calls := {
    refl := Still.refl
    trans := Still.trans
    metadata := fun m => still_outside (h.apart.calls.metadata m)
    ack := fun m => still_outside (h.apart.calls.ack m)
    nak := fun m => still_outside (h.apart.calls.nak m)
    fromMessage := fun m seq => still_outside (h.apart.calls.fromMessage m seq)
    flush := within_pure Still.refl ()
    validate := fun evt => still_outside (h.apart.calls.validate evt)
    clock := fun w => ⟨rfl, h.apart.calls.clock w.world⟩ }
  migrateNewTable schema := still_outside (h.apart.migrateNewTable schema)
  migrateNewColumns schema columns := still_outside (h.apart.migrateNewColumns schema columns)
  getTableVersion name := still_outside (h.apart.getTableVersion name)
  getSchema name version := still_outside (h.apart.getSchema name version)
  setTableVersion name version := still_outside (h.apart.setTableVersion name version)

theorem Serves.still (h : l.Serves hooks rest event build) {w w' : SqlWorld D}
    (ha : Aside cfg (sqlEnv hooks rest) w w') : Still l.table w w' := ha.spares h.spares

theorem length_filterMap_carry {live : List M} (h : ∀ m ∈ live, (l.carries m).isSome = true) :
    (live.filterMap l.carries).length = live.length := by
  induction live with
  | nil => rfl
  | cons m rest ih =>
    obtain ⟨st, hst⟩ := Option.isSome_iff_exists.mp (h m List.mem_cons_self)
    rw [List.filterMap_cons_some hst, List.length_cons, List.length_cons,
      ih fun m hm => h m (List.mem_cons_of_mem _ hm)]

theorem Serves.flush (h : l.Serves hooks rest event build) {s : SqlState D M} {done live : List M}
    (hs : l.Mirrors s done live) :
    wp (SqlDriverBase.flush hooks)
      (fun _ w' => w'.vars = reset s.world.vars ∧ l.table w'.world =
        (live.filterMap l.carries).foldl l.exec (l.table s.world.world))
      (fun _ w' => w'.vars = s.world.vars ∧ (l.table w'.world = l.table s.world.world ∨
        l.table w'.world = (live.filterMap l.carries).foldl l.exec (l.table s.world.world)))
      s.world := by
  refine flush_runs h.database (fun st hst => ?_) hs.pending ?_
  · obtain ⟨m, _, hm⟩ := List.mem_filterMap.mp hst
    rw [h.carries, statement] at hm
    obtain ⟨evt, hevent, hbuild⟩ := Option.bind_eq_some_iff.mp hm
    refine ⟨evt, ⟨m, hevent⟩, ?_⟩
    cases hb : build evt with
    | error e => rw [hb] at hbuild; cases hbuild
    | ok st' => rw [hb] at hbuild; cases hbuild; rfl
  · rw [hs.count, length_filterMap_carry fun m hm => hs.carry m (List.mem_append_right _ hm)]

theorem Mirrors.raised {s : SqlState D M} {w : SqlWorld D} {live : List M} {c : Call M} {e : Exn}
    (h : l.Mirrors s (l.paid s) live) (hw : Still l.table s.world w) :
    l.Ahead ((s.inWorld w).push (.raised c e)) :=
  (h.ahead List.prefix_rfl).grow (t := [.raised c e]) ⟨hw, rfl, rfl, rfl⟩

/-- Within a phase nothing grows but the world. -/
theorem Backs.inWorld {s : SqlState D M} {w : SqlWorld D} {ph : Phase M} (h : l.Backs s ph)
    (hw : Still l.table s.world w) : l.Backs (s.inWorld w) ph := by
  have hg : l.Grown s (s.inWorld w) [] := ⟨hw, (List.append_nil _).symm, rfl, rfl⟩
  have hmirrors : ∀ {live : List M}, l.Mirrors s (l.paid s) live →
      l.Mirrors (s.inWorld w) (l.paid (s.inWorld w)) live := fun hm => hm.grow hg
  cases ph with
  | idle => exact ⟨h.1, hmirrors h.2⟩
  | taken m => exact ⟨h.1, hmirrors h.2⟩
  | held m seq => exact ⟨h.1, h.2.imp fun _ hold => ⟨hold.1, hmirrors hold.2⟩⟩
  | checked m seq => exact ⟨h.1, h.2.imp fun _ hold => ⟨hold.1, hmirrors hold.2⟩⟩
  | skipping m => exact ⟨h.1, h.2.1, h.2.2.imp fun _ hold => ⟨hold.1, hmirrors hold.2⟩⟩
  | acking rest => exact Mirrors.grow h hg
  | nacking rest next =>
    cases next with
    | none => exact h
    | some e => exact Ahead.grow h hg
  | raised e => exact Ahead.grow h hg

/-- A call that raised outside `Exception`. -/
theorem ahead_crashed (h : l.Serves hooks rest event build) {s : SqlState D M} {ph : Phase M}
    {c : Call M} {e : Exn} {w : SqlWorld D} (hc : AtStake s ph c) (hs : l.Backs s ph)
    (hw : Touched cfg (sqlEnv hooks rest) e s.world w) :
    l.Ahead ((s.inWorld w).push (.raised c e)) := by
  obtain ⟨live, hlive⟩ : ∃ live, l.Mirrors s (l.paid s) live := by
    cases hc with
    | metadata => exact ⟨_, hs.2⟩
    | stage _ => exact ⟨_, hs.2.choose_spec.2⟩
    | process => exact ⟨_, hs.2.choose_spec.2⟩
    | catchUp => exact ⟨_, hs.2⟩
    | flush => exact ⟨_, hs.2⟩
  cases hw with
  | aside ha => exact hlive.raised (h.still ha)
  | process evt hp => exact hlive.raised (wp_error (process_builds h.database hlive.mode) hp)
  | flush hp => exact hlive.flushRaised (wp_error (h.flush hlive) hp).2

variable [DecidableEq M]

theorem backs_micro (h : l.Serves hooks rest event build) {x y : Phase M × SqlState D M}
    (hstep : Micro cfg (sqlEnv hooks rest) x y) (hy : ∀ o ∈ y.2.trace, Consistent event o)
    (hnodup : (tooks x.2.trace).Nodup) (hx : l.Backs x.2 x.1) : l.Backs y.2 y.1 := by
  cases hstep with
  | @metadata m s md w hp =>
    have hw : Still l.table s.world w := (h.spares.calls.metadata m).reply hp
    have htaken : l.Backs (s.inWorld w) (.taken m) := Backs.inWorld hx hw
    exact ⟨htaken.1, s.vars.pending, rfl, htaken.2.grow (t := []) ⟨Still.refl _, by simp, rfl, rfl⟩⟩
  | @metadataRaised m s e w he hp => exact hx.2.raised ((h.spares.calls.metadata m).reply hp)
  | @outOfOrder m seq s err _ =>
    obtain ⟨_, old, _, hold⟩ := hx
    exact hold.raised (w := s.world) (Still.refl _)
  | @inOrder m seq s _ =>
    obtain ⟨hsub, old, hpending, hold⟩ := hx
    exact ⟨hsub, old, hpending, hold.grow (t := []) ⟨Still.refl _, by simp, rfl, rfl⟩⟩
  | aside ha => exact hx.inWorld (h.still ha)
  | stageRaised _ _ ha =>
    obtain ⟨_, old, _, hold⟩ := hx
    exact hold.raised (h.still ha)
  | skipRaised _ ha =>
    obtain ⟨_, old, _, hold⟩ := hx
    exact hold.raised (h.still ha)
  | @skipped m seq s =>
    obtain ⟨hsub, old, hpending, hold⟩ := hx
    have hevent : event m = none := hy (.skipped m) (by simp)
    have hpaid : l.paid (s.push (.skipped m)) = l.paid s := paid_push rfl
    refine ⟨by rw [h.carries, statement, hevent]; rfl, ?_, old, hpending, ?_⟩
    · simpa [Obs.taken] using hsub
    · rw [hpaid]
      exact hold.grow (t := [.skipped m]) ⟨Still.refl _, rfl, rfl, rfl⟩
  | @skipAcked m s r w _ ha =>
    obtain ⟨hcarries, hsub, old, hpending, hold⟩ := hx
    -- The messages are distinct, so that it is the last one that goes.
    have hfresh : m ∉ old := by
      have hold' : (old ++ [m]).Nodup := hpending ▸ hnodup.sublist hsub
      exact fun hm => (List.nodup_append.mp hold').2.2 m hm m (List.mem_singleton_self m) rfl
    have herase : s.vars.pending.erase m = old := by
      rw [show s.vars.pending = old ++ [m] from hpending, List.erase_append_right _ hfresh,
        List.erase_cons_head, List.append_nil]
    have hg : l.Grown s ((((s.push (.ack m)).inWorld w).pushOpt
        (r.map (.raised (.ackSkipped m)))).setVars fun b => { b with pending := b.pending.erase m })
        (.ack m :: (r.map (Obs.raised (.ackSkipped m))).toList) := by
      refine ⟨by simpa using h.still ha, by simp, by simp [Obs.handed], ?_⟩
      cases r <;> simp [acked, Obs.acked, carrying, hcarries]
    refine ⟨?_, ?_⟩
    · have hrest : (tooks ((r.map (Obs.raised (.ackSkipped m))).toList) : List M) = [] := tooks_raised
      simp only [setVars_vars, setVars_trace, pushOpt_vars, pushOpt_trace, inWorld_vars, inWorld_trace,
        push_vars, push_trace, tooks_append, herase, hrest]
      rw [show s.vars.pending = old ++ [m] from hpending] at hsub
      simpa [Obs.taken] using (List.sublist_append_left old [m]).trans hsub
    · show l.Mirrors _ _ (List.erase _ m)
      simp only [pushOpt_vars, inWorld_vars, push_vars, herase]
      rw [hg.paid_eq]
      exact hold.grow hg
  | @skipAckCrashed m s e w _ ha =>
    obtain ⟨hcarries, _, old, _, hold⟩ := hx
    refine (hold.ahead List.prefix_rfl).grow (t := [.ack m, .raised (.ackSkipped m) e])
      ⟨by simpa using h.still ha, by simp, rfl, ?_⟩
    simp [acked, Obs.acked, carrying, hcarries]
  | @processed m seq s evt b w hp =>
    obtain ⟨hsub, old, hpending, hold⟩ := hx
    have hevent : event m = some evt := hy (.processed m seq evt) (by simp)
    obtain ⟨st, hbuild, hvars, htable⟩ := wp_ok (process_builds h.database hold.mode) hp ⟨m, hevent⟩
    have hm : l.carries m = some st := by rw [h.carries, statement, hevent, Option.bind_some, hbuild]; rfl
    have hpaid : l.paid ((s.inWorld w).push (.processed m seq evt)) = l.paid s :=
      paid_push (s := s.inWorld w) rfl
    refine ⟨by simpa [Obs.taken] using hsub, ?_⟩
    show l.Mirrors _ _ s.vars.pending
    rw [hpaid, show s.vars.pending = old ++ [m] from hpending]
    exact hold.process hm hvars htable
  | @processRaised m seq s evt e w _ hp =>
    obtain ⟨_, old, _, hold⟩ := hx
    exact hold.raised (wp_error (process_builds h.database hold.mode) hp)
  | @catchUpRaised m s e w _ ha =>
    have hpaid : l.paid ((s.inWorld w).push (.raised (.catchUp m) e)) = l.paid s :=
      paid_push (s := s.inWorld w) rfl
    refine ⟨by simpa [Obs.taken] using hx.1, ?_⟩
    rw [hpaid]
    exact hx.2.grow (t := [.raised (.catchUp m) e]) ⟨h.still ha, rfl, rfl, rfl⟩
  | @started s t => exact ⟨hx.1, hx.2.grow (t := []) ⟨Still.refl _, by simp, rfl, rfl⟩⟩
  | @flushed s w hp =>
    obtain ⟨hvars, htable⟩ := wp_ok (h.flush hx.2) hp
    have hpaid : l.paid ((s.inWorld w).push .flushed) = l.paid s := paid_push (s := s.inWorld w) rfl
    show l.Mirrors _ _ []
    rw [hpaid]
    exact hx.2.flush hvars htable
  | @flushRaised s e w _ hp => exact hx.2.flushRaised (wp_error (h.flush hx.2) hp).2
  | @acked m rest s w ha => exact Mirrors.ack hx (h.still ha)
  | @ackRaised m rest s e w _ ha =>
    have hack := Mirrors.ack hx (h.still ha)
    exact (hack.ahead (List.prefix_append _ _)).grow (t := [.raised (.ackFlushed m) e])
      ⟨Still.refl _, rfl, rfl, rfl⟩
  | @ackCrashed m rest s e w _ ha =>
    have hack := Mirrors.ack hx (h.still ha)
    exact (hack.ahead (List.prefix_append _ _)).grow (t := [.raised (.ackFlushed m) e])
      ⟨Still.refl _, rfl, rfl, rfl⟩
  | @flushDone s =>
    refine ⟨List.nil_sublist _, ?_⟩
    have hs : l.Mirrors s (l.paid s ++ []) [] := hx
    rw [List.append_nil] at hs
    exact hs.grow (t := []) ⟨Still.refl _, by simp, rfl, rfl⟩
  | @naked m rest next s r w _ ha =>
    cases next with
    | none => exact hx
    | some e =>
      refine Ahead.grow (t := .nak m :: (r.map (Obs.raised (.nak m))).toList) hx
        ⟨by simpa using h.still ha, by simp, by simp [Obs.handed], ?_⟩
      cases r <;> rfl
  | @nakCrashed m rest next s e w _ ha =>
    cases next with
    | none => exact absurd hx id
    | some e' =>
      exact Ahead.grow (t := [.nak m, .raised (.nak m) e]) hx
        ⟨by simpa using h.still ha, by simp, rfl, rfl⟩
  | @nakDone next s =>
    cases next with
    | none => exact absurd hx id
    | some e => exact Ahead.grow (t := []) hx ⟨Still.refl _, by simp, rfl, rfl⟩
  | crashed hc _ hw => exact ahead_crashed h hc hx hw

theorem micro_grows {env : Env W M} {x y : Phase M × State W M} (h : Micro cfg env x y) :
    x.2.trace <+: y.2.trace := by
  cases h <;> simp

theorem backs_path (h : l.Serves hooks rest event build) {x y : Phase M × SqlState D M}
    (hpath : Path cfg (sqlEnv hooks rest) x y) (hy : ∀ o ∈ y.2.trace, Consistent event o)
    (hnodup : (tooks x.2.trace).Nodup) (hx : l.Backs x.2 x.1) : l.Backs y.2 y.1 := by
  induction hpath with
  | refl => exact hx
  | tail hfirst hlast ih =>
    refine backs_micro h hlast hy (by rw [path_tooks hfirst]; exact hnodup) (ih fun o ho => ?_)
    exact hy o ((micro_grows hlast).subset ho)

end Steps

/-! ## Runs of the drain task -/

section Runs

variable {cfg : Config} {hooks : SqlHooks D} {rest : Env D M} {event : M → Option DBChangeEvent}
  {build : DBChangeEvent → Except Exn S} {b : Bufferer (SqlWorld D) M}

/-- Nothing was handed over, acknowledged or run. -/
def Quietly (l : Ledger D M S T) (s t : SqlState D M) : Prop := ∃ es, l.Grown s t es

theorem Quietly.refl (s : SqlState D M) : l.Quietly s s :=
  ⟨[], Still.refl _, (List.append_nil _).symm, rfl, rfl⟩

theorem Quietly.trans {s t u : SqlState D M} (h : l.Quietly s t) (h' : l.Quietly t u) :
    l.Quietly s u := by
  obtain ⟨es, hes⟩ := h
  obtain ⟨es', hes'⟩ := h'
  refine ⟨es ++ es', hes.world.trans hes'.world, ?_, ?_, ?_⟩
  · rw [hes'.trace, hes.trace, List.append_assoc]
  · rw [handed_append, hes.handed, hes'.handed, List.append_nil]
  · rw [acked_append, carrying, List.filter_append]
    exact (congrArg₂ _ hes.paid hes'.paid).trans (List.append_nil _)

theorem quietly_nak {o : Obs M} (hhanded : handed [o] = []) (hacked : acked [o] = []) :
    Within l.Quietly (note o : Proc (SqlWorld D) M Unit) :=
  fun _ => ⟨[o], Still.refl _, rfl, hhanded, by rw [hacked]; rfl⟩

/-- Giving the batch back is seen by the server only. -/
theorem nackEverything_quietly (h : l.Serves hooks rest event build) :
    Within l.Quietly (nackEverything (sqlEnv hooks rest)) := by
  refine Within.bind Quietly.refl (fun pending => ?_) Quietly.trans
  refine (within_each (fun m => ?_) Quietly.refl Quietly.trans pending).bind
    (fun _ s => ⟨[], Still.refl _, (List.append_nil _).symm, rfl, rfl⟩) Quietly.trans
  refine (quietly_nak (o := .nak m) rfl rfl).bind (fun _ => ?_) Quietly.trans
  refine within_tryExcept ?_ (fun _ => within_pure Quietly.refl _) Quietly.refl Quietly.trans
  refine Within.handle (fun s => ?_) (fun e => ?_) Quietly.trans
  · exact ⟨[], h.spares.calls.nak m s.world, (List.append_nil _).symm, rfl, rfl⟩
  · exact (quietly_nak rfl rfl).bind (fun _ => within_raise Quietly.refl _) Quietly.trans

theorem Ahead.quietly {s t : SqlState D M} (h : l.Ahead s) (ht : l.Quietly s t) : l.Ahead t := by
  obtain ⟨es, hes⟩ := ht
  exact h.grow hes

/-- The task is at work over what it mirrors, or over. -/
def Stands (l : Ledger D M S T) (b : Bufferer (SqlWorld D) M) : Prop :=
  (b.pc.running = true → l.Backs b.processor .idle) ∧ l.Ahead b.processor

theorem Backs.ahead {s : SqlState D M} (h : l.Backs s .idle) : l.Ahead s :=
  h.2.ahead List.prefix_rfl

theorem afterCall_error_running (next : Pc) (e : Exn) :
    (Bufferer.afterCall next (.error e)).running = false := by
  show (if e.isConsumerStop then Pc.returned else .crashed e).running = false
  split <;> rfl

theorem Agreeing.tooks_nodup {s t : SqlState D M} (h : Agreeing event s t)
    (ht : (tooks t.trace).Nodup) : (tooks s.trace).Nodup := by
  obtain ⟨es, hes, _⟩ := h
  rw [hes, tooks_append] at ht
  exact (List.nodup_append.mp ht).1

variable [DecidableEq M]

/-- A call of the processor along the paths of its phases. -/
theorem stands_after (h : l.Serves hooks rest event build) {next : Pc} {p : Proc (SqlWorld D) M Unit}
    {s : SqlState D M} {x : Phase M × SqlState D M} {b' : Bufferer (SqlWorld D) M}
    (hpath : wp p (fun _ t => Path cfg (sqlEnv hooks rest) x (.idle, t))
      (fun e t => Path cfg (sqlEnv hooks rest) x (.raised e, t)) s)
    (hx : l.Backs x.2 x.1) (hpc : b'.pc = Bufferer.afterCall next (p s).1)
    (hprocessor : b'.processor = (p s).2)
    (hconsistent : ∀ o ∈ b'.processor.trace, Consistent event o)
    (hnodup : (tooks b'.processor.trace).Nodup) : Stands l b' := by
  have htooks : (tooks x.2.trace).Nodup := by
    rw [← Bufferer.tooks_of_path hpath, ← hprocessor]
    exact hnodup
  rw [hprocessor] at hconsistent
  rw [Stands, hpc, hprocessor]
  rcases wp_elim hpath with ⟨_, _, hreach⟩ | ⟨e, hr, hreach⟩
  · have hs : l.Backs (p s).2 .idle := backs_path h hreach hconsistent htooks hx
    exact ⟨fun _ => hs, hs.ahead⟩
  · refine ⟨fun hrun => ?_, backs_path h hreach hconsistent htooks hx⟩
    rw [hr, afterCall_error_running] at hrun
    cases hrun

theorem stands_handle (h : l.Serves hooks rest event build) {item : Option M}
    (hb : l.Backs b.processor .idle)
    (hconsistent : ∀ o ∈ (b.handle cfg (sqlEnv hooks rest) item).processor.trace, Consistent event o)
    (hnodup : (tooks (b.handle cfg (sqlEnv hooks rest) item).processor.trace).Nodup) :
    Stands l (b.handle cfg (sqlEnv hooks rest) item) := by
  cases item with
  | none =>
    have hpath := flush_path (Relation.ReflTransGen.refl (r := Micro cfg (sqlEnv hooks rest))
      (a := (Phase.idle, b.processor)))
    exact stands_after h hpath hb rfl rfl hconsistent hnodup
  | some m =>
    have hg : l.Grown b.processor (b.processor.push (.took m)) [.took m] :=
      ⟨Still.refl _, rfl, rfl, rfl⟩
    have htaken : l.Backs (b.processor.push (.took m)) (.taken m) := by
      refine ⟨?_, ?_⟩
      · simpa [Obs.taken] using hb.1.append (List.Sublist.refl [m])
      · rw [hg.paid_eq]
        exact hb.2.grow hg
    exact stands_after h (processMessage_path .refl)
      (x := (.taken m, b.processor.push (.took m))) htaken rfl rfl hconsistent hnodup

theorem stands_step (h : l.Serves hooks rest event build) (move : Bufferer.Move M) (hb : Stands l b)
    (hconsistent : ∀ o ∈ (b.step cfg (sqlEnv hooks rest) move).processor.trace, Consistent event o)
    (hnodup : (tooks (b.step cfg (sqlEnv hooks rest) move).processor.trace).Nodup) :
    Stands l (b.step cfg (sqlEnv hooks rest) move) := by
  cases move with
  | turn =>
    generalize hb' : b.step cfg (sqlEnv hooks rest) .turn = b' at hconsistent hnodup ⊢
    change b.turn cfg (sqlEnv hooks rest) = b' at hb'
    unfold Bufferer.turn at hb'
    split at hb'
    · next item rest' hpc _ =>
      subst hb'
      exact stands_handle h (b := { b with queue := rest' }) (hb.1 (by rw [hpc]; rfl)) hconsistent hnodup
    · next hpc _ =>
      split at hb'
      · subst hb'
        refine ⟨fun hrun => ?_, hb.2.quietly (nackEverything_quietly h b.processor)⟩
        rw [Bufferer.giveUp_running] at hrun
        cases hrun
      · subst hb'
        have hpath := onIdle_path (Relation.ReflTransGen.refl (r := Micro cfg (sqlEnv hooks rest))
          (a := (Phase.idle, b.processor)))
        exact stands_after h hpath (hb.1 (by rw [hpc]; rfl)) rfl rfl hconsistent hnodup
    · next item rest' hpc _ =>
      subst hb'
      exact stands_handle h (b := { b with queue := rest' }) (hb.1 (by rw [hpc]; rfl)) hconsistent hnodup
    · exact hb' ▸ hb
    · exact hb' ▸ hb
    · exact hb' ▸ hb
  | timeout =>
    show Stands l (if _ then _ else _)
    split
    · next hpc => exact ⟨fun _ => hb.1 (by rw [hpc]; rfl), hb.2⟩
    · exact hb
  | put item => exact hb
  | setCancel => exact hb
  | kill =>
    show Stands l b.kill
    unfold Bufferer.kill
    split
    · exact ⟨nofun, hb.2⟩
    · exact hb

theorem stands_exec (h : l.Serves hooks rest event build)
    (hsteady : Steady cfg (sqlEnv hooks rest) event) (moves : List (Bufferer.Move M))
    (hb : Stands l b) (hconsistent : ∀ o ∈ b.processor.trace, Consistent event o)
    (hnodup : (tooks (b.exec cfg (sqlEnv hooks rest) moves).processor.trace).Nodup) :
    Stands l (b.exec cfg (sqlEnv hooks rest) moves) := by
  induction moves generalizing b with
  | nil => exact hb
  | cons move rest' ih =>
    have hstep := step_agreeing (b := b) hsteady move
    have hall := hstep.all hconsistent
    refine ih (stands_step h move hb hall ?_) hall hnodup
    exact Agreeing.tooks_nodup (exec_agreeing hsteady rest') hnodup

end Runs

end Ledger

end Consumer
end Eds
