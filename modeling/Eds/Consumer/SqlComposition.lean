import Eds.Consumer.Lifecycle
import Eds.Drivers.SqlBase

/-!
# The processor over a SQL driver

The processor keeps messages and the driver keeps SQL texts, each in its own
buffer.  `Tied` relates the two: the texts built so far are those of the executed
batches followed by the driver's buffer, and cutting the processed messages at the
same place leaves the processor's batch.  Nothing in the code compares the buffers,
so the relation has to survive every step.
-/

namespace Eds
namespace Consumer

open Effects Effects.Prog Effects.Traced Drivers Drivers.SqlDriverBase

variable {D M : Type}

/-- The environment of a processor whose driver is `hooks`. -/
def sqlEnv (hooks : SqlHooks D) (rest : Env D M) : Env (SqlWorld D) M where
  metadata m := outside (rest.metadata m)
  ack m := outside (rest.ack m)
  nak m := outside (rest.nak m)
  fromMessage m seq := outside (rest.fromMessage m seq)
  toJson := rest.toJson
  process := SqlDriverBase.process hooks
  flush := SqlDriverBase.flush hooks
  migrateNewTable schema := outside (rest.migrateNewTable schema)
  migrateNewColumns schema columns := outside (rest.migrateNewColumns schema columns)
  getTableVersion table := outside (rest.getTableVersion table)
  getSchema table version := outside (rest.getSchema table version)
  setTableVersion table version := outside (rest.setTableVersion table version)
  validate evt := outside (rest.validate evt)
  clock w := ((rest.clock w.world).1, w.inWorld (rest.clock w.world).2)

/-! ## What leaves the driver alone -/

section Asides

variable {cfg : Config} {hooks : SqlHooks D} {rest : Env D M}

theorem logged_same (evt : DBChangeEvent) (b : Bool) :
    Within Same (logged (sqlEnv hooks rest) evt b) := by
  unfold logged
  split
  · exact within_pure Same.refl _
  · exact within_raise Same.refl _

theorem shouldSkip_same (evt : DBChangeEvent) :
    Within Same (shouldSkip cfg (sqlEnv hooks rest) evt) := by
  unfold shouldSkip
  split
  · exact within_raise Same.refl _
  · exact within_pure Same.refl _
  · split
    · refine Within.bind ?_ (fun verdict => ?_) Same.trans
      · refine within_tryExcept ?_ (fun _ => within_pure Same.refl _) Same.refl Same.trans
        exact (same_outside _).bind (fun _ => within_pure Same.refl _) Same.trans
      · split
        · exact logged_same _ _
        · split
          · exact logged_same _ _
          · split
            · exact within_pure Same.refl _
            · exact within_pure Same.refl _
    · exact within_pure Same.refl _

theorem handlePossibleMigration_same (evt : DBChangeEvent) :
    Within Same (handlePossibleMigration (sqlEnv hooks rest) evt) := by
  refine (same_outside _).bind (fun found => ?_) Same.trans
  show Within Same (if _ then _ else _)
  split
  · exact within_pure Same.refl _
  · refine (same_outside _).bind (fun newschema => ?_) Same.trans
    split
    · refine (same_outside _).bind (fun _ => ?_) Same.trans
      exact (same_outside _).bind (fun _ => within_pure Same.refl _) Same.trans
    · refine (same_outside _).bind (fun oldschema => ?_) Same.trans
      show Within Same (if _ then _ else _)
      split
      · exact within_pure Same.refl _
      · refine (same_outside _).bind (fun _ => ?_) Same.trans
        split
        · exact within_raise Same.refl _
        · exact (same_outside _).bind (fun _ => within_pure Same.refl _) Same.trans

theorem conform_same (evt : DBChangeEvent) : Within Same (conform (sqlEnv hooks rest) evt) := by
  refine (same_outside _).bind (fun schema => ?_) Same.trans
  split
  · exact within_pure Same.refl _
  · show Within Same (if _ then _ else _)
    split
    · exact within_pure Same.refl _
    · exact within_pure Same.refl _

theorem aside_same {w w' : SqlWorld D} (h : Aside cfg (sqlEnv hooks rest) w w') : Same w w' := by
  cases h with
  | clock => exact ⟨rfl, rfl⟩
  | metadata m => exact same_outside _ w
  | ack m => exact same_outside _ w
  | nak m => exact same_outside _ w
  | fromMessage m seq => exact same_outside _ w
  | shouldSkip evt => exact shouldSkip_same evt w
  | migration evt => exact handlePossibleMigration_same evt w
  | conform evt => exact conform_same evt w

end Asides

/-! ## The two buffers in step -/

/-- A message that was handed to the driver, with its sequence and its event. -/
structure Handed (M : Type) where
  msg : M
  seq : Int
  evt : DBChangeEvent

def Obs.handed : Obs M → Option (Handed M)
  | .processed m seq evt => some ⟨m, seq, evt⟩
  | .took _ | .skipped _ | .flushed | .ack _ | .nak _ | .raised _ _ => none

def handed (t : List (Obs M)) : List (Handed M) := t.filterMap Obs.handed

@[simp] theorem handed_nil : handed ([] : List (Obs M)) = [] := rfl

@[simp] theorem handed_append (t t' : List (Obs M)) : handed (t ++ t') = handed t ++ handed t' :=
  List.filterMap_append

@[simp] theorem handed_cons (o : Obs M) (t : List (Obs M)) :
    handed (o :: t) = o.handed.toList ++ handed t := by
  cases o <;> rfl

@[simp] theorem handed_raised {c : Call M} {r : Option Exn} :
    handed ((r.map (Obs.raised c)).toList) = [] := by
  cases r <;> rfl

abbrev SqlState (D M : Type) := State (SqlWorld D) M

/-- The texts of the executed batches are those of the messages `done`, `left` is
what they leave, and what was acknowledged without being skipped is in `done`. -/
structure Cut (s : SqlState D M) (groups : List (List String)) (done left : List M) : Prop where
  events : (handed s.trace).map Handed.evt = (built s.world.trace).map Prod.fst
  executed : executed s.world.trace = groups.map String.join
  messages : (handed s.trace).map Handed.msg = done ++ left
  covered : done.length = groups.flatten.length
  acked : ∀ m, .ack m ∈ s.trace → .skipped m ∈ s.trace ∨ m ∈ done

/-- The driver's buffer holds the texts of the messages `live`. -/
structure Tied (s : SqlState D M) (live : List M) : Prop where
  count : s.world.vars.count = s.world.vars.pending.length
  cut : ∃ groups done left, Cut s groups done left ∧ left.Perm live ∧
    groups.flatten ++ s.world.vars.pending = (built s.world.trace).map Prod.snd

/-- After a failure: the executed batches are still the first texts built. -/
def Covered (s : SqlState D M) : Prop :=
  ∃ groups done left, Cut s groups done left ∧
    groups.flatten <+: (built s.world.trace).map Prod.snd

theorem Cut.length_eq {s : SqlState D M} {groups : List (List String)} {done left : List M}
    (h : Cut s groups done left) :
    (built s.world.trace).length = groups.flatten.length + left.length := by
  have hevents := congrArg List.length h.events
  have hmessages := congrArg List.length h.messages
  rw [List.length_map, List.length_map] at hevents
  rw [List.length_map, List.length_append, h.covered] at hmessages
  omega

theorem Tied.length_eq {s : SqlState D M} {live : List M} (h : Tied s live) :
    s.world.vars.pending.length = live.length := by
  obtain ⟨groups, done, left, hcut, hperm, hbuilt⟩ := h.cut
  have hlen := hcut.length_eq
  have htexts := congrArg List.length hbuilt
  rw [List.length_append, List.length_map] at htexts
  have hleft := hperm.length_eq
  omega

theorem Tied.covered {s : SqlState D M} {live : List M} (h : Tied s live) : Covered s := by
  obtain ⟨groups, done, left, hcut, _, hbuilt⟩ := h.cut
  exact ⟨groups, done, left, hcut, _, hbuilt⟩

/-- The observations `t` were added, and the driver was left alone. -/
structure Grown (s s' : SqlState D M) (t : List (Obs M)) : Prop where
  world : Same s.world s'.world
  trace : s'.trace = s.trace ++ t
  quiet : handed t = []

theorem Cut.grow {s s' : SqlState D M} {groups : List (List String)} {done left : List M}
    (h : Cut s groups done left) {t : List (Obs M)} (hg : Grown s s' t)
    (hack : ∀ m, .ack m ∈ t → .skipped m ∈ s.trace ∨ m ∈ done) : Cut s' groups done left := by
  have hhanded : handed s'.trace = handed s.trace := by
    rw [hg.trace, handed_append, hg.quiet, List.append_nil]
  refine ⟨?_, ?_, ?_, h.covered, fun m hm => ?_⟩
  · rw [hhanded, hg.world.2]
    exact h.events
  · rw [hg.world.2]
    exact h.executed
  · rw [hhanded]
    exact h.messages
  · rw [hg.trace] at hm ⊢
    have hm' : .skipped m ∈ s.trace ∨ m ∈ done := by
      rcases List.mem_append.mp hm with hm | hm
      · exact h.acked m hm
      · exact hack m hm
    exact hm'.imp_left (List.mem_append_left t)

theorem Tied.grow {s s' : SqlState D M} {live : List M} (h : Tied s live) {t : List (Obs M)}
    (hg : Grown s s' t)
    (hack : ∀ m, .ack m ∈ t → .skipped m ∈ s.trace ∨
      live = [] ∧ m ∈ (handed s.trace).map Handed.msg) : Tied s' live := by
  obtain ⟨groups, done, left, hcut, hperm, hbuilt⟩ := h.cut
  refine ⟨by rw [hg.world.1]; exact h.count, groups, done, left, hcut.grow hg ?_, hperm, ?_⟩
  · intro m hm
    rcases hack m hm with hm | ⟨hlive, hm⟩
    · exact Or.inl hm
    · rw [hlive, List.perm_nil] at hperm
      rw [hcut.messages, hperm, List.append_nil] at hm
      exact Or.inr hm
  · rw [hg.world.1, hg.world.2]
    exact hbuilt

theorem Covered.grow {s s' : SqlState D M} (h : Covered s) {t : List (Obs M)} (hg : Grown s s' t)
    (hack : ∀ m, .ack m ∉ t) : Covered s' := by
  obtain ⟨groups, done, left, hcut, hpre⟩ := h
  refine ⟨groups, done, left, hcut.grow hg fun m hm => absurd hm (hack m), ?_⟩
  rw [hg.world.2]
  exact hpre

/-! ## The two methods of the driver -/

theorem built_snoc (t : List SqlObs) (evt : DBChangeEvent) (sql : String) :
    built (t ++ [.built evt sql]) = built t ++ [(evt, sql)] := by
  rw [built, List.filterMap_append]
  rfl

theorem executed_snoc_built (t : List SqlObs) (evt : DBChangeEvent) (sql : String) :
    executed (t ++ [.built evt sql]) = executed t := by
  rw [executed, List.filterMap_append]
  exact List.append_nil _

theorem built_snoc_executed (t : List SqlObs) (sql : String) :
    built (t ++ [.executed sql]) = built t := by
  rw [built, List.filterMap_append]
  exact List.append_nil _

theorem executed_snoc (t : List SqlObs) (sql : String) :
    executed (t ++ [.executed sql]) = executed t ++ [sql] := by
  rw [executed, List.filterMap_append]
  rfl

theorem Tied.process {s : SqlState D M} {old : List M} (h : Tied s old) {w : SqlWorld D} {m : M}
    {seq : Int} {evt : DBChangeEvent} {sql : String} (hvars : w.vars = buffer sql s.world.vars)
    (htrace : w.trace = s.world.trace ++ [.built evt sql]) :
    Tied ((s.inWorld w).push (.processed m seq evt)) (old ++ [m]) := by
  obtain ⟨groups, done, left, hcut, hperm, hbuilt⟩ := h.cut
  have hhanded : handed (s.trace ++ [.processed m seq evt]) = handed s.trace ++ [⟨m, seq, evt⟩] := by
    simp [Obs.handed]
  refine ⟨?_, groups, done, left ++ [m], ⟨?_, ?_, ?_, hcut.covered, fun x hx => ?_⟩,
    hperm.append_right [m], ?_⟩
  · rw [push_world, inWorld_world, hvars]
    simp [buffer, h.count]
  · rw [push_trace, push_world, inWorld_world, inWorld_trace, hhanded, htrace, built_snoc]
    simp [hcut.events]
  · rw [push_world, inWorld_world, htrace, executed_snoc_built]
    exact hcut.executed
  · rw [push_trace, inWorld_trace, hhanded, List.map_append, hcut.messages]
    simp
  · rw [push_trace, inWorld_trace, List.mem_append] at hx ⊢
    rcases hx with hx | hx
    · exact (hcut.acked x hx).imp_left Or.inl
    · simp at hx
  · rw [push_world, inWorld_world, htrace, hvars, built_snoc]
    simp [buffer, ← hbuilt]

/-- The whole buffer was executed. -/
theorem Cut.execute {s : SqlState D M} {groups : List (List String)} {done left : List M}
    (h : Cut s groups done left)
    (hbuilt : groups.flatten ++ s.world.vars.pending = (built s.world.trace).map Prod.snd)
    {w : SqlWorld D} (htrace : w.trace = s.world.trace ++
      [.executed (String.join s.world.vars.pending)]) {o : Obs M} (ho : o.handed = none)
    (hack : ∀ m, o ≠ .ack m) :
    Cut ((s.inWorld w).push o) (groups ++ [s.world.vars.pending]) (done ++ left) [] := by
  have hlen := h.length_eq
  have htexts := congrArg List.length hbuilt
  rw [List.length_append, List.length_map] at htexts
  refine ⟨?_, ?_, ?_, ?_, fun x hx => ?_⟩
  · rw [push_trace, push_world, inWorld_world, inWorld_trace, htrace, built_snoc_executed]
    simp [ho, h.events]
  · rw [push_world, inWorld_world, htrace, executed_snoc, h.executed]
    simp
  · rw [push_trace, inWorld_trace]
    simp [ho, h.messages]
  · rw [List.length_append, h.covered, List.flatten_append, List.length_append]
    simp only [List.flatten_cons, List.flatten_nil, List.append_nil]
    omega
  · rw [push_trace, inWorld_trace, List.mem_append] at hx ⊢
    rcases hx with hx | hx
    · exact (h.acked x hx).imp Or.inl (List.mem_append_left left)
    · exact absurd (List.mem_singleton.mp hx).symm (hack x)

theorem reset_empty {d : SqlDriverBase} (hpending : d.pending = []) (hcount : d.count = 0) :
    reset d = d := by
  cases d
  cases hpending
  cases hcount
  rfl

theorem Tied.flush {s : SqlState D M} {live : List M} (h : Tied s live) {w : SqlWorld D}
    (hvars : w.vars = reset s.world.vars) (htrace : w.trace = s.world.trace ++ flushed s.world.vars) :
    Tied ((s.inWorld w).push .flushed) [] := by
  by_cases hpos : 0 < s.world.vars.count
  · rw [flushed, if_pos hpos] at htrace
    obtain ⟨groups, done, left, hcut, hperm, hbuilt⟩ := h.cut
    refine ⟨by rw [push_world, inWorld_world, hvars]; rfl, _, _, _,
      hcut.execute hbuilt htrace rfl (fun _ heq => by cases heq), List.Perm.refl [], ?_⟩
    rw [push_world, inWorld_world, htrace, hvars, built_snoc_executed, ← hbuilt]
    simp [reset]
  · rw [flushed, if_neg hpos, List.append_nil] at htrace
    have hzero : s.world.vars.count = 0 := by omega
    have hnil : s.world.vars.pending = [] := List.length_eq_zero_iff.mp (h.count ▸ hzero)
    have hlive : live = [] := List.length_eq_zero_iff.mp (by rw [← h.length_eq, hnil]; rfl)
    have hsame : Same s.world w := ⟨by rw [hvars, reset_empty hnil hzero], htrace⟩
    rw [hlive] at h
    exact h.grow ⟨hsame, rfl, rfl⟩ (by simp)

/-- A flush that raises keeps the buffer, whether or not the batch went through. -/
theorem Tied.flushRaised {s : SqlState D M} {live : List M} (h : Tied s live) {w : SqlWorld D}
    {c : Call M} {e : Exn} (hvars : w.vars = s.world.vars)
    (htrace : w.trace = s.world.trace ∨
      w.trace = s.world.trace ++ [.executed (String.join s.world.vars.pending)]) :
    Covered ((s.inWorld w).push (.raised c e)) := by
  rcases htrace with htrace | htrace
  · exact h.covered.grow ⟨⟨hvars, htrace⟩, rfl, rfl⟩ (by simp)
  · obtain ⟨groups, done, left, hcut, hperm, hbuilt⟩ := h.cut
    refine ⟨_, _, _, hcut.execute hbuilt htrace rfl (fun _ => nofun), [], ?_⟩
    rw [push_world, inWorld_world, htrace, built_snoc_executed, ← hbuilt]
    simp

/-! ## Every step keeps them in step -/

/-- The buffers are tied on all messages of the batch but the one in hand.  The
processor never gives its batch back without raising, unless it is told to. -/
def InStep (s : SqlState D M) : Phase M → Prop
  | .idle => Tied s s.vars.pending
  | .taken _ => Tied s s.vars.pending
  | .held m _ => ∃ old, s.vars.pending = old ++ [m] ∧ Tied s old
  | .checked m _ => ∃ old, s.vars.pending = old ++ [m] ∧ Tied s old
  | .skipping m => .skipped m ∈ s.trace ∧ ∃ old, s.vars.pending = old ++ [m] ∧ Tied s old
  | .acking rest => Tied s [] ∧ ∀ x ∈ rest, x ∈ (handed s.trace).map Handed.msg
  | .nacking _ none => False
  | .nacking _ (some _) => Covered s
  | .raised _ => Covered s

theorem Tied.raised {s : SqlState D M} {live : List M} (h : Tied s live) {w : SqlWorld D}
    (hw : Same s.world w) {c : Call M} {e : Exn} : Covered ((s.inWorld w).push (.raised c e)) :=
  h.covered.grow ⟨hw, rfl, rfl⟩ (by simp)

theorem Tied.mem_handed {s : SqlState D M} {live : List M} (h : Tied s live) {x : M}
    (hx : x ∈ live) : x ∈ (handed s.trace).map Handed.msg := by
  obtain ⟨groups, done, left, hcut, hperm, _⟩ := h.cut
  rw [hcut.messages]
  exact List.mem_append_right done (hperm.mem_iff.mpr hx)

theorem Tied.perm {s : SqlState D M} {live live' : List M} (h : Tied s live)
    (hperm : live.Perm live') : Tied s live' := by
  obtain ⟨groups, done, left, hcut, hleft, hbuilt⟩ := h.cut
  exact ⟨h.count, groups, done, left, hcut, hleft.trans hperm, hbuilt⟩

theorem Tied.ofVars {s s' : SqlState D M} {live : List M} (h : Tied s live)
    (hworld : s'.world = s.world) (htrace : s'.trace = s.trace) : Tied s' live :=
  h.grow ⟨⟨by rw [hworld], by rw [hworld]⟩, by rw [htrace, List.append_nil], rfl⟩ (by simp)

theorem Tied.ackFlushed {s : SqlState D M} (h : Tied s []) {m : M}
    (hm : m ∈ (handed s.trace).map Handed.msg) {w : SqlWorld D} (hw : Same s.world w) :
    Tied ((s.push (.ack m)).inWorld w) [] :=
  h.grow (t := [.ack m]) ⟨hw, rfl, rfl⟩ (by simpa using Or.inr hm)

theorem InStep.inWorld {s : SqlState D M} {w : SqlWorld D} {ph : Phase M} (h : InStep s ph)
    (hw : Same s.world w) : InStep (s.inWorld w) ph := by
  have htied : ∀ {live : List M}, Tied s live → Tied (s.inWorld w) live := fun ht =>
    ht.grow ⟨hw, (List.append_nil _).symm, rfl⟩ (by simp)
  have hcovered : Covered s → Covered (s.inWorld w) := fun hc =>
    hc.grow ⟨hw, (List.append_nil _).symm, rfl⟩ (by simp)
  cases ph with
  | idle => exact htied h
  | taken m => exact htied h
  | held m seq => exact h.imp fun _ hold => ⟨hold.1, htied hold.2⟩
  | checked m seq => exact h.imp fun _ hold => ⟨hold.1, htied hold.2⟩
  | skipping m => exact ⟨h.1, h.2.imp fun _ hold => ⟨hold.1, htied hold.2⟩⟩
  | acking rest => exact ⟨htied h.1, h.2⟩
  | nacking rest next =>
    cases next with
    | none => exact h
    | some e => exact hcovered h
  | raised e => exact hcovered h

section Steps

variable {cfg : Config} {hooks : SqlHooks D} {rest : Env D M}

theorem inStep_crashed {s : SqlState D M} {ph : Phase M} {c : Call M} {e : Exn} {w : SqlWorld D}
    (hc : AtStake s ph c) (h : InStep s ph) (hw : Touched cfg (sqlEnv hooks rest) e s.world w) :
    Covered ((s.inWorld w).push (.raised c e)) := by
  obtain ⟨live, htied⟩ : ∃ live, Tied s live := by
    cases hc with
    | metadata => exact ⟨_, h⟩
    | stage _ => exact ⟨_, h.choose_spec.2⟩
    | process => exact ⟨_, h.choose_spec.2⟩
    | catchUp => exact ⟨_, h⟩
    | flush => exact ⟨_, h⟩
  cases hw with
  | aside ha => exact htied.raised (aside_same ha)
  | process evt hp => exact htied.raised (wp_error process_spec hp)
  | flush hp =>
    obtain ⟨hvars, htrace⟩ := wp_error flush_spec hp
    exact htied.flushRaised hvars htrace

variable [DecidableEq M]

theorem erase_last_perm (old : List M) (m : M) : ((old ++ [m]).erase m).Perm old := by
  have hperm : (old ++ [m]).Perm (m :: old) := List.perm_append_singleton m old
  simpa using hperm.erase m

theorem inStep_micro {x y : Phase M × SqlState D M} (h : Micro cfg (sqlEnv hooks rest) x y)
    (hx : InStep x.2 x.1) : InStep y.2 y.1 := by
  cases h with
  | @metadata m s md w hp =>
    have hw : Same s.world w := (same_outside _).reply hp
    have htaken : InStep s (.taken m) := hx
    have htied : Tied (s.inWorld w) s.vars.pending := htaken.inWorld hw
    exact ⟨_, rfl, htied.ofVars rfl rfl⟩
  | metadataRaised _ hp => exact Tied.raised hx ((same_outside _).reply hp)
  | @outOfOrder m seq s err _ =>
    obtain ⟨old, _, htied⟩ := hx
    exact htied.raised (w := s.world) (Same.refl _)
  | inOrder _ =>
    obtain ⟨old, hpending, htied⟩ := hx
    exact ⟨old, hpending, htied.ofVars rfl rfl⟩
  | aside ha => exact hx.inWorld (aside_same ha)
  | stageRaised hc _ ha => exact inStep_crashed (.stage hc) hx (.aside ha)
  | skipRaised _ ha =>
    obtain ⟨old, _, htied⟩ := hx
    exact htied.raised (aside_same ha)
  | skipped =>
    obtain ⟨old, hpending, htied⟩ := hx
    exact ⟨by simp, old, hpending, htied.grow ⟨Same.refl _, rfl, rfl⟩ (by simp)⟩
  | @skipAcked m s r w _ ha =>
    obtain ⟨hskip, old, hpending, htied⟩ := hx
    have hack : Tied (((s.push (.ack m)).inWorld w).pushOpt (r.map (.raised (.ackSkipped m)))) old := by
      refine htied.grow (t := .ack m :: (r.map (Obs.raised (.ackSkipped m))).toList)
        ⟨by simpa using aside_same ha, by simp, by simp [Obs.handed]⟩ fun x hxack => ?_
      left
      cases r <;> simp at hxack <;> exact hxack ▸ hskip
    have hperm : old.Perm (s.vars.pending.erase m) := by
      rw [show s.vars.pending = old ++ [m] from hpending]
      exact (erase_last_perm old m).symm
    show Tied _ _
    simp only [setVars_vars, pushOpt_vars, inWorld_vars, push_vars]
    exact (hack.perm hperm).ofVars rfl rfl
  | @skipAckCrashed m s e w _ ha =>
    obtain ⟨hskip, old, _, htied⟩ := hx
    have hack : Tied ((s.push (.ack m)).inWorld w) old :=
      htied.grow (t := [.ack m]) ⟨aside_same ha, rfl, rfl⟩ (by simpa using Or.inl hskip)
    exact hack.raised (w := w) (Same.refl _)
  | @processed m seq s evt b w hp =>
    obtain ⟨old, hpending, htied⟩ := hx
    obtain ⟨sql, hvars, htrace⟩ := wp_ok process_spec hp
    show Tied _ s.vars.pending
    rw [show s.vars.pending = old ++ [m] from hpending]
    exact htied.process hvars htrace
  | processRaised _ hp =>
    obtain ⟨old, _, htied⟩ := hx
    exact htied.raised (wp_error process_spec hp)
  | catchUpRaised _ ha => exact Tied.grow hx ⟨aside_same ha, rfl, rfl⟩ (by simp)
  | started _ => exact Tied.ofVars hx rfl rfl
  | @flushed s w hp =>
    obtain ⟨hvars, htrace⟩ := wp_ok flush_spec hp
    refine ⟨Tied.flush hx hvars htrace, fun x hmem => ?_⟩
    simpa [Obs.handed] using Tied.mem_handed hx hmem
  | flushRaised _ hp =>
    obtain ⟨hvars, htrace⟩ := wp_error flush_spec hp
    exact Tied.flushRaised hx hvars htrace
  | @acked m rest s w ha =>
    refine ⟨hx.1.ackFlushed (hx.2 m List.mem_cons_self) (aside_same ha), fun x hmem => ?_⟩
    simpa [Obs.handed] using hx.2 x (List.mem_cons_of_mem m hmem)
  | @ackRaised m rest s e w _ ha =>
    have hack := hx.1.ackFlushed (hx.2 m List.mem_cons_self) (aside_same ha)
    exact hack.raised (w := w) (Same.refl _)
  | @ackCrashed m rest s e w _ ha =>
    have hack := hx.1.ackFlushed (hx.2 m List.mem_cons_self) (aside_same ha)
    exact hack.raised (w := w) (Same.refl _)
  | flushDone => exact Tied.ofVars hx.1 rfl rfl
  | @naked m rest next s r w _ ha =>
    cases next with
    | none => exact hx
    | some e =>
      refine Covered.grow (t := .nak m :: (r.map (Obs.raised (.nak m))).toList) hx
        ⟨by simpa using aside_same ha, by simp, by simp [Obs.handed]⟩ fun x hxack => ?_
      cases r <;> simp at hxack
  | @nakCrashed m rest next s e w _ ha =>
    cases next with
    | none => exact absurd hx id
    | some e' =>
      exact Covered.grow (t := [.nak m, .raised (.nak m) e]) hx ⟨aside_same ha, by simp, rfl⟩ (by simp)
  | @nakDone next s =>
    cases next with
    | none => exact absurd hx id
    | some e => exact Covered.grow (t := []) hx ⟨Same.refl _, by simp, rfl⟩ (by simp)
  | crashed hc _ hw => exact inStep_crashed hc hx hw

end Steps

/-! ## Messages reach the driver in sequence -/

section Order

variable {W : Type}

def sequences (t : List (Obs M)) : List Int := (handed t).map Handed.seq

/-- The sequences handed over so far ascend, and the one in hand is above them. -/
structure Ascending (x : Phase M × State W M) : Prop where
  sorted : (sequences x.2.trace).Pairwise (· < ·)
  below : ∀ q ∈ sequences x.2.trace, q ≤ x.2.vars.sequence
  current : ∀ m seq, x.1 = .checked m seq →
    seq = x.2.vars.sequence ∧ ∀ q ∈ sequences x.2.trace, q < seq

theorem Ascending.keep {x y : Phase M × State W M} (h : Ascending x)
    (htrace : sequences y.2.trace = sequences x.2.trace)
    (hseq : y.2.vars.sequence = x.2.vars.sequence)
    (hph : ∀ m seq, y.1 = .checked m seq → x.1 = .checked m seq) : Ascending y := by
  refine ⟨by rw [htrace]; exact h.sorted, by rw [htrace, hseq]; exact h.below, fun m seq hy => ?_⟩
  rw [htrace, hseq]
  exact h.current m seq (hph m seq hy)

theorem ascending_micro [DecidableEq M] {cfg : Config} {env : Env W M} {x y : Phase M × State W M}
    (h : Micro cfg env x y) (hx : Ascending x) : Ascending y := by
  cases h with
  | @inOrder m seq s hseq =>
    have hlt : ∀ q ∈ sequences s.trace, q < seq := fun q hq => by
      have hle : q ≤ s.vars.sequence := hx.below q hq
      omega
    refine ⟨hx.sorted, fun q hq => le_of_lt (hlt q hq), fun m' seq' hph => ?_⟩
    cases hph
    exact ⟨rfl, hlt⟩
  | @processed m seq s evt b w _ =>
    obtain ⟨hseq, hlt⟩ := hx.current m seq rfl
    have hsnoc : sequences (s.trace ++ [.processed m seq evt]) = sequences s.trace ++ [seq] := by
      simp [sequences, Obs.handed]
    refine ⟨?_, fun q hq => ?_, fun _ _ hph => nomatch hph⟩
    · show (sequences (s.trace ++ [.processed m seq evt])).Pairwise _
      rw [hsnoc, List.pairwise_append]
      exact ⟨hx.sorted, List.pairwise_singleton _ _, fun q hq r hr => by
        rw [List.mem_singleton.mp hr]
        exact hlt q hq⟩
    · have hq' : q ∈ sequences s.trace ++ [seq] := hsnoc ▸ hq
      rcases List.mem_append.mp hq' with hq' | hq'
      · exact hx.below q hq'
      · exact le_of_eq ((List.mem_singleton.mp hq').trans hseq)
  | @nakDone next s =>
    cases next with
    | none => exact hx.keep rfl rfl nofun
    | some e => exact hx.keep rfl rfl nofun
  | aside _ => exact hx.keep rfl rfl fun _ _ hph => hph
  | _ => exact hx.keep (by simp [sequences, Obs.handed]) (by simp [Batch.cleared]) nofun

end Order

/-! ## Runs of the processor -/

inductive Step (M : Type) where
  | message (m : M)
  | idle
  | flush

def Step.run {W : Type} [DecidableEq M] (cfg : Config) (env : Env W M) : Step M → Proc W M Unit
  | .message m => processMessage cfg env m
  | .idle => onIdle cfg env
  | .flush => Consumer.flush env

section Runs

variable [DecidableEq M] {cfg : Config} {hooks : SqlHooks D} {rest : Env D M}

def Synced (x : Phase M × SqlState D M) : Prop := InStep x.2 x.1 ∧ Ascending x

theorem synced_path {x y : Phase M × SqlState D M} (h : Path cfg (sqlEnv hooks rest) x y)
    (hx : Synced x) : Synced y :=
  path_invariant (fun hstep hz => ⟨inStep_micro hstep hz.1, ascending_micro hstep hz.2⟩) h hx

theorem step_synced (step : Step M) {s : SqlState D M} (h : Synced (.idle, s)) :
    wp (step.run cfg (sqlEnv hooks rest)) (fun _ t => Synced (.idle, t))
      (fun e t => Synced (.raised e, t)) s := by
  cases step with
  | message m =>
    have htook : Synced (.taken m, s.push (.took m)) := by
      refine ⟨Tied.grow h.1 (t := [.took m]) ⟨Same.refl _, rfl, rfl⟩ (by simp), ?_⟩
      exact h.2.keep (by simp [sequences, Obs.handed]) rfl nofun
    exact wp_mono (processMessage_path .refl) (fun _ _ ht => synced_path ht htook)
      (fun _ _ ht => synced_path ht htook)
  | idle =>
    exact wp_mono (onIdle_path .refl) (fun _ _ ht => synced_path ht h)
      (fun _ _ ht => synced_path ht h)
  | flush =>
    have hflush := flush_path (Relation.ReflTransGen.refl (r := Micro cfg (sqlEnv hooks rest))
      (a := (Phase.idle, s)))
    exact wp_mono hflush (fun _ _ ht => synced_path ht h) (fun _ _ ht => synced_path ht h)

theorem steps_synced (steps : List (Step M)) {s : SqlState D M} (h : Synced (.idle, s)) :
    wp (each (Step.run cfg (sqlEnv hooks rest)) steps) (fun _ t => Synced (.idle, t))
      (fun e t => Synced (.raised e, t)) s :=
  wp_each (fun _ t => Synced (.idle, t)) (fun step _ _ ht => step_synced step ht) steps s h

/-- The buffers of the processor and of a SQL driver stay in step.  After any steps
that return, the counts agree and the executed batches followed by the driver's
buffer are the texts of the events handed over, in sequence.  After any steps at
all, a message that was acknowledged without being skipped is among the first ones
handed over, whose texts are those of the executed batches. -/
theorem sql_buffers_in_step (cfg : Config) (hooks : SqlHooks D) (rest : Env D M) (sequence : Int)
    (d : D) (mode : IngestMode) (hasRegistry hasDb : Bool) (steps : List (Step M)) :
    let start : SqlState D M :=
      ⟨⟨[], none, sequence⟩, ⟨⟨[], 0, mode, hasRegistry, hasDb⟩, d, []⟩, []⟩
    let out := each (Step.run cfg (sqlEnv hooks rest)) steps start
    let driver := out.2.world.vars
    let sent := handed out.2.trace
    let texts := (built out.2.world.trace).map Prod.snd
    sent.map Handed.evt = (built out.2.world.trace).map Prod.fst ∧
    (sent.map Handed.seq).Pairwise (· < ·) ∧
    (out.1 = .ok () →
      driver.count = driver.pending.length ∧
      driver.pending.length = out.2.vars.pending.length ∧
      ∃ groups : List (List String), executed out.2.world.trace = groups.map String.join ∧
        groups.flatten ++ driver.pending = texts) ∧
    (∃ groups : List (List String), executed out.2.world.trace = groups.map String.join ∧
      groups.flatten <+: texts ∧
      ∀ m, .ack m ∈ out.2.trace →
        .skipped m ∈ out.2.trace ∨ m ∈ (sent.map Handed.msg).take groups.flatten.length) ∧
    ∀ (w : SqlWorld D) (e : Exn), (SqlDriverBase.flush hooks w).1 = .error e →
      (SqlDriverBase.flush hooks w).2.vars = w.vars := by
  intro start out driver sent texts
  have hstart : Synced (.idle, start) := by
    refine ⟨⟨rfl, [], [], [], ⟨rfl, rfl, rfl, rfl, by simp [start]⟩, List.Perm.refl _, rfl⟩, ?_⟩
    exact ⟨List.Pairwise.nil, by simp [start, sequences], nofun⟩
  have hwp : wp (each (Step.run cfg (sqlEnv hooks rest)) steps) (fun _ t => Synced (.idle, t))
      (fun e t => Synced (.raised e, t)) start := steps_synced steps hstart
  have hafter : Covered out.2 ∧ (sequences out.2.trace).Pairwise (· < ·) ∧
      (out.1 = .ok () → Tied out.2 out.2.vars.pending) := by
    rcases wp_elim hwp with ⟨_, _, hsync⟩ | ⟨e, herr, hsync⟩
    · exact ⟨Tied.covered hsync.1, hsync.2.sorted, fun _ => hsync.1⟩
    · refine ⟨hsync.1, hsync.2.sorted, fun hok => ?_⟩
      rw [herr] at hok
      cases hok
  obtain ⟨⟨groups, done, left, hcut, hpre⟩, hsorted, htied⟩ := hafter
  refine ⟨hcut.events, hsorted, fun hok => ?_, ⟨groups, hcut.executed, hpre, fun m hm => ?_⟩, ?_⟩
  · obtain ⟨groups, done, left, hcut, _, hbuilt⟩ := (htied hok).cut
    exact ⟨(htied hok).count, (htied hok).length_eq, groups, hcut.executed, hbuilt⟩
  · have htake : (sent.map Handed.msg).take groups.flatten.length = done := by
      rw [show sent.map Handed.msg = done ++ left from hcut.messages, ← hcut.covered]
      exact List.take_left
    rw [htake]
    exact hcut.acked m hm
  · intro w e he
    have hflush : wp (SqlDriverBase.flush hooks) _ _ w := flush_spec
    rcases wp_elim hflush with ⟨_, hok, _⟩ | ⟨_, _, hvars, _⟩
    · rw [he] at hok
      cases hok
    · exact hvars

end Runs

/-- A driver whose statement for an event is always the same. -/
def SqlHooks.constant : SqlHooks Unit where
  getTableVersion _ := pure (true, "v1")
  getSchema _ _ := pure
    { properties := Collections.Dict.empty, primaryKeys := [], table := "user", modelVersion := "v1" }
  toSql _ _ := pure "INSERT INTO user DEFAULT VALUES;"
  toAppendSql _ _ := pure "INSERT INTO user DEFAULT VALUES;"
  executeInTransaction _ := pure ()
  onFlushed _ := pure ()
  str _ := "user"

theorem sql_buffers_in_step_pairs :
    let start : SqlState Unit Int := ⟨⟨[], none, 0⟩, ⟨⟨[], 0, .upsert, true, true⟩, (), []⟩, []⟩
    let out := each (Step.run Config.pairs (sqlEnv SqlHooks.constant Env.obliging))
      [.message 1, .message 2, .message 3] start
    out.1 = .ok () ∧ out.2.world.vars.count = out.2.world.vars.pending.length :=
  ⟨by decide +kernel, ((sql_buffers_in_step Config.pairs SqlHooks.constant Env.obliging 0 () .upsert
    true true [.message 1, .message 2, .message 3]).2.2.1 (by decide +kernel)).1⟩

end Consumer
end Eds
