import Eds.Consumer.Bufferer
import Eds.Effects.History

/-!
# Acknowledging only what is done with

A message joins the pending batch before anything is known about it, and the batch
is what a later flush acknowledges.  `Backed` says for each phase what is owed to
the messages of the batch: every one of them has been processed, except the one in
hand, which is the last.  Acknowledging is allowed (`AckAllowed`) for a message that
was skipped, or processed and then flushed.
-/

namespace Eds
namespace Consumer

open Effects Effects.Prog Effects.Traced

variable {W M : Type}

def Processed (t : List (Obs M)) (m : M) : Prop := ∃ seq evt, .processed m seq evt ∈ t

/-- The driver flushed after the message was processed. -/
def Committed (t : List (Obs M)) (m : M) : Prop :=
  ∃ pre post, t = pre ++ .flushed :: post ∧ Processed pre m

def AckAllowed (pre : List (Obs M)) : Obs M → Prop
  | .ack m => .skipped m ∈ pre ∨ Committed pre m
  | _ => True

theorem Processed.append {t : List (Obs M)} {m : M} (h : Processed t m) (t' : List (Obs M)) :
    Processed (t ++ t') m := by
  obtain ⟨seq, evt, hmem⟩ := h
  exact ⟨seq, evt, List.mem_append_left t' hmem⟩

theorem Committed.append {t : List (Obs M)} {m : M} (h : Committed t m) (t' : List (Obs M)) :
    Committed (t ++ t') m := by
  obtain ⟨pre, post, rfl, hmem⟩ := h
  exact ⟨pre, post ++ t', by simp, hmem⟩

theorem Processed.flushed {t : List (Obs M)} {m : M} (h : Processed t m) :
    Committed (t ++ [.flushed]) m := ⟨t, [], rfl, h⟩

/-- Every message of the batch is processed, except the last one when `m` is in
hand. -/
def Backed (s : State W M) : Phase M → Prop
  | .idle => ∀ x ∈ s.vars.pending, Processed s.trace x
  | .taken _ => ∀ x ∈ s.vars.pending, Processed s.trace x
  | .held m _ => ∃ old, s.vars.pending = old ++ [m] ∧ ∀ x ∈ old, Processed s.trace x
  | .checked m _ => ∃ old, s.vars.pending = old ++ [m] ∧ ∀ x ∈ old, Processed s.trace x
  | .skipping m => .skipped m ∈ s.trace ∧
      ∃ old, s.vars.pending = old ++ [m] ∧ ∀ x ∈ old, Processed s.trace x
  | .acking rest => ∀ x ∈ rest, Committed s.trace x
  | .nacking _ _ => True
  | .raised _ => True

def Earned (x : Phase M × State W M) : Prop := Guarded AckAllowed x.2.trace ∧ Backed x.2 x.1

theorem guarded_raised {t : List (Obs M)} (h : Guarded AckAllowed t) (c : Call M)
    (r : Option Exn) : Guarded AckAllowed (t ++ (r.map (Obs.raised c)).toList) := by
  cases r with
  | none => simpa using h
  | some e => exact h.snoc trivial

/-- A trace that only grew keeps what is owed in an unchanged phase. -/
theorem Backed.grow {s s' : State W M} {ph : Phase M} (h : Backed s ph)
    (hvars : s'.vars = s.vars) {t : List (Obs M)} (htrace : s'.trace = s.trace ++ t) :
    Backed s' ph := by
  have hprocessed : ∀ x, Processed s.trace x → Processed s'.trace x := by
    intro x hx
    rw [htrace]
    exact hx.append t
  cases ph with
  | idle => exact fun x hx => hprocessed x (h x (hvars ▸ hx))
  | taken m => exact fun x hx => hprocessed x (h x (hvars ▸ hx))
  | held m seq =>
    obtain ⟨old, hpending, hold⟩ := h
    exact ⟨old, by rw [hvars, hpending], fun x hx => hprocessed x (hold x hx)⟩
  | checked m seq =>
    obtain ⟨old, hpending, hold⟩ := h
    exact ⟨old, by rw [hvars, hpending], fun x hx => hprocessed x (hold x hx)⟩
  | skipping m =>
    obtain ⟨hskip, old, hpending, hold⟩ := h
    exact ⟨by rw [htrace]; exact List.mem_append_left t hskip, old, by rw [hvars, hpending],
      fun x hx => hprocessed x (hold x hx)⟩
  | acking rest =>
    intro x hx
    rw [htrace]
    exact (h x hx).append t
  | nacking rest next => trivial
  | raised e => trivial

theorem mem_erase_last [DecidableEq M] {old : List M} {m x : M} (h : x ∈ (old ++ [m]).erase m) :
    x ∈ old := by
  by_cases hm : m ∈ old
  · rw [List.erase_append_left _ hm, List.mem_append, List.mem_singleton] at h
    rcases h with h | rfl
    · exact List.mem_of_mem_erase h
    · exact hm
  · rw [List.erase_append_right _ hm] at h
    simpa using h

section Steps

variable [DecidableEq M] {cfg : Config} {env : Env W M}

theorem earned_micro {x y : Phase M × State W M} (h : Micro cfg env x y) (hx : Earned x) :
    Earned y := by
  obtain ⟨hguard, hback⟩ := hx
  cases h with
  | metadata _ => exact ⟨hguard, _, rfl, hback⟩
  | metadataRaised _ _ => exact ⟨hguard.snoc trivial, trivial⟩
  | outOfOrder _ _ => exact ⟨hguard.snoc trivial, trivial⟩
  | inOrder _ => exact ⟨hguard, hback⟩
  | aside _ => exact ⟨hguard, hback.grow rfl (List.append_nil _).symm⟩
  | stageRaised _ _ _ => exact ⟨hguard.snoc trivial, trivial⟩
  | skipRaised _ _ => exact ⟨hguard.snoc trivial, trivial⟩
  | skipped =>
    obtain ⟨old, hpending, hold⟩ := hback
    exact ⟨hguard.snoc trivial, by simp, old, hpending, fun x hx => (hold x hx).append _⟩
  | @skipAcked m s r w _ _ =>
    obtain ⟨hskip, old, hpending, hold⟩ := hback
    have hack := hguard.snoc (e := .ack _) (Or.inl hskip)
    refine ⟨by simpa using guarded_raised hack _ _, fun x hx => ?_⟩
    have hx' : x ∈ old := by
      simp only [setVars_vars, pushOpt_vars, inWorld_vars, push_vars] at hx
      rw [show s.vars.pending = old ++ [m] from hpending] at hx
      exact mem_erase_last hx
    simpa using (hold x hx').append _
  | skipAckCrashed _ _ =>
    exact ⟨(hguard.snoc (e := .ack _) (Or.inl hback.1)).snoc trivial, trivial⟩
  | processed _ =>
    obtain ⟨old, hpending, hold⟩ := hback
    refine ⟨hguard.snoc trivial, fun x hx => ?_⟩
    have hmem : x ∈ old ++ [_] := hpending ▸ hx
    rcases List.mem_append.mp hmem with hx | hx
    · exact (hold x hx).append _
    · rw [List.mem_singleton] at hx
      exact ⟨_, _, by rw [hx]; exact List.mem_append_right _ (List.mem_singleton_self _)⟩
  | processRaised _ _ => exact ⟨hguard.snoc trivial, trivial⟩
  | catchUpRaised _ _ => exact ⟨hguard.snoc trivial, hback.grow rfl rfl⟩
  | started _ => exact ⟨hguard, hback⟩
  | flushed _ => exact ⟨hguard.snoc trivial, fun x hx => (hback x hx).flushed⟩
  | flushRaised _ _ => exact ⟨hguard.snoc trivial, trivial⟩
  | acked _ =>
    refine ⟨hguard.snoc (e := .ack _) (Or.inr (hback _ (by simp))), fun x hx => ?_⟩
    exact (hback x (List.mem_cons_of_mem _ hx)).append _
  | ackRaised _ _ =>
    exact ⟨(hguard.snoc (e := .ack _) (Or.inr (hback _ (by simp)))).snoc trivial, trivial⟩
  | ackCrashed _ _ =>
    exact ⟨(hguard.snoc (e := .ack _) (Or.inr (hback _ (by simp)))).snoc trivial, trivial⟩
  | flushDone => exact ⟨hguard, fun x hx => absurd hx List.not_mem_nil⟩
  | naked _ _ =>
    refine ⟨?_, trivial⟩
    simpa using guarded_raised (hguard.snoc (e := .nak _) trivial) _ _
  | nakCrashed _ _ => exact ⟨(hguard.snoc (e := .nak _) trivial).snoc trivial, trivial⟩
  | @nakDone next _ =>
    refine ⟨hguard, ?_⟩
    cases next with
    | none => exact fun x hx => absurd hx List.not_mem_nil
    | some e => trivial
  | crashed _ _ _ => exact ⟨hguard.snoc trivial, trivial⟩

theorem earned_session {s₀ : State W M} {x : Phase M × State W M} (h : Session cfg env s₀ x)
    (h₀ : Earned (.idle, s₀)) : Earned x := by
  induction h with
  | start => exact h₀
  | @took s m _ ih =>
    have htaken : Backed s (.taken m) := ih.2
    exact ⟨ih.1.snoc trivial, htaken.grow rfl rfl⟩
  | giveBack _ ih => exact ⟨ih.1, trivial⟩
  | micro _ hxy ih => exact earned_micro hxy ih

end Steps

/-! ## What failed is not acknowledged

The messages a failed call is held against.  When each delivery is an object of its
own, none of them has been or will be acknowledged. -/

def Call.blamed : Call M → List M
  | .metadata m | .sequence m | .decode m | .shouldSkip m | .migration m | .schema m
  | .process m => [m]
  | .flush batch => batch
  | .catchUp _ | .ackSkipped _ | .ackFlushed _ | .nak _ => []

def Failed (t : List (Obs M)) (m : M) : Prop := ∃ c e, .raised c e ∈ t ∧ m ∈ c.blamed

/-- What has failed has not been acknowledged. -/
def Withheld (t : List (Obs M)) : Prop := ∀ x, Failed t x → .ack x ∉ t

/-- So far nothing has failed, and what was acknowledged is out of the batch. -/
structure Clean (live : List M) (t : List (Obs M)) : Prop where
  unblamed : ∀ x, ¬ Failed t x
  taken : live.Sublist (tooks t)
  unacked : ∀ x, .ack x ∈ t → x ∈ tooks t ∧ x ∉ live

def Spared (s : State W M) : Phase M → Prop
  | .idle => Clean s.vars.pending s.trace
  | .taken m => Clean (s.vars.pending ++ [m]) s.trace
  | .held m _ => m ∈ s.vars.pending ∧ Clean s.vars.pending s.trace
  | .checked m _ => m ∈ s.vars.pending ∧ Clean s.vars.pending s.trace
  | .skipping m => m ∈ s.vars.pending ∧ Clean s.vars.pending s.trace
  | .acking rest => Clean [] s.trace ∧ ∀ x ∈ rest, x ∈ tooks s.trace
  | .nacking _ none => Clean [] s.trace
  | .nacking _ (some _) => Withheld s.trace
  | .raised _ => Withheld s.trace

/-- Neither a message handed in, nor an acknowledgement, nor a failure. -/
def Obs.neutral : Obs M → Prop
  | .skipped _ | .processed _ _ _ | .flushed | .nak _ => True
  | .raised c _ => c.blamed = []
  | .took _ | .ack _ => False

theorem failed_snoc {t : List (Obs M)} {o : Obs M} {x : M} :
    Failed (t ++ [o]) x ↔ Failed t x ∨ ∃ c e, o = .raised c e ∧ x ∈ c.blamed := by
  simp only [Failed, List.mem_append, List.mem_singleton, or_and_right, exists_or]
  exact or_congr Iff.rfl ⟨fun ⟨c, e, h, hx⟩ => ⟨c, e, h.symm, hx⟩,
    fun ⟨c, e, h, hx⟩ => ⟨c, e, h.symm, hx⟩⟩

theorem Obs.neutral.not_taken {o : Obs M} (ho : o.neutral) : o.taken = none := by
  cases o with
  | took m => cases ho
  | _ => rfl

theorem Clean.neutral {live : List M} {t : List (Obs M)} (h : Clean live t) {o : Obs M}
    (ho : o.neutral) : Clean live (t ++ [o]) := by
  have htooks : tooks (t ++ [o]) = tooks t := by simp [ho.not_taken]
  refine ⟨fun x hx => ?_, htooks ▸ h.taken, fun x hx => ?_⟩
  · rcases failed_snoc.mp hx with hx | ⟨c, e, rfl, hblamed⟩
    · exact h.unblamed x hx
    · rw [show c.blamed = [] from ho] at hblamed
      cases hblamed
  · rw [htooks]
    rw [List.mem_append, List.mem_singleton] at hx
    rcases hx with hx | rfl
    · exact h.unacked x hx
    · cases ho

theorem Clean.neutral_raised {live : List M} {t : List (Obs M)} (h : Clean live t) {c : Call M}
    (hc : c.blamed = []) (r : Option Exn) :
    Clean live (t ++ (r.map (Obs.raised c)).toList) := by
  cases r with
  | none => simpa using h
  | some e => exact h.neutral hc

theorem Clean.shrink {live live' : List M} {t : List (Obs M)} (h : Clean live t)
    (hsub : live'.Sublist live) : Clean live' t :=
  ⟨h.unblamed, hsub.trans h.taken, fun x hx =>
    ⟨(h.unacked x hx).1, fun hmem => (h.unacked x hx).2 (hsub.subset hmem)⟩⟩

theorem Clean.ack {live live' : List M} {t : List (Obs M)} (h : Clean live t) {m : M}
    (hm : m ∈ tooks t) (hsub : live'.Sublist live) (hlive : m ∉ live') :
    Clean live' (t ++ [.ack m]) := by
  have hclean := h.shrink hsub
  have htooks : tooks (t ++ [.ack m]) = tooks t := by simp [Obs.taken]
  refine ⟨fun x hx => ?_, htooks ▸ hclean.taken, fun x hx => ?_⟩
  · rcases failed_snoc.mp hx with hx | ⟨c, e, ho, _⟩
    · exact h.unblamed x hx
    · cases ho
  · rw [htooks]
    rw [List.mem_append, List.mem_singleton] at hx
    rcases hx with hx | hx
    · exact hclean.unacked x hx
    · cases hx
      exact ⟨hm, hlive⟩

theorem Clean.took {live : List M} {t : List (Obs M)} (h : Clean live t) {m : M}
    (hm : m ∉ tooks t) : Clean (live ++ [m]) (t ++ [.took m]) := by
  have htooks : tooks (t ++ [.took m]) = tooks t ++ [m] := by simp [Obs.taken]
  refine ⟨fun x hx => ?_, htooks ▸ h.taken.append (List.Sublist.refl [m]), fun x hx => ?_⟩
  · rcases failed_snoc.mp hx with hx | ⟨c, e, ho, _⟩
    · exact h.unblamed x hx
    · cases ho
  · rw [List.mem_append, List.mem_singleton] at hx
    rcases hx with hx | hx
    · obtain ⟨htook, hlive⟩ := h.unacked x hx
      refine ⟨by rw [htooks]; exact List.mem_append_left _ htook, fun hmem => ?_⟩
      rcases List.mem_append.mp hmem with hmem | hmem
      · exact hlive hmem
      · rw [List.mem_singleton] at hmem
        exact hm (hmem ▸ htook)
    · cases hx

/-- A failure is held against messages of the batch, none of which is acknowledged. -/
theorem Clean.blame {live : List M} {t : List (Obs M)} (h : Clean live t) {c : Call M} {e : Exn}
    (hc : ∀ x ∈ c.blamed, x ∈ live) :
    Withheld (t ++ [.raised c e]) := by
  intro x hx hack
  have hack : .ack x ∈ t := by simpa using hack
  rcases failed_snoc.mp hx with hx | ⟨c', e', ho, hx⟩
  · exact h.unblamed x hx
  · cases ho
    exact (h.unacked x hack).2 (hc x hx)

theorem Withheld.neutral {t : List (Obs M)} (h : Withheld t) {o : Obs M} (ho : o.neutral) :
    Withheld (t ++ [o]) := by
  intro x hx hack
  rcases failed_snoc.mp hx with hx | ⟨c, e, rfl, hblamed⟩
  · rw [List.mem_append, List.mem_singleton] at hack
    rcases hack with hack | rfl
    · exact h x hx hack
    · cases ho
  · rw [show c.blamed = [] from ho] at hblamed
    cases hblamed

theorem Withheld.neutral_raised {t : List (Obs M)} (h : Withheld t) {c : Call M}
    (hc : c.blamed = []) (r : Option Exn) : Withheld (t ++ (r.map (Obs.raised c)).toList) := by
  cases r with
  | none => simpa using h
  | some e => exact h.neutral hc

theorem Clean.withheld {live : List M} {t : List (Obs M)} (h : Clean live t) : Withheld t :=
  fun x hx => absurd hx (h.unblamed x)

theorem spared_inWorld {s : State W M} {w : W} {ph : Phase M} :
    Spared (s.inWorld w) ph ↔ Spared s ph := by
  cases ph with
  | nacking rest next => cases next <;> exact Iff.rfl
  | _ => exact Iff.rfl

theorem atStake_blamed {s : State W M} {ph : Phase M} {c : Call M} (hc : AtStake s ph c)
    (h : Spared s ph) {e : Exn} {t : List (Obs M)} (ht : t = s.trace ++ [.raised c e]) :
    Withheld t := by
  subst ht
  cases hc with
  | metadata => exact Clean.blame h (by simp [Call.blamed])
  | stage hstage =>
    refine Clean.blame h.2 fun x hx => ?_
    cases hstage <;> (rw [List.mem_singleton.mp hx]; exact h.1)
  | process => exact Clean.blame h.2 (by simpa [Call.blamed] using h.1)
  | catchUp => exact Clean.blame h (by simp [Call.blamed])
  | flush => exact Clean.blame h fun x hx => hx

section Failures

variable [DecidableEq M] {cfg : Config} {env : Env W M}

theorem spared_micro {x y : Phase M × State W M} (h : Micro cfg env x y)
    (hnodup : (tooks x.2.trace).Nodup) (hx : Spared x.2 x.1) : Spared y.2 y.1 := by
  cases h with
  | metadata _ => exact ⟨List.mem_append_right _ (List.mem_singleton_self _), hx⟩
  | metadataRaised _ _ => exact Clean.blame hx (by simp [Call.blamed])
  | outOfOrder _ _ => exact Clean.blame hx.2 (by simpa [Call.blamed] using hx.1)
  | inOrder _ => exact hx
  | aside _ => exact spared_inWorld.mpr hx
  | stageRaised hc _ _ => exact atStake_blamed (.stage hc) hx rfl
  | skipRaised _ _ => exact Clean.blame hx.2 (by simpa [Call.blamed] using hx.1)
  | skipped => exact ⟨hx.1, hx.2.neutral trivial⟩
  | @skipAcked m s r w _ _ =>
    obtain ⟨hm, hclean⟩ := hx
    have hack := hclean.ack (hclean.taken.subset hm) List.erase_sublist
      (hclean.taken.nodup hnodup |>.not_mem_erase)
    show Clean _ _
    simpa using hack.neutral_raised (c := .ackSkipped m) rfl r
  | @skipAckCrashed m s e w _ _ =>
    obtain ⟨hm, hclean⟩ := hx
    have hack := hclean.ack (hclean.taken.subset hm) (List.nil_sublist _) List.not_mem_nil
    exact (hack.neutral (o := .raised (.ackSkipped m) e) rfl).withheld
  | processed _ => exact hx.2.neutral trivial
  | processRaised _ _ => exact Clean.blame hx.2 (by simpa [Call.blamed] using hx.1)
  | catchUpRaised _ _ => exact Clean.neutral hx rfl
  | started _ => exact hx
  | flushed _ =>
    have hflush : Clean _ _ := Clean.neutral hx (o := .flushed) trivial
    exact ⟨hflush.shrink (List.nil_sublist _), fun x hx => hflush.taken.subset hx⟩
  | flushRaised _ _ => exact Clean.blame hx fun x hx => hx
  | acked _ =>
    refine ⟨hx.1.ack (hx.2 _ (by simp)) (List.nil_sublist _) List.not_mem_nil, fun x hmem => ?_⟩
    simpa [Obs.taken] using hx.2 x (List.mem_cons_of_mem _ hmem)
  | @ackRaised m rest s e w _ _ =>
    have hack := hx.1.ack (hx.2 m List.mem_cons_self) (List.nil_sublist _) List.not_mem_nil
    exact (hack.neutral (o := .raised (.ackFlushed m) e) rfl).withheld
  | @ackCrashed m rest s e w _ _ =>
    have hack := hx.1.ack (hx.2 m List.mem_cons_self) (List.nil_sublist _) List.not_mem_nil
    exact (hack.neutral (o := .raised (.ackFlushed m) e) rfl).withheld
  | flushDone => exact hx.1
  | @naked m rest next s r w _ _ =>
    cases next with
    | none =>
      show Clean _ _
      simpa using (Clean.neutral hx (o := .nak m) trivial).neutral_raised (c := .nak m) rfl r
    | some e =>
      show Withheld _
      simpa using (Withheld.neutral hx (o := .nak m) trivial).neutral_raised (c := .nak m) rfl r
  | @nakCrashed m rest next s e w _ _ =>
    cases next with
    | none =>
      have hnak := Clean.neutral hx (o := .nak m) trivial
      exact (hnak.neutral (o := .raised (.nak m) e) rfl).withheld
    | some _ =>
      have hnak := Withheld.neutral hx (o := .nak m) trivial
      exact hnak.neutral (o := .raised (.nak m) e) rfl
  | @nakDone next s =>
    cases next with
    | none => exact hx
    | some e => exact hx
  | crashed hc _ _ => exact atStake_blamed hc hx rfl

theorem spared_session {s₀ : State W M} {x : Phase M × State W M} (h : Session cfg env s₀ x)
    (h₀ : Spared s₀ .idle) (hnodup : (tooks x.2.trace).Nodup) : Spared x.2 x.1 := by
  induction h with
  | start => exact h₀
  | @took s m _ ih =>
    have htooks : (tooks s.trace ++ [m]).Nodup := by simpa [Obs.taken] using hnodup
    refine Clean.took (ih (List.nodup_append.mp htooks).1) fun hm => ?_
    exact (List.nodup_append.mp htooks).2.2 m hm m (List.mem_singleton_self m) rfl
  | giveBack _ ih => exact Clean.shrink (ih hnodup) (List.nil_sublist _)
  | micro _ hxy ih =>
    rw [micro_tooks hxy] at hnodup
    exact spared_micro hxy hnodup (ih hnodup)

end Failures

theorem Spared.withheld {s : State W M} {ph : Phase M} (h : Spared s ph) : Withheld s.trace := by
  cases ph with
  | idle => exact Clean.withheld h
  | taken m => exact Clean.withheld h
  | held m seq => exact h.2.withheld
  | checked m seq => exact h.2.withheld
  | skipping m => exact h.2.withheld
  | acking rest => exact h.1.withheld
  | nacking rest next =>
    cases next with
    | none => exact Clean.withheld h
    | some e => exact h
  | raised e => exact h

/-! ## Runs of the bufferer -/

theorem initial_earned (queue : List (Option M)) (cancel : Bool) (sequence : Int) (w : W) :
    Earned (.idle, (Bufferer.initial queue cancel sequence w).processor) :=
  ⟨guarded_nil, fun _ hx => absurd hx List.not_mem_nil⟩

theorem initial_spared (queue : List (Option M)) (cancel : Bool) (sequence : Int) (w : W) :
    Spared (Bufferer.initial queue cancel sequence w).processor .idle := by
  refine ⟨fun x hx => ?_, List.Sublist.refl [], fun x hx => absurd hx List.not_mem_nil⟩
  obtain ⟨c, e, hmem, _⟩ := hx
  exact List.not_mem_nil hmem

section Runs

variable [DecidableEq M]

theorem tooks_nodup {cfg : Config} {env : Env W M} {queue : List (Option M)} {cancel : Bool}
    {sequence : Int} {w : W} {moves : List (Bufferer.Move M)}
    (h : ((Bufferer.offered queue moves).filterMap id).Nodup) :
    (tooks ((Bufferer.initial queue cancel sequence w).exec cfg env moves).processor.trace).Nodup := by
  have hsplit : ∀ (l : List M) (q : List (Option M)),
      (l.map some ++ q).filterMap id = l ++ q.filterMap id := by
    intro l q
    rw [List.filterMap_append, List.filterMap_map]
    simp
  rcases Bufferer.accounts_initial cfg env queue cancel sequence w moves with hq | ⟨_, hq⟩
  · rw [hq, hsplit] at h
    exact (List.nodup_append.mp h).1
  · rw [hq, hsplit] at h
    exact (List.nodup_append.mp h).1

/-- Acknowledging at least once.  In every run of the drain task a message is
acknowledged only after it was skipped, or after it was processed and the driver
then flushed; and if each delivery is an object of its own, a message for which some
step failed is never acknowledged. -/
theorem ack_only_of_skipped_or_flushed (cfg : Config) (env : Env W M) (queue : List (Option M))
    (cancel : Bool) (sequence : Int) (w : W) (moves : List (Bufferer.Move M)) :
    let t := ((Bufferer.initial queue cancel sequence w).exec cfg env moves).processor.trace
    (∀ pre m post, t = pre ++ .ack m :: post →
      .skipped m ∈ pre ∨
        ∃ before after, pre = before ++ .flushed :: after ∧
          ∃ seq evt, .processed m seq evt ∈ before) ∧
    (((Bufferer.offered queue moves).filterMap id).Nodup →
      ∀ m call e, .raised call e ∈ t → m ∈ call.blamed → .ack m ∉ t) := by
  obtain ⟨ph, hsession, _⟩ := Bufferer.follows_exec
    (b := Bufferer.initial queue cancel sequence w) ⟨.idle, .start, rfl⟩ moves
  constructor
  · intro pre m post ht
    exact (earned_session hsession (initial_earned queue cancel sequence w)).1 pre (.ack m) post ht
  · intro hnodup m call e hmem hblamed
    have hspared := spared_session hsession (initial_spared queue cancel sequence w)
      (tooks_nodup hnodup)
    exact hspared.withheld m ⟨call, e, hmem, hblamed⟩

end Runs

theorem ack_only_of_skipped_or_flushed_pairs :
    let t := ((Bufferer.initial [some 1, some 2, some 4, none] false 0 ()).exec Config.pairs
      Env.obliging [.turn, .turn, .turn]).processor.trace
    ∀ m call e, .raised call e ∈ t → m ∈ call.blamed → .ack m ∉ t :=
  (ack_only_of_skipped_or_flushed Config.pairs Env.obliging [some 1, some 2, some 4, none] false 0
    () [.turn, .turn, .turn]).2 (by decide)

end Consumer
end Eds
