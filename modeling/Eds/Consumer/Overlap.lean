import Eds.Consumer.Lifecycle
import Eds.Effects.History

/-!
# Acknowledged and given back

A flush acknowledges the batch one message after the other and clears it at the end, and
an `ack` that fails hands the whole batch to the loop that gives it back.  So the messages
that were acknowledged before the failure are given back as well, and none are exactly when
the failing one is the first of its batch.  `FirstAck` says this of a trace, and
`disposed_once_iff` that a run disposes of every message once if and only if its trace
has it.

A run is a list of requests from outside, worked through until one of them raises: after
that the drain task, the only caller, makes no other.
-/

namespace Eds
namespace Consumer

open Effects Effects.Prog Effects.Traced

variable {W M : Type}

/-! ## Runs -/

inductive Request (M : Type) where
  | message (m : M)
  | idle
  | flush
  | nackEverything

def Request.handedIn : Request M → Option M
  | .message m => some m
  | .idle | .flush | .nackEverything => none

def Request.run [DecidableEq M] (cfg : Config) (env : Env W M) : Request M → Proc W M Unit
  | .message m => processMessage cfg env m
  | .idle => onIdle cfg env
  | .flush => Consumer.flush env
  | .nackEverything => Consumer.nackEverything env

/-- A new processor. -/
def State.new (sequence : Int) (w : W) : State W M := ⟨⟨[], none, sequence⟩, w, []⟩

/-- The trace of a run. -/
def dispositions [DecidableEq M] (cfg : Config) (env : Env W M) (sequence : Int) (w : W)
    (requests : List (Request M)) : List (Obs M) :=
  (each (Request.run cfg env) requests (State.new sequence w)).2.trace

/-! ## What is asked of a trace -/

def Obs.ackRaised (m : M) : Obs M → Prop
  | .raised (.ackFlushed x) _ | .raised (.ackSkipped x) _ => x = m
  | _ => False

/-- An `ack` of the message is not followed at once by its own exception. -/
def Returned (t : List (Obs M)) (m : M) : Prop :=
  ∃ pre post, t = pre ++ .ack m :: post ∧ ∀ o ∈ post.head?, ¬ o.ackRaised m

def DisposedOnce (pre : List (Obs M)) : Obs M → Prop
  | .ack m => .ack m ∉ pre
  | .nak m => ¬ Returned pre m
  | _ => True

/-- An `ack` that fails after a flush is the first one after it. -/
def FirstAck (pre : List (Obs M)) : Obs M → Prop
  | .raised (.ackFlushed m) e => e.isException = true → ∃ a, pre = a ++ [.flushed, .ack m]
  | _ => True

/-! ## Messages that are still to be disposed of -/

/-- The messages `live` were handed in and are not acknowledged. -/
structure Live (live : List M) (t : List (Obs M)) : Prop where
  taken : live.Sublist (tooks t)
  unacked : ∀ x, .ack x ∈ t → x ∈ tooks t ∧ x ∉ live

/-- Neither a message handed in nor an acknowledgement. -/
def Obs.passive : Obs M → Prop
  | .took _ | .ack _ => False
  | _ => True

theorem Obs.passive.not_taken {o : Obs M} (ho : o.passive) : o.taken = none := by
  cases o with
  | took m => cases ho
  | _ => rfl

theorem Live.passive {live : List M} {t : List (Obs M)} (h : Live live t) {o : Obs M}
    (ho : o.passive) : Live live (t ++ [o]) := by
  have htooks : tooks (t ++ [o]) = tooks t := by simp [ho.not_taken]
  refine ⟨htooks ▸ h.taken, fun x hx => ?_⟩
  rw [htooks]
  rw [List.mem_append, List.mem_singleton] at hx
  rcases hx with hx | rfl
  · exact h.unacked x hx
  · cases ho

theorem Live.passive_opt {live : List M} {t : List (Obs M)} (h : Live live t) {c : Call M}
    (r : Option Exn) : Live live (t ++ (r.map (Obs.raised c)).toList) := by
  cases r with
  | none => simpa using h
  | some e => exact h.passive trivial

theorem Live.shrink {live live' : List M} {t : List (Obs M)} (h : Live live t)
    (hsub : live'.Sublist live) : Live live' t :=
  ⟨hsub.trans h.taken, fun x hx =>
    ⟨(h.unacked x hx).1, fun hmem => (h.unacked x hx).2 (hsub.subset hmem)⟩⟩

theorem Live.ack {live live' : List M} {t : List (Obs M)} (h : Live live t) {m : M}
    (hm : m ∈ tooks t) (hsub : live'.Sublist live) (hlive : m ∉ live') :
    Live live' (t ++ [.ack m]) := by
  have hshrunk := h.shrink hsub
  have htooks : tooks (t ++ [.ack m]) = tooks t := by simp [Obs.taken]
  refine ⟨htooks ▸ hshrunk.taken, fun x hx => ?_⟩
  rw [htooks]
  rw [List.mem_append, List.mem_singleton] at hx
  rcases hx with hx | hx
  · exact hshrunk.unacked x hx
  · cases hx
    exact ⟨hm, hlive⟩

theorem Live.took {live : List M} {t : List (Obs M)} (h : Live live t) {m : M}
    (hm : m ∉ tooks t) : Live (live ++ [m]) (t ++ [.took m]) := by
  have htooks : tooks (t ++ [.took m]) = tooks t ++ [m] := by simp [Obs.taken]
  refine ⟨htooks ▸ h.taken.append (List.Sublist.refl [m]), fun x hx => ?_⟩
  rw [List.mem_append, List.mem_singleton] at hx
  rcases hx with hx | hx
  · obtain ⟨htook, hlive⟩ := h.unacked x hx
    refine ⟨by rw [htooks]; exact List.mem_append_left _ htook, fun hmem => ?_⟩
    rcases List.mem_append.mp hmem with hmem | hmem
    · exact hlive hmem
    · rw [List.mem_singleton] at hmem
      exact hm (hmem ▸ htook)
  · cases hx

theorem Live.unacked_of_mem {live : List M} {t : List (Obs M)} (h : Live live t) {x : M}
    (hx : x ∈ live) : .ack x ∉ t := fun hack => (h.unacked x hack).2 hx

/-! ## Acknowledgements that returned -/

theorem not_returned_of_unacked {t : List (Obs M)} {m : M} (h : .ack m ∉ t) : ¬ Returned t m := by
  intro hret
  obtain ⟨pre, post, hcut, _⟩ := hret
  exact h (by rw [hcut]; simp)

/-- Only another `ack` can make a message one whose `ack` returned. -/
theorem Returned.of_snoc {t : List (Obs M)} {o : Obs M} {m : M} (h : Returned (t ++ [o]) m)
    (ho : o ≠ .ack m) : Returned t m := by
  obtain ⟨pre, post, hcut, hpost⟩ := h
  rcases snoc_eq_append_cons.mp hcut with ⟨_, _, rfl⟩ | ⟨post', rfl, hpre⟩
  · exact absurd rfl ho
  · refine ⟨pre, post', hpre, fun x hx => hpost x ?_⟩
    cases post' with
    | nil => cases hx
    | cons y rest => exact hx

theorem not_returned_opt {t : List (Obs M)} {m : M} (h : ¬ Returned t m) {c : Call M}
    (r : Option Exn) : ¬ Returned (t ++ (r.map (Obs.raised c)).toList) m := by
  cases r with
  | none => simpa using h
  | some e => exact fun hret => h (hret.of_snoc (by simp))

/-- The first `ack` of a message, with its exception after it. -/
theorem not_returned_of_raised {t : List (Obs M)} {m : M} {e : Exn} (h : .ack m ∉ t) :
    ¬ Returned (t ++ [.ack m] ++ [.raised (.ackFlushed m) e]) m := by
  intro hret
  obtain ⟨pre, post, hcut, hpost⟩ := hret
  rcases snoc_eq_append_cons.mp hcut with ⟨_, _, ho⟩ | ⟨post', rfl, hpre⟩
  · cases ho
  · rcases snoc_eq_append_cons.mp hpre with ⟨rfl, _, _⟩ | ⟨post'', _, hpre⟩
    · exact hpost _ rfl rfl
    · exact h (by rw [hpre]; simp)

/-- The first of several messages that were acknowledged one after the other, up to a failure
of a later one. -/
theorem returned_of_acked {t done : List (Obs M)} {m x : M} {e : Exn}
    (hdone : ∀ o ∈ done, ∃ y, o = .ack y) :
    Returned (t ++ .ack m :: done ++ [.ack x] ++ [.raised (.ackFlushed x) e]) m := by
  refine ⟨t, done ++ [.ack x] ++ [.raised (.ackFlushed x) e], by simp, fun o ho => ?_⟩
  cases done with
  | nil =>
    cases ho
    exact id
  | cons y rest =>
    obtain ⟨z, hz⟩ := hdone y List.mem_cons_self
    cases ho
    rw [hz]
    exact id

/-! ## What holds in each phase -/

/-- So far every message was disposed of at most once and no `ack` failed but the first of
its batch. -/
def Clear (t : List (Obs M)) : Prop := Guarded DisposedOnce t ∧ Guarded FirstAck t

/-- Neither holds any more. -/
def Broken (t : List (Obs M)) : Prop := ¬ Guarded DisposedOnce t ∧ ¬ Guarded FirstAck t

/-- The messages of the batch before `rest` were acknowledged since the driver flushed. -/
def Acking (pending rest : List M) (t : List (Obs M)) : Prop :=
  pending.Sublist (tooks t) ∧ ∃ a done, t = a ++ .flushed :: done.map .ack ∧ pending = done ++ rest

/-- A failure is being answered that was not the first of its batch, and the next message to
be given back is acknowledged. -/
def Breaking (rest : List M) (t : List (Obs M)) : Prop :=
  Guarded DisposedOnce t ∧ ¬ Guarded FirstAck t ∧ ∃ m ∈ rest.head?, Returned t m

def Owing (s : State W M) : Phase M → Prop
  | .idle => Clear s.trace ∧ Live s.vars.pending s.trace
  | .taken m => Clear s.trace ∧ Live (s.vars.pending ++ [m]) s.trace
  | .held m _ => Clear s.trace ∧ m ∈ s.vars.pending ∧ Live s.vars.pending s.trace
  | .checked m _ => Clear s.trace ∧ m ∈ s.vars.pending ∧ Live s.vars.pending s.trace
  | .skipping m => Clear s.trace ∧ m ∈ s.vars.pending ∧ Live s.vars.pending s.trace
  | .acking rest => Clear s.trace ∧ Live rest s.trace ∧ Acking s.vars.pending rest s.trace
  | .nacking rest none => Clear s.trace ∧ Live [] s.trace ∧ ∀ x ∈ rest, ¬ Returned s.trace x
  | .nacking rest (some _) =>
    (Clear s.trace ∧ ∀ x ∈ rest, ¬ Returned s.trace x) ∨ Breaking rest s.trace
  | .raised _ => Clear s.trace

def Once (x : Phase M × State W M) : Prop := Broken x.2.trace ∨ Owing x.2 x.1

theorem Broken.append {t : List (Obs M)} (h : Broken t) (es : List (Obs M)) : Broken (t ++ es) :=
  ⟨fun hg => h.1 hg.of_append, fun hg => h.2 hg.of_append⟩

/-- The message that was acknowledged is given back. -/
theorem Breaking.nak {m : M} {rest : List M} {t : List (Obs M)} (h : Breaking (m :: rest) t) :
    Broken (t ++ [.nak m]) := by
  obtain ⟨_, hfirst, x, hhead, hret⟩ := h
  cases hhead
  exact ⟨fun hguard => (guarded_snoc.mp hguard).2 hret, fun hguard => hfirst hguard.of_append⟩

theorem Clear.snoc {t : List (Obs M)} (h : Clear t) {o : Obs M} (ho : DisposedOnce t o)
    (hfirst : FirstAck t o) : Clear (t ++ [o]) := ⟨h.1.snoc ho, h.2.snoc hfirst⟩

theorem Clear.ack {t : List (Obs M)} (h : Clear t) {m : M} (hm : .ack m ∉ t) :
    Clear (t ++ [.ack m]) := h.snoc hm trivial

theorem Clear.nak {t : List (Obs M)} (h : Clear t) {m : M} (hm : ¬ Returned t m) :
    Clear (t ++ [.nak m]) := h.snoc hm trivial

/-- The exception of any call but the `ack` of a flushed message. -/
theorem Clear.raised {t : List (Obs M)} (h : Clear t) {c : Call M} {e : Exn}
    (hc : ∀ m, c ≠ .ackFlushed m) : Clear (t ++ [.raised c e]) := by
  refine h.snoc trivial ?_
  cases c with
  | ackFlushed m => exact absurd rfl (hc m)
  | _ => trivial

theorem Clear.raised_opt {t : List (Obs M)} (h : Clear t) {c : Call M}
    (hc : ∀ m, c ≠ .ackFlushed m) (r : Option Exn) :
    Clear (t ++ (r.map (Obs.raised c)).toList) := by
  cases r with
  | none => simpa using h
  | some e => exact h.raised hc

/-- A failure outside the acknowledging: the batch it hands over is unacknowledged. -/
theorem Clear.give_back {t : List (Obs M)} (h : Clear t) {live : List M} (hlive : Live live t)
    {c : Call M} {e : Exn} (hc : ∀ m, c ≠ .ackFlushed m) {batch : List M}
    (hsub : ∀ x ∈ batch, x ∈ live) :
    Clear (t ++ [.raised c e]) ∧ ∀ x ∈ batch, ¬ Returned (t ++ [.raised c e]) x := by
  refine ⟨h.raised hc, fun x hx => not_returned_of_unacked ?_⟩
  exact (hlive.passive (o := .raised c e) trivial).unacked_of_mem (hsub x hx)

theorem Stage.not_ack {m x : M} {c : Call M} (h : Stage m c) : c ≠ .ackFlushed x := by
  cases h <;> (intro heq; cases heq)

theorem AtStake.not_ack {s : State W M} {ph : Phase M} {c : Call M} {x : M}
    (h : AtStake s ph c) : c ≠ .ackFlushed x := by
  cases h with
  | stage hc => exact hc.not_ack
  | _ => intro heq; cases heq

/-! ## Where requests start -/

/-- Between two requests: nothing is broken off, and the messages to come are new. -/
def Between (rest : List (Request M)) (s : State W M) : Prop :=
  Once (.idle, s) ∧ (tooks s.trace ++ rest.filterMap Request.handedIn).Nodup

theorem once_raised {s : State W M} {e : Exn} (h : Once (.raised e, s)) :
    Guarded DisposedOnce s.trace ↔ Guarded FirstAck s.trace := by
  rcases h with hbroken | hclear
  · exact iff_of_false hbroken.1 hbroken.2
  · exact iff_of_true hclear.1 hclear.2

theorem once_idle {s : State W M} (h : Once (.idle, s)) :
    Guarded DisposedOnce s.trace ↔ Guarded FirstAck s.trace := by
  rcases h with hbroken | howing
  · exact iff_of_false hbroken.1 hbroken.2
  · exact iff_of_true howing.1.1 howing.1.2

theorem once_taken {s : State W M} {m : M} (h : Once (.idle, s)) (hm : m ∉ tooks s.trace) :
    Once (.taken m, s.push (.took m)) := by
  rcases h with hbroken | howing
  · exact Or.inl (hbroken.append _)
  · exact Or.inr ⟨howing.1.snoc trivial trivial, howing.2.took hm⟩

theorem once_giveBack {s : State W M} (h : Once (.idle, s)) :
    Once (.nacking s.vars.pending none, s) := by
  rcases h with hbroken | howing
  · exact Or.inl hbroken
  · refine Or.inr ⟨howing.1, howing.2.shrink (List.nil_sublist _), fun x hx => ?_⟩
    exact not_returned_of_unacked (howing.2.unacked_of_mem hx)

theorem between_new {sequence : Int} {w : W} {requests : List (Request M)}
    (h : (requests.filterMap Request.handedIn).Nodup) :
    Between requests (State.new sequence w) := by
  refine ⟨Or.inr ⟨⟨guarded_nil, guarded_nil⟩, List.Sublist.refl [], fun x hx => ?_⟩, h⟩
  exact absurd hx List.not_mem_nil

/-! ## Every move keeps it -/

section Steps

variable [DecidableEq M] {cfg : Config} {env : Env W M}

theorem micro_grows {x y : Phase M × State W M} (h : Micro cfg env x y) :
    ∃ es, y.2.trace = x.2.trace ++ es := by
  cases h <;> exact ⟨_, by simp; rfl⟩

/-- An `ack` after a flush that fails.  Either it is the first one and the batch that is given
back is unacknowledged, or the batch starts with a message whose `ack` returned. -/
theorem ack_fails {m : M} {rest : List M} {s : State W M} {e : Exn} (he : e.isException = true)
    (hclear : Clear s.trace) (hlive : Live (m :: rest) s.trace)
    (hacking : Acking s.vars.pending (m :: rest) s.trace) :
    let t := s.trace ++ [.ack m] ++ [.raised (.ackFlushed m) e]
    (Clear t ∧ ∀ x ∈ s.vars.pending, ¬ Returned t x) ∨ Breaking s.vars.pending t := by
  intro t
  obtain ⟨_, a, done, htrace, hpending⟩ := hacking
  have hm : .ack m ∉ s.trace := hlive.unacked_of_mem List.mem_cons_self
  have hack : Clear (s.trace ++ [.ack m]) := hclear.ack hm
  cases done with
  | nil =>
    rw [List.map_nil] at htrace
    rw [List.nil_append] at hpending
    refine Or.inl ⟨hack.snoc trivial fun _ => ⟨a, by rw [htrace]; simp⟩, fun x hx => ?_⟩
    by_cases hxm : x = m
    · rw [hxm]
      exact not_returned_of_raised hm
    · have hx' : .ack x ∉ s.trace := hlive.unacked_of_mem (hpending ▸ hx)
      exact not_returned_of_unacked (by simp [t, hx', hxm])
  | cons first done =>
    right
    refine ⟨hack.1.snoc trivial, fun hguard => ?_, first, by rw [hpending]; rfl, ?_⟩
    · obtain ⟨a', hcut⟩ := (guarded_snoc.mp hguard).2 he
      have hlast : s.trace.getLast? = some .flushed := by
        have hinit : s.trace ++ [.ack m] = (a' ++ [.flushed]) ++ [.ack m] := by simpa using hcut
        rw [List.append_cancel_right hinit]
        simp
      rw [htrace] at hlast
      rcases List.eq_nil_or_concat done with rfl | ⟨done', y, rfl⟩
      · simp at hlast
      · have hack : some (Obs.ack y) = some .flushed := by
          rw [← hlast, List.concat_eq_append]
          simp [List.getLast?_append, List.getLast?_cons]
        cases hack
    · have hacks : ∀ o ∈ done.map Obs.ack, ∃ y, o = .ack y := by
        intro o ho
        obtain ⟨y, _, hy⟩ := List.mem_map.mp ho
        exact ⟨y, hy.symm⟩
      have hret := returned_of_acked (t := a ++ [.flushed]) (m := first) (x := m) (e := e) hacks
      have ht : t = a ++ [.flushed] ++ .ack first :: done.map .ack ++ [.ack m] ++
          [.raised (.ackFlushed m) e] := by
        simp only [t, htrace, List.map_cons, List.append_assoc, List.cons_append, List.nil_append]
      rw [ht]
      exact hret

theorem owing_micro {x y : Phase M × State W M} (h : Micro cfg env x y)
    (hnodup : (tooks x.2.trace).Nodup) (hx : Owing x.2 x.1) : Once y := by
  cases h with
  | metadata _ =>
    exact Or.inr ⟨hx.1, List.mem_append_right _ (List.mem_singleton_self _), hx.2⟩
  | metadataRaised _ _ =>
    exact Or.inr (Or.inl (hx.1.give_back hx.2 (fun _ heq => by cases heq)
      fun _ hmem => List.mem_append_left _ hmem))
  | outOfOrder _ _ =>
    exact Or.inr (Or.inl (hx.1.give_back hx.2.2 (fun _ heq => by cases heq) fun _ hmem => hmem))
  | inOrder _ => exact Or.inr hx
  | @aside ph s w _ =>
    right
    cases ph with
    | nacking rest next => cases next <;> exact hx
    | _ => exact hx
  | stageRaised hc _ _ =>
    exact Or.inr (Or.inl (hx.1.give_back hx.2.2 (fun _ => hc.not_ack) fun _ hmem => hmem))
  | skipRaised _ _ => exact Or.inr (hx.1.raised fun _ heq => by cases heq)
  | skipped => exact Or.inr ⟨hx.1.snoc trivial trivial, hx.2.1, hx.2.2.passive trivial⟩
  | @skipAcked m s r w _ _ =>
    obtain ⟨hclear, hm, hlive⟩ := hx
    have hack : Live (s.vars.pending.erase m) (s.trace ++ [.ack m]) :=
      hlive.ack (hlive.taken.subset hm) List.erase_sublist (hlive.taken.nodup hnodup).not_mem_erase
    have hclear' := hclear.ack (hlive.unacked_of_mem hm)
    right
    refine ⟨?_, ?_⟩
    · simpa using hclear'.raised_opt (c := .ackSkipped m) (fun _ heq => by cases heq) r
    · simpa using hack.passive_opt (c := .ackSkipped m) r
  | @skipAckCrashed m s e w _ _ =>
    obtain ⟨hclear, hm, hlive⟩ := hx
    exact Or.inr ((hclear.ack (hlive.unacked_of_mem hm)).raised fun _ heq => by cases heq)
  | processed _ => exact Or.inr ⟨hx.1.snoc trivial trivial, hx.2.2.passive trivial⟩
  | processRaised _ _ =>
    exact Or.inr (Or.inl (hx.1.give_back hx.2.2 (fun _ heq => by cases heq) fun _ hmem => hmem))
  | catchUpRaised _ _ =>
    exact Or.inr ⟨hx.1.raised fun _ heq => (by cases heq), hx.2.passive trivial⟩
  | started _ => exact Or.inr hx
  | flushed _ =>
    have hlive := hx.2.passive (o := .flushed) trivial
    exact Or.inr ⟨hx.1.snoc trivial trivial, hlive, hlive.taken, _, [], rfl, rfl⟩
  | flushRaised _ _ =>
    exact Or.inr (Or.inl (hx.1.give_back hx.2 (fun _ heq => by cases heq) fun _ hmem => hmem))
  | @acked m rest s w _ =>
    obtain ⟨hclear, hlive, htaken, a, done, htrace, hpending⟩ := hx
    have hnotin : m ∉ rest := (List.nodup_cons.mp (hlive.taken.nodup hnodup)).1
    have hrest := hlive.ack (hlive.taken.subset List.mem_cons_self) (List.sublist_cons_self m rest)
      hnotin
    right
    refine ⟨hclear.ack (hlive.unacked_of_mem List.mem_cons_self), hrest, ?_, a, done ++ [m], ?_, ?_⟩
    · simpa [Obs.taken] using htaken
    · have htrace : s.trace = _ := htrace
      simp [htrace]
    · simpa using hpending
  | @ackRaised m rest s e w he _ =>
    exact Or.inr (ack_fails he hx.1 hx.2.1 hx.2.2)
  | @ackCrashed m rest s e w he _ =>
    have hack := hx.1.ack (hx.2.1.unacked_of_mem List.mem_cons_self)
    exact Or.inr (hack.snoc trivial fun he' => absurd he' (by simp [he]))
  | flushDone => exact Or.inr ⟨hx.1, hx.2.1⟩
  | @naked m rest next s r w _ _ =>
    have hkeep : ∀ t : List (Obs M), Clear t → (∀ x ∈ m :: rest, ¬ Returned t x) →
        Clear (t ++ [.nak m] ++ (r.map (Obs.raised (.nak m))).toList) ∧
          ∀ x ∈ rest, ¬ Returned (t ++ [.nak m] ++ (r.map (Obs.raised (.nak m))).toList) x := by
      intro t hclear hret
      refine ⟨(hclear.nak (hret m List.mem_cons_self)).raised_opt (fun _ heq => by cases heq) r,
        fun x hx => not_returned_opt (fun hx' => ?_) r⟩
      exact hret x (List.mem_cons_of_mem m hx) (hx'.of_snoc (by simp))
    cases next with
    | none =>
      obtain ⟨hclear, hlive, hret⟩ := hx
      have howing := hkeep _ hclear hret
      right
      refine ⟨by simpa using howing.1, ?_, by simpa using howing.2⟩
      simpa using (hlive.passive (o := .nak m) trivial).passive_opt (c := .nak m) r
    | some e =>
      rcases hx with ⟨hclear, hret⟩ | hbreaking
      · right
        left
        simpa using hkeep _ hclear hret
      · left
        simpa using hbreaking.nak.append _
  | @nakCrashed m rest next s e w _ _ =>
    have hkeep : ¬ Returned s.trace m → Clear s.trace →
        Clear (s.trace ++ [.nak m] ++ [.raised (.nak m) e]) :=
      fun hret hclear => (hclear.nak hret).raised fun _ heq => by cases heq
    cases next with
    | none => exact Or.inr (hkeep (hx.2.2 m List.mem_cons_self) hx.1)
    | some _ =>
      rcases hx with ⟨hclear, hret⟩ | hbreaking
      · exact Or.inr (hkeep (hret m List.mem_cons_self) hclear)
      · exact Or.inl (hbreaking.nak.append _)
  | @nakDone next s =>
    cases next with
    | none => exact Or.inr ⟨hx.1, hx.2.1⟩
    | some e =>
      rcases hx with ⟨hclear, _⟩ | ⟨_, _, x, hhead, _⟩
      · exact Or.inr hclear
      · cases hhead
  | crashed hc _ _ =>
    right
    refine Clear.raised ?_ fun _ => hc.not_ack
    cases hc <;> exact hx.1

theorem once_path {x y : Phase M × State W M} (h : Path cfg env x y)
    (hnodup : (tooks x.2.trace).Nodup) (hx : Once x) : Once y := by
  have hboth : tooks y.2.trace = tooks x.2.trace ∧ Once y := by
    refine path_invariant (I := fun z => tooks z.2.trace = tooks x.2.trace ∧ Once z)
      (fun hstep hz => ?_) h ⟨rfl, hx⟩
    refine ⟨(micro_tooks hstep).trans hz.1, ?_⟩
    rcases hz.2 with hbroken | howing
    · obtain ⟨es, hes⟩ := micro_grows hstep
      exact Or.inl (hes ▸ hbroken.append es)
    · exact owing_micro hstep (hz.1 ▸ hnodup) howing
  exact hboth.2

theorem Path.start (cfg : Config) (env : Env W M) (x : Phase M × State W M) : Path cfg env x x :=
  Relation.ReflTransGen.refl

/-- Where a path from `x` may end, in terms of what holds at `x`. -/
theorem between_of_path {x : Phase M × State W M} {rest : List (Request M)} {p : Proc W M Unit}
    {s : State W M} (hnodup : (tooks x.2.trace ++ rest.filterMap Request.handedIn).Nodup)
    (hx : Once x)
    (h : wp p (fun _ t => Path cfg env x (.idle, t))
      (fun e t => Path cfg env x (.raised e, t)) s) :
    wp p (fun _ t => Between rest t)
      (fun _ t => Guarded DisposedOnce t.trace ↔ Guarded FirstAck t.trace) s := by
  have hfront : (tooks x.2.trace).Nodup := (List.nodup_append.mp hnodup).1
  refine wp_mono h (fun _ t ht => ?_) (fun e t ht => ?_)
  · refine ⟨once_path ht hfront hx, ?_⟩
    rw [show tooks t.trace = tooks x.2.trace from path_tooks ht]
    exact hnodup
  · exact once_raised (once_path ht hfront hx)

theorem between_run {r : Request M} {rest : List (Request M)} {s : State W M}
    (h : Between (r :: rest) s) :
    wp (r.run cfg env) (fun _ t => Between rest t)
      (fun _ t => Guarded DisposedOnce t.trace ↔ Guarded FirstAck t.trace) s := by
  obtain ⟨honce, hnodup⟩ := h
  cases r with
  | message m =>
    have hnodup : (tooks s.trace ++ m :: rest.filterMap Request.handedIn).Nodup := hnodup
    have hm : m ∉ tooks s.trace := fun hmem =>
      (List.nodup_append.mp hnodup).2.2 m hmem m List.mem_cons_self rfl
    refine between_of_path ?_ (once_taken honce hm) (processMessage_path .refl)
    simpa [Obs.taken] using hnodup
  | idle => exact between_of_path hnodup honce (onIdle_path .refl)
  | flush =>
    have hpath := flush_path (s := s) (Path.start cfg env _)
    exact between_of_path hnodup honce hpath
  | nackEverything =>
    have hpath := nackEverything_path (s := s) (Path.start cfg env (.nacking _ none, _))
    exact between_of_path hnodup (once_giveBack honce) hpath

/-- No double disposition.  When each delivery is an object of its own, a run gives no message
back whose `ack` returned and acknowledges none twice if and only if, in each flush, an `ack`
raises only as the first one of its batch. -/
theorem disposed_once_iff (cfg : Config) (env : Env W M) (sequence : Int) (w : W)
    (requests : List (Request M)) (h : (requests.filterMap Request.handedIn).Nodup) :
    let t := dispositions cfg env sequence w requests
    ((∀ pre m post, t = pre ++ .nak m :: post → ¬ Returned pre m) ∧
      (∀ pre m post, t = pre ++ .ack m :: post → .ack m ∉ pre)) ↔
    ∀ pre m e post, t = pre ++ .raised (.ackFlushed m) e :: post → e.isException = true →
      ∃ a, pre = a ++ [.flushed, .ack m] := by
  intro t
  have hiff : Guarded DisposedOnce t ↔ Guarded FirstAck t := by
    have hrun := wp_each (f := Request.run cfg env) Between (fun r rest s hs => between_run hs)
      requests (State.new sequence w) (between_new h)
    exact wp_state (wp_post hrun fun _ s hs => once_idle hs.1)
  have hleft : ((∀ pre m post, t = pre ++ .nak m :: post → ¬ Returned pre m) ∧
      (∀ pre m post, t = pre ++ .ack m :: post → .ack m ∉ pre)) ↔ Guarded DisposedOnce t := by
    constructor
    · intro hboth pre o post ht
      cases o with
      | ack m => exact hboth.2 pre m post ht
      | nak m => exact hboth.1 pre m post ht
      | _ => trivial
    · intro hguard
      exact ⟨fun pre m post ht => hguard pre (.nak m) post ht,
        fun pre m post ht => hguard pre (.ack m) post ht⟩
  have hright : Guarded FirstAck t ↔ ∀ pre m e post,
      t = pre ++ .raised (.ackFlushed m) e :: post → e.isException = true →
        ∃ a, pre = a ++ [.flushed, .ack m] := by
    constructor
    · intro hguard pre m e post ht
      exact hguard pre (.raised (.ackFlushed m) e) post ht
    · intro hfirst pre o post ht
      cases o with
      | raised c e =>
        cases c with
        | ackFlushed m => exact hfirst pre m e post ht
        | _ => trivial
      | _ => trivial
  exact hleft.trans (hiff.trans hright)

end Steps

/-- The `ack` of one message is refused. -/
def Env.refusing (m : Int) : Env Unit Int :=
  { Env.obliging with
    ack := fun x => if x = m then raise (.exception "nats: timeout") else pure () }

/-- The first message of a batch of two waits in the buffer. -/
theorem run_first (m : Int) : ∃ evt, Request.run Config.pairs (Env.refusing m) (.message 1)
    (State.new 0 ()) = (.ok (), ⟨⟨[1], some 0, 1⟩, (), [.took 1, .processed 1 1 evt]⟩) := ⟨_, rfl⟩

theorem dispositions_first : ∃ evt evt', dispositions Config.pairs (Env.refusing 1) 0 ()
    [.message 1, .message 2] = [.took 1, .processed 1 1 evt, .took 2, .processed 2 2 evt'] ++
      [.flushed, .ack 1] ++ [.raised (.ackFlushed 1) (.exception "nats: timeout")] ++
      [.nak 1] ++ [.nak 2] := by
  obtain ⟨evt, hrun⟩ := run_first 1
  rw [dispositions, each_of_ok hrun]
  exact ⟨evt, _, rfl⟩

theorem disposed_once_iff_first :
    let t := dispositions Config.pairs (Env.refusing 1) 0 () [.message 1, .message 2]
    (∀ pre m post, t = pre ++ .nak m :: post → ¬ Returned pre m) ∧
      ∀ pre m post, t = pre ++ .ack m :: post → .ack m ∉ pre := by
  refine (disposed_once_iff Config.pairs (Env.refusing 1) 0 () [.message 1, .message 2]
    (by decide)).mpr fun pre m e post ht => ?_
  have hfirst : Guarded FirstAck
      (dispositions Config.pairs (Env.refusing 1) 0 () [.message 1, .message 2]) := by
    obtain ⟨evt, evt', htrace⟩ := dispositions_first
    rw [htrace]
    refine ((Guarded.snoc ?_ fun _ => ⟨_, rfl⟩).snoc trivial).snoc trivial
    exact guarded_nil.append (by simp [FirstAck])
  exact hfirst pre (.raised (.ackFlushed m) e) post ht

theorem dispositions_second : ∃ evt evt', dispositions Config.pairs (Env.refusing 2) 0 ()
    [.message 1, .message 2] = [.took 1, .processed 1 1 evt, .took 2, .processed 2 2 evt',
      .flushed, .ack 1, .ack 2, .raised (.ackFlushed 2) (.exception "nats: timeout"), .nak 1,
      .nak 2] := by
  obtain ⟨evt, hrun⟩ := run_first 2
  rw [dispositions, each_of_ok hrun]
  exact ⟨evt, _, rfl⟩

/-- The second is refused: the first is acknowledged and given back. -/
theorem refused_second_given_back :
    let t := dispositions Config.pairs (Env.refusing 2) 0 () [.message 1, .message 2]
    ∃ pre m post, t = pre ++ .nak m :: post ∧ Returned pre m := by
  obtain ⟨evt, evt', htrace⟩ := dispositions_second
  have hacks : ∀ o ∈ ([] : List (Obs Int)), ∃ y, o = .ack y := fun o ho => absurd ho List.not_mem_nil
  have hret := returned_of_acked (t := [.took 1, .processed 1 1 evt, .took 2,
    .processed 2 2 evt', .flushed]) (m := 1) (x := 2) (e := .exception "nats: timeout") hacks
  exact ⟨_, 1, [.nak 2], htrace, hret⟩

end Consumer
end Eds
