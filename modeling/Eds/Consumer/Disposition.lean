import Eds.Consumer.Bufferer
import Eds.Effects.History

/-!
# Every message is disposed of

A message that was taken is open until `ack` or `nak` is attempted on it, or its
metadata cannot be read.  `Open` says for each phase which messages those are: they
are in the batch, or in the part of it that is still to be worked through.  When
the drain task returns, nothing is open.
-/

namespace Eds
namespace Consumer

open Effects Effects.Prog Effects.Traced

variable {W M : Type}

/-- What disposes of a message that was taken. -/
def Disposes : Obs M → Obs M → Prop
  | .took m, a => a = .ack m ∨ a = .nak m ∨ ∃ e, a = .raised (.metadata m) e
  | _, _ => False

def Excused (P : M → Prop) : Obs M → Prop
  | .took m => P m
  | _ => True

/-- Every message taken is disposed of later, but for those that `P` holds of. -/
abbrev Disposed (P : M → Prop) (t : List (Obs M)) : Prop := Answered Disposes (Excused P) t

theorem Disposed.weaken {P Q : M → Prop} {t : List (Obs M)} (h : Disposed P t)
    (hPQ : ∀ x, P x → Q x) : Disposed Q t := by
  refine h.mono fun e _ he => ?_
  cases e with
  | took m => exact hPQ m he
  | _ => trivial

theorem Disposed.snoc {P Q : M → Prop} {t : List (Obs M)} (h : Disposed P t) {a : Obs M}
    (ha : Excused Q a) (hPQ : ∀ x, P x → Q x ∨ Disposes (.took x) a) : Disposed Q (t ++ [a]) := by
  refine answered_snoc.mpr ⟨h.mono fun e _ he => ?_, ha⟩
  cases e with
  | took m => exact hPQ m he
  | _ => exact Or.inl trivial

/-- An event that disposes of nothing. -/
theorem Disposed.other {P : M → Prop} {t : List (Obs M)} (h : Disposed P t) {a : Obs M}
    (ha : Excused P a) : Disposed P (t ++ [a]) := h.snoc ha fun _ hx => Or.inl hx

theorem Disposed.raised {P : M → Prop} {t : List (Obs M)} (h : Disposed P t) (c : Call M)
    (r : Option Exn) : Disposed P (t ++ (r.map (Obs.raised c)).toList) := by
  cases r with
  | none => simpa using h
  | some e => exact h.other trivial

/-- The messages that are still to be disposed of.  Once an exception other than the
two signals has left the processor, nothing is promised. -/
def Open (s : State W M) : Phase M → M → Prop
  | .idle, x => x ∈ s.vars.pending
  | .taken m, x => x = m ∨ x ∈ s.vars.pending
  | .held _ _, x => x ∈ s.vars.pending
  | .checked _ _, x => x ∈ s.vars.pending
  | .skipping _, x => x ∈ s.vars.pending
  | .acking rest, x => x ∈ rest
  | .nacking rest _, x => x ∈ rest
  | .raised e, _ => e.isConsumerStop = false

def Emptied (s : State W M) : Phase M → Prop
  | .acking rest => ∀ x ∈ rest, x ∈ s.vars.pending
  | .raised e => e.isConsumerStop = true → s.vars.pending = []
  | _ => True

def Settled (x : Phase M × State W M) : Prop := Disposed (Open x.2 x.1) x.2.trace ∧ Emptied x.2 x.1

theorem open_inWorld {s : State W M} {w : W} {ph : Phase M} : Open (s.inWorld w) ph = Open s ph := by
  cases ph <;> rfl

theorem emptied_inWorld {s : State W M} {w : W} {ph : Phase M} :
    Emptied (s.inWorld w) ph ↔ Emptied s ph := by
  cases ph <;> exact Iff.rfl

theorem settled_of_crash {s : State W M} {e : Exn} {t : List (Obs M)} {P : M → Prop}
    (h : Disposed P t) (he : e.isConsumerStop = false) (ht : s.trace = t) :
    Settled (.raised e, s) := by
  refine ⟨?_, fun hstop => ?_⟩
  · rw [ht]
    exact h.weaken fun _ _ => he
  · rw [he] at hstop
    cases hstop

theorem initial_settled (queue : List (Option M)) (cancel : Bool) (sequence : Int) (w : W) :
    Settled (.idle, (Bufferer.initial queue cancel sequence w).processor) :=
  ⟨answered_nil, trivial⟩

section Steps

variable [DecidableEq M] {cfg : Config} {env : Env W M}

theorem settled_micro {x y : Phase M × State W M} (h : Micro cfg env x y) (hx : Settled x) :
    Settled y := by
  obtain ⟨hopen, hempty⟩ := hx
  cases h with
  | metadata _ =>
    refine ⟨hopen.weaken fun x hx => ?_, trivial⟩
    rcases hx with rfl | hx
    · exact List.mem_append_right _ (List.mem_singleton_self _)
    · exact List.mem_append_left _ hx
  | metadataRaised _ _ =>
    refine ⟨hopen.snoc trivial fun x hx => ?_, trivial⟩
    rcases hx with rfl | hx
    · exact Or.inr (Or.inr (Or.inr ⟨_, rfl⟩))
    · exact Or.inl hx
  | outOfOrder _ _ => exact ⟨hopen.other trivial, trivial⟩
  | inOrder _ => exact ⟨hopen, trivial⟩
  | aside _ => exact ⟨open_inWorld ▸ hopen, emptied_inWorld.mpr hempty⟩
  | stageRaised _ _ _ => exact ⟨hopen.other trivial, trivial⟩
  | @skipRaised m seq s e w he _ =>
    exact settled_of_crash (hopen.other (a := .raised (.shouldSkip m) e) trivial) he rfl
  | skipped => exact ⟨hopen.other trivial, trivial⟩
  | @skipAcked m s r w _ _ =>
    have hack : Disposed (fun x => x ∈ s.vars.pending.erase m) (s.trace ++ [.ack m]) := by
      refine hopen.snoc trivial fun x hx => ?_
      by_cases hm : x = m
      · exact Or.inr (Or.inl (by rw [hm]))
      · exact Or.inl ((List.mem_erase_of_ne hm).mpr hx)
    refine ⟨?_, trivial⟩
    show Disposed (fun x => x ∈ _) _
    simpa using hack.raised (.ackSkipped m) r
  | @skipAckCrashed m s e w he _ =>
    have hack := hopen.other (a := .ack m) trivial
    exact settled_of_crash (hack.other (a := .raised (.ackSkipped m) e) trivial)
      (Exn.not_consumerStop he) rfl
  | processed _ => exact ⟨hopen.other trivial, trivial⟩
  | processRaised _ _ => exact ⟨hopen.other trivial, trivial⟩
  | catchUpRaised _ _ => exact ⟨hopen.other trivial, trivial⟩
  | started _ => exact ⟨hopen, trivial⟩
  | flushed _ => exact ⟨hopen.other trivial, fun x hx => hx⟩
  | flushRaised _ _ => exact ⟨hopen.other trivial, trivial⟩
  | @acked m rest s w _ =>
    refine ⟨hopen.snoc trivial fun x hx => ?_, fun x hx => hempty x (List.mem_cons_of_mem _ hx)⟩
    rcases List.mem_cons.mp hx with rfl | hx
    · exact Or.inr (Or.inl rfl)
    · exact Or.inl hx
  | @ackRaised m rest s e w _ _ =>
    have hack := hopen.other (a := .ack m) trivial
    exact ⟨(hack.other (a := .raised (.ackFlushed m) e) trivial).weaken hempty, trivial⟩
  | @ackCrashed m rest s e w he _ =>
    have hack := hopen.other (a := .ack m) trivial
    exact settled_of_crash (hack.other (a := .raised (.ackFlushed m) e) trivial)
      (Exn.not_consumerStop he) rfl
  | flushDone => exact ⟨hopen, trivial⟩
  | @naked m rest next s r w _ _ =>
    have hnak : Disposed (fun x => x ∈ rest) (s.trace ++ [.nak m]) := by
      refine hopen.snoc trivial fun x hx => ?_
      rcases List.mem_cons.mp hx with rfl | hx
      · exact Or.inr (Or.inr (Or.inl rfl))
      · exact Or.inl hx
    refine ⟨?_, trivial⟩
    show Disposed (fun x => x ∈ _) _
    simpa using hnak.raised (.nak m) r
  | @nakCrashed m rest next s e w he _ =>
    have hnak := hopen.other (a := .nak m) trivial
    exact settled_of_crash (hnak.other (a := .raised (.nak m) e) trivial)
      (Exn.not_consumerStop he) rfl
  | @nakDone next s =>
    cases next with
    | none => exact ⟨hopen, trivial⟩
    | some e => exact ⟨hopen.weaken fun x hx => absurd hx List.not_mem_nil, fun _ => rfl⟩
  | @crashed ph s c e w _ he _ =>
    exact settled_of_crash (hopen.other (a := .raised c e) trivial) (Exn.not_consumerStop he) rfl

theorem settled_session {s₀ : State W M} {x : Phase M × State W M} (h : Session cfg env s₀ x)
    (h₀ : Settled (.idle, s₀)) : Settled x := by
  induction h with
  | start => exact h₀
  | took m _ ih => exact ⟨ih.1.snoc (Or.inl rfl) fun x hx => Or.inl (Or.inr hx), trivial⟩
  | giveBack _ ih => exact ⟨ih.1, trivial⟩
  | micro _ hxy ih => exact settled_micro hxy ih

/-- When the drain task returns, however it was stopped, no message is pending, each
one that was taken has been disposed of after that, and the items taken from the
queue are its first ones in order, with the sentinel last if it was met. -/
theorem returned_disposed (cfg : Config) (env : Env W M) (queue : List (Option M))
    (cancel : Bool) (sequence : Int) (w : W) (moves : List (Bufferer.Move M))
    (hret : ((Bufferer.initial queue cancel sequence w).exec cfg env moves).pc = .returned) :
    let b := (Bufferer.initial queue cancel sequence w).exec cfg env moves
    b.processor.vars.pending = [] ∧
    (∀ pre m post, b.processor.trace = pre ++ .took m :: post →
      .ack m ∈ post ∨ .nak m ∈ post ∨ ∃ e, .raised (.metadata m) e ∈ post) ∧
    (Bufferer.offered queue moves = (tooks b.processor.trace).map some ++ b.queue ∨
      Bufferer.offered queue moves = (tooks b.processor.trace).map some ++ none :: b.queue) := by
  intro b
  obtain ⟨ph, hsession, hagree⟩ := Bufferer.follows_exec
    (b := Bufferer.initial queue cancel sequence w) ⟨.idle, .start, rfl⟩ moves
  obtain ⟨hopen, hempty⟩ := settled_session hsession (initial_settled queue cancel sequence w)
  rw [hret] at hagree
  have hdone : b.processor.vars.pending = [] ∧ ∀ m, ¬ Open b.processor ph m := by
    rcases hagree with ⟨rfl, hnil⟩ | ⟨e, rfl, he⟩
    · exact ⟨hnil, fun m hm => by rw [Open, hnil] at hm; cases hm⟩
    · exact ⟨hempty he, fun m hm => by rw [Open, he] at hm; cases hm⟩
  refine ⟨hdone.1, fun pre m post ht => ?_, ?_⟩
  · rcases hopen pre (.took m) post ht with hm | ⟨a, ha, hdis⟩
    · exact absurd hm (hdone.2 m)
    · rcases hdis with rfl | rfl | ⟨e, rfl⟩
      · exact Or.inl ha
      · exact Or.inr (Or.inl ha)
      · exact Or.inr (Or.inr ⟨e, ha⟩)
  · exact (Bufferer.accounts_initial cfg env queue cancel sequence w moves).imp id And.right

end Steps

theorem returned_disposed_sentinel :
    let b := (Bufferer.initial [some 1, some 2, some 3, none] false 0 ()).exec Config.pairs
      Env.obliging [.turn, .turn, .turn, .turn]
    b.pc = .returned ∧ b.processor.vars.pending = [] :=
  ⟨by decide, (returned_disposed Config.pairs Env.obliging [some 1, some 2, some 3, none] false 0 ()
    [.turn, .turn, .turn, .turn] (by decide)).1⟩

end Consumer
end Eds
