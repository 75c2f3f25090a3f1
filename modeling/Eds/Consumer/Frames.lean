import Eds.Consumer.BatchProcessor

/-!
# What the processor does to the world by itself

Apart from a migration, a lookup of a schema and the hand-over of an event, the
processor changes the world by the calls of the message, of the clock, of the validator
and of `driver.flush` only.  A relation that these calls keep is kept by every part of
the processor that makes no other call.
-/

namespace Eds
namespace Consumer

open Effects Effects.Prog Effects.Traced

variable {W M : Type}

/-- The world has moved along `Rel`. -/
def OnWorld (Rel : W → W → Prop) (s t : State W M) : Prop := Rel s.world t.world

/-- `Rel` is a preorder, and the calls move the world along it. -/
structure Env.Keeps (env : Env W M) (Rel : W → W → Prop) : Prop where
  refl : ∀ w, Rel w w
  trans : ∀ {w w' w''}, Rel w w' → Rel w' w'' → Rel w w''
  metadata : ∀ m, Within Rel (env.metadata m)
  ack : ∀ m, Within Rel (env.ack m)
  nak : ∀ m, Within Rel (env.nak m)
  fromMessage : ∀ m seq, Within Rel (env.fromMessage m seq)
  flush : Within Rel env.flush
  validate : ∀ evt, Within Rel (env.validate evt)
  clock : ∀ w, Rel w (env.clock w).2

section Frames

variable {cfg : Config} {env : Env W M} {Rel : W → W → Prop} (hk : env.Keeps Rel) {α β : Type}

theorem within_ask {c : Call M} {p : Prog Exn W α} (hp : Within Rel p) :
    Within (OnWorld Rel) (ask c p : Proc W M α) := by
  intro s
  refine wp_state (I := OnWorld Rel s) (wp_call (fun _ w hw => ?_) (fun _ w hw => ?_))
  · exact hp.reply hw
  · exact hp.reply hw

include hk

theorem onWorld_refl (s : State W M) : OnWorld Rel s s := hk.refl s.world

theorem onWorld_trans {s t u : State W M} (h : OnWorld Rel s t) (h' : OnWorld Rel t u) :
    OnWorld Rel s u := hk.trans h h'

theorem keeps_pure (a : α) : Within (OnWorld Rel) (pure a : Proc W M α) :=
  within_pure (onWorld_refl hk) a

theorem keeps_note (o : Obs M) : Within (OnWorld Rel) (note o : Proc W M Unit) :=
  fun s => hk.refl s.world

theorem keeps_read (f : Batch M → α) : Within (OnWorld Rel) (read f : Proc W M α) :=
  fun s => hk.refl s.world

theorem keeps_assign (f : Batch M → Batch M) : Within (OnWorld Rel) (assign f : Proc W M Unit) :=
  fun s => hk.refl s.world

theorem keeps_bind {p : Proc W M α} {f : α → Proc W M β} (hp : Within (OnWorld Rel) p)
    (hf : ∀ a, Within (OnWorld Rel) (f a)) : Within (OnWorld Rel) (p >>= f) :=
  hp.bind hf (onWorld_trans hk)

theorem keeps_tryExcept {p : Proc W M α} {h : Exn → Proc W M α} (hp : Within (OnWorld Rel) p)
    (hh : ∀ e, Within (OnWorld Rel) (h e)) : Within (OnWorld Rel) (tryExcept p h) :=
  within_tryExcept hp hh (onWorld_refl hk) (onWorld_trans hk)

theorem now_keeps : Within (OnWorld Rel) (now env : Proc W M Int) := fun s => hk.clock s.world

/-! ## Giving back and flushing -/

theorem nackEverything_keeps : Within (OnWorld Rel) (nackEverything env) := by
  have hone : ∀ m, Within (OnWorld Rel) (nakOne env m) := fun m =>
    keeps_bind hk (keeps_note hk _) fun _ =>
      keeps_tryExcept hk (within_ask (hk.nak m)) fun _ => keeps_pure hk ()
  refine keeps_bind hk (keeps_read hk _) fun pending => keeps_bind hk ?_ fun _ => keeps_assign hk _
  exact within_each hone (onWorld_refl hk) (onWorld_trans hk) pending

theorem handleError_keeps (err : String) : Within (OnWorld Rel) (handleError env err : Proc W M α) :=
  keeps_bind hk (nackEverything_keeps hk) fun _ => within_raise (onWorld_refl hk) _

theorem stop_keeps : Within (OnWorld Rel) (stop env : Proc W M α) :=
  keeps_bind hk (nackEverything_keeps hk) fun _ => within_raise (onWorld_refl hk) _

theorem flushDriver_keeps : Within (OnWorld Rel) (flushDriver env) := by
  refine keeps_bind hk (keeps_read hk _) fun pending => keeps_bind hk ?_ fun _ => keeps_note hk _
  refine (within_ask hk.flush).handle (fun e => ?_) (onWorld_trans hk)
  split
  · exact stop_keeps hk
  · split
    · exact handleError_keeps hk _
    · exact within_raise (onWorld_refl hk) _

theorem observeDurations_keeps : Within (OnWorld Rel) (observeDurations env) := by
  refine keeps_bind hk (keeps_read hk _) fun started => ?_
  cases started with
  | none => exact keeps_bind hk (now_keeps hk) fun _ => keeps_pure hk ()
  | some _ =>
    refine keeps_bind hk (now_keeps hk) fun _ => ?_
    exact keeps_bind hk (now_keeps hk) fun _ => keeps_pure hk ()

theorem flush_keeps : Within (OnWorld Rel) (flush env) := by
  have hone : ∀ m, Within (OnWorld Rel) (ackOne env m) := fun m =>
    keeps_bind hk (keeps_note hk _) fun _ =>
      keeps_tryExcept hk (within_ask (hk.ack m)) fun _ => stop_keeps hk
  refine keeps_bind hk (now_keeps hk) fun _ => keeps_bind hk (flushDriver_keeps hk) fun _ => ?_
  refine keeps_bind hk (keeps_read hk _) fun pending => keeps_bind hk ?_ fun _ => ?_
  · exact within_each hone (onWorld_refl hk) (onWorld_trans hk) pending
  · exact keeps_bind hk (observeDurations_keeps hk) fun _ => keeps_assign hk _

/-! ## Before and after the driver -/

theorem receive_keeps (m : M) : Within (OnWorld Rel) (receive env m) := by
  have hsequence : ∀ seq, Within (OnWorld Rel) (checkSequence env m seq) := by
    refine fun seq => keeps_bind hk (keeps_read hk _) fun expected => ?_
    split
    · exact keeps_assign hk _
    · exact keeps_bind hk (keeps_note hk _) fun _ => handleError_keeps hk _
  refine keeps_bind hk (keeps_note hk _) fun _ => keeps_bind hk ?_ fun md => ?_
  · exact keeps_tryExcept hk (within_ask (hk.metadata m)) fun _ => handleError_keeps hk _
  · refine keeps_bind hk (keeps_assign hk _) fun _ => keeps_bind hk (hsequence _) fun _ => ?_
    exact keeps_pure hk _

theorem decode_keeps (m : M) (seq : Int) : Within (OnWorld Rel) (decode env m seq) :=
  keeps_tryExcept hk (within_ask (hk.fromMessage m seq)) fun _ => handleError_keeps hk _

theorem shouldSkip_keeps (evt : DBChangeEvent) : Within Rel (shouldSkip cfg env evt) := by
  have hlogged : ∀ b, Within Rel (logged env evt b) := by
    intro b
    unfold logged
    split
    · exact within_pure hk.refl _
    · exact within_raise hk.refl _
  unfold shouldSkip
  split
  · exact within_raise hk.refl _
  · exact within_pure hk.refl _
  · split
    · refine Within.bind ?_ (fun verdict => ?_) hk.trans
      · refine within_tryExcept ?_ (fun _ => within_pure hk.refl _) hk.refl hk.trans
        exact (hk.validate evt).bind (fun _ => within_pure hk.refl _) hk.trans
      · split
        · exact hlogged _
        · split
          · exact hlogged _
          · split
            · exact within_pure hk.refl _
            · exact within_pure hk.refl _
    · exact within_pure hk.refl _

theorem skip_keeps [DecidableEq M] (m : M) : Within (OnWorld Rel) (skip env m) := by
  refine keeps_bind hk (keeps_note hk _) fun _ => keeps_bind hk (keeps_note hk _) fun _ => ?_
  refine keeps_bind hk ?_ fun _ => keeps_assign hk _
  exact keeps_tryExcept hk (within_ask (hk.ack m)) fun _ => keeps_pure hk ()

theorem startBatch_keeps : Within (OnWorld Rel) (startBatch env : Proc W M Int) := by
  refine keeps_bind hk (keeps_read hk _) fun started => ?_
  cases started with
  | some t => exact keeps_pure hk t
  | none =>
    refine keeps_bind hk (now_keeps hk) fun t => ?_
    exact keeps_bind hk (keeps_assign hk _) fun _ => keeps_pure hk t

theorem catchingUp_keeps (m : M) (started : Int) :
    Within (OnWorld Rel) (catchingUp cfg env m started) := by
  refine keeps_bind hk (keeps_tryExcept hk ?_ fun _ => keeps_pure hk 0) fun numPending => ?_
  · exact keeps_bind hk (within_ask (hk.metadata m)) fun md => keeps_pure hk _
  · split
    · exact keeps_bind hk (now_keeps hk) fun t => keeps_pure hk _
    · exact keeps_pure hk false

theorem overdue_keeps (started : Int) : Within (OnWorld Rel) (overdue cfg env started : Proc W M Bool) := by
  refine keeps_bind hk (keeps_read hk _) fun count => ?_
  split
  · exact keeps_pure hk true
  · exact keeps_bind hk (now_keeps hk) fun t => keeps_pure hk _

theorem settle_keeps (m : M) (wantsFlush force : Bool) :
    Within (OnWorld Rel) (settle cfg env m wantsFlush force) := by
  refine keeps_bind hk (keeps_read hk _) fun count => ?_
  split
  · exact flush_keeps hk
  · refine keeps_bind hk (startBatch_keeps hk) fun started => ?_
    refine keeps_bind hk (catchingUp_keeps hk m started) fun bypass => ?_
    cases bypass with
    | true => exact keeps_pure hk ()
    | false =>
      refine keeps_bind hk (overdue_keeps hk started) fun due => ?_
      cases due with
      | false => exact keeps_pure hk ()
      | true => exact keeps_bind hk (now_keeps hk) fun _ => flush_keeps hk

theorem onIdle_keeps : Within (OnWorld Rel) (onIdle cfg env) := by
  refine keeps_bind hk (keeps_read hk _) fun count => keeps_bind hk (keeps_read hk _) fun started => ?_
  cases started with
  | none => exact keeps_pure hk ()
  | some started =>
    show Within _ (if _ then _ else _)
    split
    · refine keeps_bind hk (now_keeps hk) fun t => ?_
      split
      · exact flush_keeps hk
      · exact keeps_pure hk ()
    · exact keeps_pure hk ()

end Frames

end Consumer
end Eds
