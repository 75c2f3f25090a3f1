import Eds.Collections.Resumed

/-!
# A queue written to a log

Messages wait in a queue and are written to a log in passes.  A pass that breaks off has written the
first of them, and the next one starts at the beginning again; after a whole pass the queue is
empty.  `Replay done pending log` says that the log came about so.

The log holds every message of the queue in its order, with repetitions that do not show: a reader
for whom the last message counts sees the last message of the queue (`Replay.getLast?`).
-/

namespace Eds
namespace Collections

variable {M T : Type}

inductive Replay : List M → List M → List M → Prop where
  | nil : Replay [] [] []
  | add {done pending log : List M} (m : M) (h : Replay done pending log) :
      Replay done (pending ++ [m]) log
  | broken {done pending log a : List M} (ha : a <+: pending) (h : Replay done pending log) :
      Replay done pending (log ++ a)
  | whole {done pending log : List M} (h : Replay done pending log) :
      Replay (done ++ pending) [] (log ++ pending)

namespace Replay

variable {done pending log : List M}

/-- A part of the messages. -/
theorem filter (keep : M → Bool) (h : Replay done pending log) :
    Replay (done.filter keep) (pending.filter keep) (log.filter keep) := by
  induction h with
  | nil => exact nil
  | @add done pending log m _ ih =>
    rw [List.filter_append]
    cases hm : keep m with
    | true =>
      rw [List.filter_cons_of_pos hm, List.filter_nil]
      exact ih.add m
    | false =>
      rw [List.filter_cons_of_neg (by simp [hm]), List.filter_nil, List.append_nil]
      exact ih
  | broken ha _ ih =>
    rw [List.filter_append]
    exact ih.broken (ha.filter keep)
  | whole _ ih =>
    rw [List.filter_append, List.filter_append]
    exact ih.whole

/-- What waits completes the one pass. -/
theorem foldl {run : T → M → T} (hrun : ∀ ms : List M, Rerunnable run ms) (h : Replay done pending log)
    (t : T) : pending.foldl run (log.foldl run t) = (done ++ pending).foldl run t := by
  induction h with
  | nil => rfl
  | @add done pending log m _ ih =>
    rw [← List.append_assoc, List.foldl_append, List.foldl_append, ih, List.foldl_append]
  | @broken done pending log a ha _ ih =>
    obtain ⟨c, rfl⟩ := ha
    rw [← ih, List.foldl_append, List.foldl_append, List.foldl_append, hrun a]
  | @whole done pending log _ ih =>
    rw [List.append_nil, List.foldl_append]
    exact ih

theorem foldl_last (o : Option M) (ms : List M) :
    ms.foldl (fun _ m => some m) o = ms.getLast?.or o := by
  induction ms generalizing o with
  | nil => rfl
  | cons m rest ih =>
    rw [List.foldl_cons, ih, List.getLast?_cons]
    cases rest.getLast? <;> rfl

/-- The last message wins. -/
theorem getLast? (h : Replay done pending log) : (log ++ pending).getLast? = (done ++ pending).getLast? := by
  have hrun : ∀ ms : List M, Rerunnable (fun (_ : Option M) m => some m) ms := by
    intro ms o
    rw [foldl_last, foldl_last]
    cases ms.getLast? <;> rfl
  have hboth := h.foldl hrun none
  rw [← List.foldl_append, foldl_last, foldl_last, Option.or_none, Option.or_none] at hboth
  exact hboth

end Replay

end Collections
end Eds
