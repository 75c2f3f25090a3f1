import Eds.Drivers.Snowflake.Tracker
import Eds.Collections.Sorted
import Eds.Numeric.Binary64
import Eds.Util.Numbers

/-!
# The order of a batch

A batch is sorted by the doubles nearest to the times of its records.  A double has 53 bits and a
time of this century 61, so that the times within a few hundred nanoseconds have one double, and the
records at them stay as they came.
-/

namespace Eds
namespace Drivers
namespace Snowflake

open Util Numeric Collections Lexing.Json

/-- The doubles, with the two infinities. -/
abbrev Double := WithBot (WithTop ℚ)

/-- From here on a double is infinite. -/
def overflow : ℚ := 2 ^ 1024

/-- The double nearest to a number. -/
def nearest (q : ℚ) : Double :=
  if overflow ≤ Binary64.round q then ⊤
  else if Binary64.round q ≤ -overflow then ⊥
  else ((Binary64.round q : WithTop ℚ) : Double)

def unsigned : List Char → List Char
  | '-' :: cs => cs
  | cs => cs

/-- Digits, and perhaps a point with digits behind it. -/
def isDecimal (text : List Char) : Bool :=
  let whole := (unsigned text).takeWhile isDigit
  let fraction := (unsigned text).dropWhile isDigit
  whole ≠ [] && (fraction = [] || fraction.head? = some '.' && fraction.tail ≠ [] && fraction.tail.all isDigit)

section Key

variable (other : Json → Option Double)

/-- `float(v)`.  It is `other` of what is not the text of a decimal, with `none` for a `ValueError`
or a `TypeError`. -/
def float : Json → Option Double
  | .str text =>
    if isDecimal text.toList then some (nearest (Decimal.ofRepr text).value) else other (.str text)
  | v => other v

def mvccKey (r : Record) : Double :=
  match r.event with
  | none => nearest 0
  | some event => (float other event.mvccTimestamp).getD (nearest 0)

end Key

/-! ## Times -/

/-- The event has the text of a decimal for its time. -/
def Stamped (r : Record) : Prop :=
  ∃ event text, r.event = some event ∧ event.mvccTimestamp = .str text ∧ isDecimal text.toList = true

/-- The time of a record. -/
def stamp (r : Record) : ℚ :=
  match r.event with
  | none => 0
  | some event =>
    match event.mvccTimestamp with
    | .str text => (Decimal.ofRepr text).value
    | _ => 0

theorem mvccKey_of_stamped (other : Json → Option Double) {r : Record} (h : Stamped r) :
    mvccKey other r = nearest (stamp r) := by
  obtain ⟨event, text, hevent, htime, hdecimal⟩ := h
  unfold mvccKey stamp
  simp only [hevent, htime, float, hdecimal, if_true, Option.getD_some]

/-! ## Nearest doubles -/

theorem nearest_mono {q q' : ℚ} (h : q ≤ q') : nearest q ≤ nearest q' := by
  have hround := Binary64.round_mono h
  unfold nearest
  split_ifs with hhi hhi' hlo' hlo hhi' hlo'
  · exact le_rfl
  · linarith
  · linarith
  · exact bot_le
  · exact bot_le
  · exact bot_le
  · exact WithBot.coe_le_coe.mpr le_top
  · linarith
  · exact WithBot.coe_le_coe.mpr (WithTop.coe_le_coe.mpr hround)

theorem nearest_eq_coe {q : ℚ} (h : |Binary64.round q| < overflow) :
    nearest q = ((Binary64.round q : WithTop ℚ) : Double) := by
  obtain ⟨hlo, hhi⟩ := abs_lt.mp h
  rw [nearest, if_neg (not_le_of_gt hhi), if_neg (not_le_of_gt hlo)]

/-- Until the year 2043 two times more than 256 nanoseconds apart have two doubles. -/
theorem nearest_lt {q q' : ℚ} (hq : |q| < 2 ^ 61) (hq' : |q'| < 2 ^ 61) (h : q + 256 < q') :
    nearest q < nearest q' := by
  have hmoved : ∀ {r : ℚ}, |r| < 2 ^ 61 → |Binary64.round r - r| ≤ 128 := fun hr => by
    have hround := Binary64.abs_round_sub_le (k := 61) (by exact_mod_cast hr) (by norm_num)
    norm_num at hround
    exact hround
  have hbound : ∀ {r : ℚ}, |r| < 2 ^ 61 → |Binary64.round r| < overflow := fun {r} hr => by
    have hsmall : (2 : ℚ) ^ 62 ≤ overflow := pow_le_pow_right₀ (by norm_num) (by norm_num)
    have hsum := abs_add_le (Binary64.round r - r) r
    have hround := hmoved hr
    rw [sub_add_cancel] at hsum
    norm_num at hsmall hr
    linarith
  rw [nearest_eq_coe (hbound hq), nearest_eq_coe (hbound hq'), WithBot.coe_lt_coe,
    WithTop.coe_lt_coe]
  have hlo := (abs_le.mp (hmoved hq)).2
  have hhi := (abs_le.mp (hmoved hq')).1
  linarith

/-! ## The order -/

theorem ordered_nearest (other : Json → Option Double) {records : List Record}
    (h : ∀ r ∈ records, Stamped r) :
    Ordered (fun r => nearest (stamp r)) records
      (sortRecordsByMvccTimestamp (mvccKey other) records) := by
  have hsorted : Ordered (mvccKey other) records (sortRecordsByMvccTimestamp (mvccKey other) records) :=
    ordered_mergeSort (fun _ _ => decide_eq_true_iff) records
  exact hsorted.congr fun r hr => mvccKey_of_stamped other (h r hr)

theorem ordered_stamp_iff (other : Json → Option Double) {records : List Record}
    (h : ∀ r ∈ records, Stamped r) :
    Ordered stamp records (sortRecordsByMvccTimestamp (mvccKey other) records) ↔
      records.Pairwise fun a b => stamp b < stamp a → nearest (stamp b) < nearest (stamp a) :=
  (ordered_nearest other h).value_iff fun _ _ _ _ => nearest_mono

/-- Until the year 2043 the order is that of the times if the records that came in the other order
are more than 256 nanoseconds apart. -/
theorem ordered_of_apart (other : Json → Option Double) {records : List Record}
    (h : ∀ r ∈ records, Stamped r) (hrange : ∀ r ∈ records, |stamp r| < 2 ^ 61)
    (hapart : records.Pairwise fun a b => stamp b < stamp a → stamp b + 256 < stamp a) :
    Ordered stamp records (sortRecordsByMvccTimestamp (mvccKey other) records) :=
  (ordered_stamp_iff other h).mpr <| hapart.imp_of_mem fun ha hb hgap hlt =>
    nearest_lt (hrange _ hb) (hrange _ ha) (hgap hlt)

/-- Sorting by the times: by their doubles, with the records at one double as they came; and so by
the times themselves unless a record came before an earlier one with its double. -/
theorem sortRecords_order (other : Json → Option Double) {records : List Record}
    (h : ∀ r ∈ records, Stamped r) :
    Ordered (fun r => nearest (stamp r)) records
        (sortRecordsByMvccTimestamp (mvccKey other) records) ∧
      (Ordered stamp records (sortRecordsByMvccTimestamp (mvccKey other) records) ↔
        records.Pairwise fun a b => stamp b < stamp a → nearest (stamp b) < nearest (stamp a)) :=
  ⟨ordered_nearest other h, ordered_stamp_iff other h⟩

/-- An insert or a delete of one object at a time. -/
def changed (operation time : String) : Record where
  table := "order"
  id := "o_1"
  operation := operation
  diff := none
  object := none
  event := some {
    operation := .str operation, table := .str "order", modelVersion := .str "1"
    object := none, diff := .null, timestamp := 0, schemaValidatedPath := none
    mvccTimestamp := .str time }

/-- The delete came before the insert, a nanosecond earlier, that it deletes. -/
def swapped : List Record :=
  [changed "DELETE" "1717009183239076001.0000000000",
    changed "INSERT" "1717009183239076000.0000000000"]

theorem stamped_swapped : ∀ r ∈ swapped, Stamped r :=
  List.forall_mem_cons.mpr ⟨⟨_, _, rfl, rfl, by decide +kernel⟩,
    List.forall_mem_singleton.mpr ⟨_, _, rfl, rfl, by decide +kernel⟩⟩

theorem sortRecords_order_swapped :
    Ordered (fun r => nearest (stamp r)) swapped
        (sortRecordsByMvccTimestamp (mvccKey fun _ => none) swapped) ∧
      (Ordered stamp swapped (sortRecordsByMvccTimestamp (mvccKey fun _ => none) swapped) ↔
        swapped.Pairwise fun a b => stamp b < stamp a → nearest (stamp b) < nearest (stamp a)) :=
  sortRecords_order (fun _ => none) stamped_swapped

theorem sortRecords_swapped : (∀ r ∈ swapped, Stamped r) ∧
    ¬ Ordered stamp swapped (sortRecordsByMvccTimestamp (mvccKey fun _ => none) swapped) := by
  refine ⟨stamped_swapped, fun hordered => ?_⟩
  have hpairs := (ordered_stamp_iff (fun _ => none) stamped_swapped).mp hordered
  have hlt := (List.pairwise_cons.mp hpairs).1 _ List.mem_cons_self (by decide +kernel)
  exact absurd hlt (by decide +kernel)

end Snowflake
end Drivers
end Eds
