import Eds.Drivers.Postgresql.Sql
import Eds.Drivers.Mysql.Sql
import Eds.Drivers.Sqlserver.Sql
import Eds.Drivers.Snowflake.Sql

/-!
# Current and timeline views

All four dialects rank the rows of an object from the newest to the oldest in the
current view, a missing `mvcc` being the oldest.  The timeline goes the other way, and
there a missing `mvcc` is where the engine has it: oldest on MySQL and SQL Server,
newest on PostgreSQL and Snowflake.
-/

namespace Eds
namespace Drivers

open Collections

variable {V M : Type}

inductive Dialect where
  | postgresql
  | mysql
  | sqlserver
  | snowflake

namespace Dialect

/-- Whether the engine has `NULL` above all values. -/
def nullsHigh : Dialect → Bool
  | postgresql | snowflake => true
  | mysql | sqlserver => false

def currentOrder : Dialect → List OrderItem
  | postgresql => Postgresql.currentOrder
  | mysql => Mysql.currentOrder
  | sqlserver => Sqlserver.currentOrder
  | snowflake => Snowflake.currentOrder

def timelineOrder : Dialect → List OrderItem
  | postgresql => Postgresql.timelineOrder
  | mysql => Mysql.timelineOrder
  | sqlserver => Sqlserver.timelineOrder
  | snowflake => Snowflake.timelineOrder

section Views

variable [LinearOrder M] [DecidableEq V] (d : Dialect) (model : Schema)
  (history : List (HistoryRow V M))

def latest : List (HistoryRow V M) := latestRows d.nullsHigh d.currentOrder model history

def selected : List (HistoryRow V M) := selectedRows d.nullsHigh d.currentOrder model history

def current : List (List (Option V)) := currentView d.nullsHigh d.currentOrder model history

def timeline : List (HistoryRow V M × Option M) :=
  timelineView d.nullsHigh d.timelineOrder model history

end Views

end Dialect

/-! ## The keys of the orders -/

section Keys

def HistoryRow.lowKey (r : HistoryRow V M) : WithBot M ×ₗ ℤ ×ₗ ℕ :=
  toLex (nullsLow r.mvcc, toLex (r.timestamp, r.seq))

def HistoryRow.highKey (r : HistoryRow V M) : WithTop M ×ₗ ℤ ×ₗ ℕ :=
  toLex (nullsHigh r.mvcc, toLex (r.timestamp, r.seq))

theorem lowKey_injOn {rows : List (HistoryRow V M)} (hseq : (rows.map HistoryRow.seq).Nodup)
    {a b : HistoryRow V M} (ha : a ∈ rows) (hb : b ∈ rows) (h : a.lowKey = b.lowKey) : a = b := by
  have hpair := toLex.injective (congrArg Prod.snd (toLex.injective h))
  exact List.inj_on_of_nodup_map hseq ha hb (congrArg Prod.snd hpair)

variable [LinearOrder M]

theorem current_le (d : Dialect) (a b : HistoryRow V M) :
    (compareBy (d.currentOrder.map (OrderItem.compare d.nullsHigh)) a b).isLE = true ↔
      b.lowKey ≤ a.lowKey := by
  have hterms : compareBy (d.currentOrder.map (OrderItem.compare d.nullsHigh)) a b =
      (compareNulls false true a.mvcc b.mvcc).then
        ((directed true (compare a.timestamp b.timestamp)).then
          ((directed true (compare a.seq b.seq)).then .eq)) := by
    cases d <;> rfl
  rw [hterms, directed_desc, directed_desc, show compareNulls false true a.mvcc b.mvcc = _ from
    compareNulls_swap a.mvcc b.mvcc true false, compareNulls_asc_first]
  exact isLE_compare_then

theorem timeline_le_low {d : Dialect} (hd : d.nullsHigh = false) (a b : HistoryRow V M) :
    (compareBy (d.timelineOrder.map (OrderItem.compare d.nullsHigh)) a b).isLE = true ↔
      a.lowKey ≤ b.lowKey := by
  have hterms : compareBy (d.timelineOrder.map (OrderItem.compare d.nullsHigh)) a b =
      (compareNulls true false a.mvcc b.mvcc).then
        ((compare a.timestamp b.timestamp).then ((compare a.seq b.seq).then .eq)) := by
    cases d with
    | mysql | sqlserver => rfl
    | postgresql | snowflake => cases hd
  rw [hterms, compareNulls_asc_first]
  exact isLE_compare_then

theorem timeline_le_high {d : Dialect} (hd : d.nullsHigh = true) (a b : HistoryRow V M) :
    (compareBy (d.timelineOrder.map (OrderItem.compare d.nullsHigh)) a b).isLE = true ↔
      a.highKey ≤ b.highKey := by
  have hterms : compareBy (d.timelineOrder.map (OrderItem.compare d.nullsHigh)) a b =
      (compareNulls false false a.mvcc b.mvcc).then
        ((compare a.timestamp b.timestamp).then ((compare a.seq b.seq).then .eq)) := by
    cases d with
    | postgresql | snowflake => rfl
    | mysql | sqlserver => cases hd
  rw [hterms, compareNulls_asc_last]
  exact isLE_compare_then

theorem mvcc_le_of_lowKey_le {a b : HistoryRow V M} (h : a.lowKey ≤ b.lowKey) :
    nullsLow a.mvcc ≤ nullsLow b.mvcc := by
  rcases Prod.Lex.toLex_le_toLex.mp h with h | h
  · exact h.le
  · exact h.1.le

theorem mvcc_le_of_highKey_le {a b : HistoryRow V M} (h : a.highKey ≤ b.highKey) :
    nullsHigh a.mvcc ≤ nullsHigh b.mvcc := by
  rcases Prod.Lex.toLex_le_toLex.mp h with h | h
  · exact h.le
  · exact h.1.le

/-- Without a missing `mvcc` the two keys order the rows alike. -/
theorem lowKey_le_of_highKey_le {a b : HistoryRow V M} (ha : a.mvcc.isSome = true)
    (hb : b.mvcc.isSome = true) (h : a.highKey ≤ b.highKey) : a.lowKey ≤ b.lowKey := by
  obtain ⟨x, hx⟩ := Option.isSome_iff_exists.mp ha
  obtain ⟨y, hy⟩ := Option.isSome_iff_exists.mp hb
  rw [HistoryRow.highKey, HistoryRow.highKey, hx, hy, Prod.Lex.toLex_le_toLex] at h
  rw [HistoryRow.lowKey, HistoryRow.lowKey, hx, hy, Prod.Lex.toLex_le_toLex]
  rcases h with h | h
  · exact .inl (WithBot.coe_lt_coe.mpr (WithTop.coe_lt_coe.mp h))
  · exact .inr ⟨congrArg WithBot.some (WithTop.coe_injective h.1), h.2⟩

theorem ranked_perm (nullsHigh : Bool) (items : List OrderItem) (rows : List (HistoryRow V M)) :
    (ranked nullsHigh items rows).Perm rows := List.mergeSort_perm _ _

theorem ranked_nil (nullsHigh : Bool) (items : List OrderItem) :
    ranked nullsHigh items ([] : List (HistoryRow V M)) = [] := List.mergeSort_nil

variable {d : Dialect} {rows : List (HistoryRow V M)}

/-- The first row of the current order has the greatest key. -/
theorem head_current {r : HistoryRow V M}
    (h : (ranked d.nullsHigh d.currentOrder rows).head? = some r) :
    r ∈ rows ∧ ∀ r' ∈ rows, r'.lowKey ≤ r.lowKey :=
  head_mergeSort (fun r => OrderDual.toDual r.lowKey) (current_le d) h

/-- The row with the greatest key is the first of the current order. -/
theorem head_current_eq (hseq : (rows.map HistoryRow.seq).Nodup) {r : HistoryRow V M} (hr : r ∈ rows)
    (hmax : ∀ r' ∈ rows, r'.lowKey ≤ r.lowKey) :
    (ranked d.nullsHigh d.currentOrder rows).head? = some r := by
  cases hhead : (ranked d.nullsHigh d.currentOrder rows).head? with
  | none =>
    rw [List.head?_eq_none_iff] at hhead
    have hmem := (ranked_perm d.nullsHigh d.currentOrder rows).mem_iff.mpr hr
    rw [hhead] at hmem
    cases hmem
  | some first =>
    obtain ⟨hfirst, hle⟩ := head_current hhead
    rw [lowKey_injOn hseq hfirst hr (le_antisymm (hmax first hfirst) (hle r hr))]

end Keys

/-! ## The rows of one object -/

section Object

variable [LinearOrder M] [DecidableEq V] (model : Schema) (history : List (HistoryRow V M))

def rowsOf (k : List (Option V)) : List (HistoryRow V M) :=
  history.filter fun r => decide (r.toChange.object model = k)

variable (d : Dialect) (k : List (Option V))

/-- The row ranked first for an object is found among its own rows. -/
theorem latest_filter :
    (d.latest model history).filter (fun r => decide (r.toChange.object model = k)) =
      (ranked d.nullsHigh d.currentOrder (rowsOf model history k)).head?.toList := by
  rw [Dialect.latest, latestRows, List.filterMap_eq_flatMap_toList]
  refine filter_flatMap_groupBy (fun r : HistoryRow V M => r.toChange.object model)
    (f := fun rows => (ranked d.nullsHigh d.currentOrder rows).head?.toList) ?_ ?_ history k
  · rw [ranked_nil]
    rfl
  · intro k rows hrows r hr
    have hhead := List.mem_of_mem_head? (Option.mem_toList.mp hr)
    exact hrows r ((ranked_perm _ _ rows).mem_iff.mp hhead)

theorem timeline_filter :
    (d.timeline model history).filter (fun p => decide (p.1.toChange.object model = k)) =
      withLead (fun r => r.mvcc) (ranked d.nullsHigh d.timelineOrder (rowsOf model history k)) := by
  refine filter_flatMap_groupBy
    (fun p : HistoryRow V M × Option M => p.1.toChange.object model)
    (f := fun rows => withLead (fun r => r.mvcc) (ranked d.nullsHigh d.timelineOrder rows))
    ?_ ?_ history k
  · rw [ranked_nil]
    rfl
  · intro k rows hrows p hp
    have hfst : p.1 ∈ ranked d.nullsHigh d.timelineOrder rows := by
      rw [← withLead_fst (fun r : HistoryRow V M => r.mvcc)
        (ranked d.nullsHigh d.timelineOrder rows)]
      exact List.mem_map_of_mem hp
    exact hrows p.1 ((ranked_perm _ _ rows).mem_iff.mp hfst)

variable {model history d}

/-- The latest rows are those with the greatest key of their object. -/
theorem mem_latest_iff (hseq : (history.map HistoryRow.seq).Nodup) {r : HistoryRow V M} :
    r ∈ d.latest model history ↔ r ∈ history ∧
      ∀ r' ∈ history, r'.toChange.object model = r.toChange.object model → r'.lowKey ≤ r.lowKey := by
  have hrows : ((rowsOf model history (r.toChange.object model)).map HistoryRow.seq).Nodup :=
    hseq.sublist (List.filter_sublist.map _)
  have hmem : ∀ r', r' ∈ rowsOf model history (r.toChange.object model) ↔
      r' ∈ history ∧ r'.toChange.object model = r.toChange.object model := by
    intro r'
    rw [rowsOf, List.mem_filter, decide_eq_true_iff]
  have hhead : r ∈ d.latest model history ↔
      (ranked d.nullsHigh d.currentOrder
        (rowsOf model history (r.toChange.object model))).head? = some r := by
    rw [← Option.mem_toList, ← latest_filter, List.mem_filter]
    simp
  rw [hhead]
  constructor
  · intro h
    obtain ⟨hr, hmax⟩ := head_current h
    exact ⟨((hmem r).mp hr).1, fun r' hr' hobject => hmax r' ((hmem r').mpr ⟨hr', hobject⟩)⟩
  · intro h
    refine head_current_eq hrows ((hmem r).mpr ⟨h.1, rfl⟩) fun r' hr' => ?_
    exact h.2 r' ((hmem r').mp hr').1 ((hmem r').mp hr').2

/-- Every object that has a row has a latest one. -/
theorem exists_latest {r : HistoryRow V M} (hr : r ∈ history) :
    ∃ r' ∈ d.latest model history, r'.toChange.object model = r.toChange.object model := by
  have hrow : r ∈ rowsOf model history (r.toChange.object model) :=
    List.mem_filter.mpr ⟨hr, decide_eq_true rfl⟩
  have hfilter := latest_filter model history d (r.toChange.object model)
  cases hhead : (ranked d.nullsHigh d.currentOrder
      (rowsOf model history (r.toChange.object model))).head? with
  | none =>
    rw [List.head?_eq_none_iff] at hhead
    have hranked := (ranked_perm d.nullsHigh d.currentOrder _).mem_iff.mpr hrow
    rw [hhead] at hranked
    cases hranked
  | some r' =>
    rw [hhead] at hfilter
    have hmem : r' ∈ (d.latest model history).filter
        fun r' => decide (r'.toChange.object model = r.toChange.object model) := by
      rw [hfilter]
      exact List.mem_cons_self
    exact ⟨r', (List.mem_filter.mp hmem).1, of_decide_eq_true (List.mem_filter.mp hmem).2⟩

/-- An object has one latest row. -/
theorem latest_objects_nodup :
    ((d.latest model history).map fun r => r.toChange.object model).Nodup := by
  refine List.nodup_iff_count_le_one.mpr fun k => ?_
  have hfilter := latest_filter model history d k
  rw [List.count_eq_countP, List.countP_map, List.countP_eq_length_filter]
  have hlength : ((ranked d.nullsHigh d.currentOrder (rowsOf model history k)).head?.toList).length ≤ 1 := by
    cases (ranked d.nullsHigh d.currentOrder (rowsOf model history k)).head? <;> simp
  rw [← hfilter] at hlength
  refine le_of_eq_of_le (congrArg _ (List.filter_congr fun r _ => ?_)) hlength
  exact Bool.beq_eq_decide_eq _ _

end Object

/-- A change of a user. -/
def userChange (name : String) (mvcc : Option Int) : Change String Int where
  cells := Row.assign Engine.textual [("id", "'u1'"), ("name", name)] Row.blank
  operation := "INSERT"
  mvcc := mvcc
  timestamp := 0

def userRow (name : String) (mvcc : Option Int) (seq : Nat) : HistoryRow String Int :=
  ⟨userChange name mvcc, seq⟩

end Drivers
end Eds
