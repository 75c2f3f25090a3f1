import Eds.Consumer.Bootstrap
import Eds.Drivers.Sqlserver.Writes

/-!
# An import and the stream behind it, with merges

The MERGE of the SQL Server driver may do something else when it is run again, but not on the events
that are `Mergeable`; with those the import and the stream make the table of the whole history.
-/

namespace Eds
namespace Consumer

open Effects Effects.Prog Collections Drivers Import

variable {W D M V : Type}

/-- Import, then stream, over SQL Server.  If the merge of every event is by one id and assigns no
column that is coerced, what is outstanding leads to the table of the whole history, as it does for
the other two drivers; a coerced column has another value after a redelivery. -/
theorem snapshot_then_merges [DecidableEq M] [DecidableEq V] (engine : Engine V) {str : Json → String}
    {model : Schema} (hlit : Sqlserver.Literals engine model) (hpk : model.primaryKeys = ["id"])
    {files : Files W} {td : ExportJobTableData} {exported : Int}
    {name : String} {cfg : Setup.EdsConsumerConfig} {max : Int} {decoded : M → DBChangeEvent}
    {commit published : M → Int} {history : List M} {durable : Setup.Durable}
    (hgoes : GoesOn files td exported name cfg decoded commit published history)
    (hgapless : Gapless exported commit history) (hplaced : Setup.Placed cfg durable none)
    (hnodup : history.Nodup) (event : M → Option DBChangeEvent)
    (hevent : ∀ m evt, event m = some evt → Sqlserver.Mergeable engine str model evt)
    (hooks : SqlHooks D) (table : D → Table V) (d : D) (y : Delivery M D)
    (hreach : Visit.Reaches hooks table (kept (Setup.processorOf cfg max) decoded event)
      (history.filter (delivers durable published)) ⟨[], d⟩ y) (t : Table V)
    (hdb : Transacts hooks table (Sqlserver.toSql str · model) Sqlserver.Statement.render
      (Sqlserver.Statement.exec engine)
      fun evt => ∃ m, kept (Setup.processorOf cfg max) decoded event m = some evt)
    (hchrono : Chronological commit (statement event (Sqlserver.toSql str · model))
      (Sqlserver.Statement.meaning engine) history)
    (himported : table d = ((history.filter (isExported exported commit)).filterMap
      (statement event (Sqlserver.toSql str · model))).foldl (Sqlserver.Statement.exec engine) t) :
    ((outstanding (history.filter (delivers durable published)) y.confirmed).filterMap
      (statement (kept (Setup.processorOf cfg max) decoded event) (Sqlserver.toSql str · model))).foldl
        (Sqlserver.Statement.exec engine) (table y.store) =
      (history.filterMap (statement event (Sqlserver.toSql str · model))).foldl
        (Sqlserver.Statement.exec engine) t := by
  refine hgoes.caughtUp hgapless hchrono (fun m s hs => ?_) (fun m s hs k w hw => ?_) hplaced hnodup hdb
    hreach t himported
  · obtain ⟨evt, hm, hbuild⟩ := statement_eq_some hs
    exact Sqlserver.exec_meaning (Sqlserver.toSql_plain hpk (hevent m evt hm) hbuild)
  · obtain ⟨evt, hm, hbuild⟩ := statement_eq_some hs
    exact Sqlserver.toSql_agrees hlit hpk (hevent m evt hm) hbuild hw

/-! ### Three changes with numbers -/

def debtors : Schema where
  properties := ⟨[("id", ⟨"string", "", false, none⟩), ("debt", ⟨"integer", "", true, none⟩),
    ("visits", ⟨"integer", "", false, none⟩)], by decide⟩
  primaryKeys := ["id"]
  table := "user"
  modelVersion := "v1"

theorem debtors_columns : debtors.columns = ["id", "debt", "visits"] := by
  simp [Schema.columns, debtors, Dict.keys, List.mergeSort]

/-- The update says nothing of the visits, which are coerced where its merge inserts. -/
def debtOf (m : Fin 3) : Option (List (String × Json)) :=
  [some [("id", .str "u1"), ("debt", .int 12), ("visits", .int 3)],
    some [("id", .str "u1"), ("debt", .int 7)], none].getD m.val none

def debtChangeAt (m : Fin 3) : DBChangeEvent :=
  { userChangeAt m with
    object := debtOf m
    diff := .arr ([[], [.str "debt"], []].getD m.val [])
    after := (debtOf m).map .obj }

theorem debtChangeAt_heldAll (hooks : SqlHooks (Memory String)) : HeldAll hooks debtChangeAt := by
  intro mute m seq s
  match m with
  | 0 => rfl
  | 1 => rfl
  | 2 => rfl

def sqlserverDebts : List Sqlserver.Statement :=
  [.merge ⟨"user", "'u1'", [("debt", "12"), ("visits", "3")],
      [("id", "'u1'"), ("debt", "12"), ("visits", "3")]⟩,
    .merge ⟨"user", "'u1'", [("debt", "7")], [("id", "'u1'"), ("debt", "7"), ("visits", "0")]⟩,
    .delete "user" [("id", "'u1'")]]

def sqlserverReplica : SqlHooks (Memory String) :=
  replica (userStatement sqlserverDebts) Sqlserver.Statement.render
    (Sqlserver.Statement.exec Engine.textual) sqlserverDebts debtors

theorem sqlserverDebts_built (m : Fin 3) :
    Sqlserver.toSql Sqlserver.strOf (debtChangeAt m) debtors =
      userStatement sqlserverDebts (debtChangeAt m) := by
  match m with
  | 0 =>
    simp only [Sqlserver.toSql, Sqlserver.toSqlFromObject, Sqlserver.assigned, debtors_columns]
    rfl
  | 1 =>
    simp only [Sqlserver.toSql, Sqlserver.toSqlFromObject, Sqlserver.assigned, debtors_columns]
    rfl
  | 2 => rfl

theorem coerced_debtors {o : List (String × Json)} {name : String}
    (h : Sqlserver.Coerced debtors o name) :
    (name = "debt" ∨ name = "visits") ∧ (o.lookup name = none ∨ o.lookup name = some .null) := by
  unfold Sqlserver.Coerced Schema.property at h
  cases hget : debtors.properties.get? name with
  | none =>
    rw [hget] at h
    simp [SchemaProperty.blank] at h
  | some prop =>
    have hmem : (name, prop) ∈ debtors.properties.items := Dict.get?_eq_some.mp hget
    rw [hget] at h
    simp only [debtors, List.mem_cons, List.not_mem_nil, or_false] at hmem
    rcases hmem with hprop | hprop | hprop
    · cases hprop
      simp at h
    · cases hprop
      exact ⟨.inl rfl, by simpa using h⟩
    · cases hprop
      exact ⟨.inr rfl, by simpa using h⟩

theorem debtChangeAt_mergeable (m : Fin 3) :
    Sqlserver.Mergeable Engine.textual Sqlserver.strOf debtors (debtChangeAt m) where
  same hdelete := by
    match m with
    | 0 => exact ⟨columns_id rfl, .str "u1", "'u1'", "'u1'", rfl, rfl, rfl, rfl⟩
    | 1 => exact ⟨columns_id rfl, .str "u1", "'u1'", "'u1'", rfl, rfl, rfl, rfl⟩
    | 2 => cases hdelete
  uncoerced hdelete name hassigned hcoerced := by
    obtain ⟨hname, hlookup⟩ := coerced_debtors hcoerced
    match m with
    | 0 => rcases hname with rfl | rfl <;> rcases hlookup with hlookup | hlookup <;> cases hlookup
    | 1 =>
      obtain ⟨names, hnames, hmem⟩ := hassigned
      have hdiff : Sqlserver.assigned debtors (debtChangeAt 1).diff = .ok ["debt"] := by
        simp only [Sqlserver.assigned, debtors_columns]
        rfl
      rw [hdiff] at hnames
      cases hnames
      obtain rfl := List.mem_singleton.mp hmem
      rcases hlookup with hlookup | hlookup <;> cases hlookup
    | 2 => cases hdelete

theorem debtors_literals : Sqlserver.Literals Engine.textual debtors where
  null _ := rfl
  zero _ _ := by simp [Engine.textual]
  empty _ _ := by simp [Engine.textual]

theorem snapshot_then_merges_users :
    let held := fun m => some (debtChangeAt m)
    let stream := userHistory.filter (delivers userDurable userCommit)
    let cut := kept (Setup.processorOf userConsumer 2) debtChangeAt held
    let build := (Sqlserver.toSql Sqlserver.strOf · debtors)
    let y := cutDelivery sqlserverReplica debtChangeAt
      (userImport (Sqlserver.Statement.exec Engine.textual) debtChangeAt build)
    ((outstanding stream y.confirmed).filterMap (statement cut build)).foldl
        (Sqlserver.Statement.exec Engine.textual) y.store.rows =
      (userHistory.filterMap (statement held build)).foldl
        (Sqlserver.Statement.exec Engine.textual) fun _ => none := by
  intro held stream cut build y
  have hgoes : GoesOn namedFiles userFiles exportCursor "user" userConsumer debtChangeAt userCommit
      userCommit userHistory := userGoesOn userChangeAt_table fun _ => rfl
  have hgapless : Gapless exportCursor userCommit userHistory :=
    fun _ _ h => absurd h.2.2 (by decide)
  have hdb : Transacts sqlserverReplica Memory.rows build Sqlserver.Statement.render
      (Sqlserver.Statement.exec Engine.textual) fun evt => ∃ m, cut m = some evt :=
    replica_database ⟨by decide +kernel, by decide +kernel⟩ (change_built sqlserverDebts_built)
      fun _ _ => userStatement_mem
  refine snapshot_then_merges Engine.textual debtors_literals (rfl : debtors.primaryKeys = ["id"])
    hgoes hgapless (Setup.placed_durableOf none) (by decide) held (fun m evt h => ?_) sqlserverReplica
    Memory.rows _ _ (cutDelivery_reached (debtChangeAt_heldAll _) _) (fun _ => none) hdb
    userHistory_chronological rfl
  cases h
  exact debtChangeAt_mergeable m

end Consumer
end Eds
