import Eds.Drivers.Redelivery
import Eds.Drivers.Sqlserver.Redelivery

/-!
# Merges as writes

A merge is a write to one key if the literal that it matches by and the one that it inserts are the
same id, and its two branches agree where no column that it assigns is coerced.
-/

namespace Eds
namespace Drivers
namespace Sqlserver

open Collections

variable {V : Type}

section Meaning

variable [DecidableEq V] (engine : Engine V)

def Statement.meaning : Statement → Option (V × Write String (Option V))
  | .merge m =>
    if (m.sets.map Prod.fst).Nodup then
      (m.row engine "id").map fun k => (k, .put (m.row engine) (Row.patch engine m.sets))
    else none
  | .delete _ conds =>
    match conds with
    | [(_, text)] => (engine.eval "id" text).map fun k => (k, .erase)
    | _ => none

def Statement.Plain : Statement → Prop
  | .merge m => (∀ s ∈ m.sets, s.1 ≠ "id") ∧ engine.eval "id" m.sourceId = m.row engine "id"
  | .delete _ conds => ∃ text, conds = [("id", text)]

variable {engine}

theorem exec_meaning {s : Statement} (hs : s.Plain engine) (t : Table V) :
    s.exec engine t = Collections.exec t (s.meaning engine) := by
  cases s with
  | delete table conds =>
    obtain ⟨text, rfl⟩ := hs
    rw [Statement.exec, Table.deleteWhere_id, Statement.meaning]
    cases engine.eval "id" text <;> rfl
  | merge m =>
    obtain ⟨hsets, hsource⟩ := hs
    rw [Statement.exec, Statement.meaning]
    by_cases hnodup : (m.sets.map Prod.fst).Nodup
    swap
    · rw [Merge.exec_refused hnodup, if_neg hnodup]
      rfl
    rw [if_pos hnodup]
    cases hrow : m.row engine "id" with
    | none =>
      rw [hrow] at hsource
      have hfree : ∀ k, engine.eval "id" m.sourceId = some k → t k = none := by
        intro k hk
        rw [hsource] at hk
        cases hk
      rw [Merge.exec_unmatched hnodup hfree]
      simp [Table.insert, hrow, Collections.exec]
    | some k =>
      rw [hrow] at hsource
      simp only [Option.map_some, Collections.exec]
      cases hold : t k with
      | none =>
        have hfree : ∀ k', engine.eval "id" m.sourceId = some k' → t k' = none := by
          intro k' hk'
          rw [hsource] at hk'
          cases hk'
          exact hold
        rw [Merge.exec_unmatched hnodup hfree, Table.insert_of_free hrow hold]
        rfl
      | some old =>
        have hpatch : Row.assign engine m.sets old =
            fun c => (Row.patch engine m.sets c).getD (old c) :=
          funext fun c => Row.assign_eq_patch engine m.sets old c
        rw [Merge.exec_matched hnodup hsets hsource hold, hpatch]
        rfl

end Meaning

section Built

variable {engine : Engine V} {str : Json → String} {model : Schema} {evt : DBChangeEvent} {s : Statement}

/-- The merge of an event is by one id, and none of the columns it assigns is coerced. -/
structure Mergeable (engine : Engine V) (str : Json → String) (model : Schema) (evt : DBChangeEvent) :
    Prop where
  same : evt.operation.eqStr "DELETE" = false → SameId engine str model (getObject evt)
  uncoerced : evt.operation.eqStr "DELETE" = false →
    ∀ name, Assigned model evt.diff name → ¬Coerced model (getObject evt) name

theorem toSql_cases (hpk : model.primaryKeys = ["id"]) (h : toSql str evt model = .ok s) :
    (∃ table text, s = .delete table [("id", text)]) ∨
      evt.operation.eqStr "DELETE" = false ∧ ∃ m, s = .merge m ∧
        ∃ names update insert, m.Texts str model (getObject evt) evt.diff names update insert := by
  unfold toSql at h
  cases hdelete : evt.operation.eqStr "DELETE" with
  | true =>
    rw [hdelete, if_pos rfl, hpk] at h
    obtain ⟨conds, hconds, h⟩ := bind_eq_ok.mp h
    obtain ⟨table, _, h⟩ := bind_eq_ok.mp h
    cases h
    obtain ⟨v, text, _, _, rfl⟩ := conditions_id quoteValue hconds
    exact .inl ⟨table, text, rfl⟩
  | false =>
    rw [hdelete, if_neg Bool.false_ne_true] at h
    refine .inr ⟨rfl, ?_⟩
    cases s with
    | merge m => exact ⟨m, rfl, toSqlFromObject_texts h⟩
    | delete table conds =>
      rw [toSqlFromObject] at h
      obtain ⟨names, _, h⟩ := bind_eq_ok.mp h
      obtain ⟨sets, _, h⟩ := bind_eq_ok.mp h
      obtain ⟨inserts, _, h⟩ := bind_eq_ok.mp h
      obtain ⟨name, _, h⟩ := bind_eq_ok.mp h
      cases hv : (getObject evt).lookup "id" with
      | none => rw [hv] at h; cases h
      | some v => rw [hv] at h; cases h

theorem toSql_plain (hpk : model.primaryKeys = ["id"]) (hevt : Mergeable engine str model evt)
    (h : toSql str evt model = .ok s) : s.Plain engine := by
  rcases toSql_cases hpk h with ⟨table, text, rfl⟩ | ⟨hdelete, m, rfl, names, update, insert, htexts⟩
  · exact ⟨text, rfl⟩
  · obtain ⟨k, hsource, hrow⟩ := htexts.sameId_iff.mp (hevt.same hdelete)
    exact ⟨htexts.sets_ne, hsource.trans hrow.symm⟩

theorem toSql_agrees (hlit : Literals engine model) (hpk : model.primaryKeys = ["id"])
    (hevt : Mergeable engine str model evt) (h : toSql str evt model = .ok s) {k : V}
    {w : Write String (Option V)} (hw : s.meaning engine = some (k, w)) : w.Agrees := by
  rcases toSql_cases hpk h with ⟨table, text, rfl⟩ | ⟨hdelete, m, rfl, names, update, insert, htexts⟩
  · obtain ⟨k', _, hw⟩ := Option.map_eq_some_iff.mp hw
    cases hw
    trivial
  · rw [Statement.meaning] at hw
    split at hw
    swap
    · cases hw
    obtain ⟨k', _, hw⟩ := Option.map_eq_some_iff.mp hw
    cases hw
    have hkept : Row.assign engine m.sets (m.row engine) = m.row engine :=
      htexts.kept_iff.mpr ((htexts.columns_iff hlit).mpr (hevt.uncoerced hdelete))
    intro c v hv
    have hc := congrFun hkept c
    rw [Row.assign_eq_patch, hv] at hc
    exact hc.symm

end Built

end Sqlserver
end Drivers
end Eds
