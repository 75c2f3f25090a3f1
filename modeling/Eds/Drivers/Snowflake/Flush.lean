import Eds.Drivers.Snowflake.Sql
import Eds.Util.Sourced

/-!
# Planning a flush

`planFlush` turns the records of a batch into statements.  An update whose diff names
nothing but `updatedDate` and `meta` is noise and is skipped, and an insert for which
the tracker knows an earlier one is preceded by a delete.

The batch is coalesced before it is planned, and the rule for noise then sees the
union of the diffs of a run of updates.
-/

namespace Eds
namespace Drivers
namespace Snowflake

open Util

/-- The two lookups of the registry, which may raise. -/
structure SchemaRegistry where
  getTableVersion : String → Except Exn (Bool × String)
  getSchema : String → String → Except Exn Schema

/-- The schema of the current version; whether one was found is not looked at. -/
def SchemaRegistry.schemaOf (registry : SchemaRegistry) (table : String) : Except Exn Schema := do
  let (_, version) ← registry.getTableVersion table
  registry.getSchema table version

def isNoise (diff : List String) : Bool :=
  let justUpdatedDate := diff.length == 1 && diff.head? == some "updatedDate"
  let justUpdatedMeta := diff.length == 2 && diff.contains "updatedDate" && diff.contains "meta"
  let noUpdates := diff.length == 0
  justUpdatedDate || noUpdates || justUpdatedMeta

/-- An update that is not planned. -/
def skipped (record : Record) : Bool :=
  record.operation == "UPDATE" && isNoise (record.diff.getD [])

def trackerKey (record : Record) : String := "snowflake:" ++ record.table ++ ":" ++ record.id

structure FlushPlan where
  statements : List Statement
  cacheKeys : List String
  deleteKeys : List String

def FlushPlan.query (plan : FlushPlan) : String := String.join (plan.statements.map Statement.render)

def FlushPlan.statementCount (plan : FlushPlan) : Nat := plan.statements.length

/-- An insert that is preceded by a delete. -/
def forced (trackerHasKey : String → Bool) (record : Record) : Bool :=
  record.operation == "INSERT" && trackerHasKey (trackerKey record)

def planRecord (registry : SchemaRegistry) (trackerHasKey : String → Bool) (plan : FlushPlan)
    (record : Record) : Except Exn FlushPlan :=
  if skipped record then .ok plan
  else do
    let schema ← registry.schemaOf record.table
    let keys := if record.operation == "INSERT" || record.operation == "DELETE" then
      [trackerKey record] else []
    pure
      { statements := plan.statements ++ toSql record schema (forced trackerHasKey record)
        cacheKeys := plan.cacheKeys ++ keys
        deleteKeys := plan.deleteKeys ++ (if record.operation == "DELETE" then keys else []) }

def planFlush (records : List Record) (registry : SchemaRegistry) (trackerHasKey : String → Bool) :
    Except Exn FlushPlan :=
  records.foldlM (planRecord registry trackerHasKey) ⟨[], [], []⟩

/-- The statements of one record, for the schema of its table. -/
def statementsOf (schema : String → Schema) (trackerHasKey : String → Bool) (record : Record) :
    List Statement :=
  if skipped record then [] else toSql record (schema record.table) (forced trackerHasKey record)

/-- A registry that knows the tables of the batch plans it record by record. -/
theorem planFlush_statements {records : List Record} {registry : SchemaRegistry}
    {trackerHasKey : String → Bool} {schema : String → Schema}
    (hregistry : ∀ r ∈ records, registry.schemaOf r.table = .ok (schema r.table)) :
    ∃ plan, planFlush records registry trackerHasKey = .ok plan ∧
      plan.statements = records.flatMap (statementsOf schema trackerHasKey) := by
  have hfold : ∀ (records : List Record) (plan : FlushPlan),
      (∀ r ∈ records, registry.schemaOf r.table = .ok (schema r.table)) →
      ∃ plan', records.foldlM (planRecord registry trackerHasKey) plan = .ok plan' ∧
        plan'.statements =
          plan.statements ++ records.flatMap (statementsOf schema trackerHasKey) := by
    intro records
    induction records with
    | nil => intro plan _; exact ⟨plan, rfl, (List.append_nil _).symm⟩
    | cons r rest ih =>
      intro plan hr
      obtain ⟨next, hnext, hstatements⟩ : ∃ next, planRecord registry trackerHasKey plan r = .ok next ∧
          next.statements = plan.statements ++ statementsOf schema trackerHasKey r := by
        rw [planRecord, statementsOf]
        split
        · exact ⟨plan, rfl, (List.append_nil _).symm⟩
        · rw [hr r List.mem_cons_self]
          exact ⟨_, rfl, rfl⟩
      obtain ⟨plan', hplan', hall⟩ := ih next fun r' hr' => hr r' (List.mem_cons_of_mem _ hr')
      refine ⟨plan', ?_, ?_⟩
      · rw [List.foldlM_cons, hnext]
        exact hplan'
      · rw [hall, hstatements, List.flatMap_cons, List.append_assoc]
  obtain ⟨plan, hplan, hall⟩ := hfold records ⟨[], [], []⟩ hregistry
  exact ⟨plan, hplan, hall⟩

/-! ## Noise -/

theorem isNoise_iff (diff : List String) :
    isNoise diff = true ↔ diff = [] ∨ (diff.Nodup ∧ "updatedDate" ∈ diff ∧
      ∀ name ∈ diff, name = "updatedDate" ∨ name = "meta") := by
  match diff with
  | [] => simp [isNoise]
  | [a] =>
    have hlist : isNoise [a] = (a == "updatedDate") := by simp [isNoise]
    rw [hlist, beq_iff_eq]
    constructor
    · intro hgiven
      subst hgiven
      simp
    · intro hgiven
      rcases hgiven with h | ⟨_, h, _⟩
      · cases h
      · exact (List.mem_singleton.mp h).symm
  | [a, b] =>
    have hlist : isNoise [a, b] = ([a, b].contains "updatedDate" && [a, b].contains "meta") := by
      simp [isNoise]
    have hdate : "updatedDate" ≠ "meta" := by decide
    rw [hlist, Bool.and_eq_true, List.contains_iff_mem, List.contains_iff_mem]
    constructor
    · intro hgiven
      obtain ⟨hmem, hmeta⟩ := hgiven
      refine Or.inr ⟨?_, hmem, ?_⟩
      · grind
      · grind
    · intro hgiven
      rcases hgiven with h | ⟨hnodup, hmem, hnames⟩
      · cases h
      · have ha := hnames a List.mem_cons_self
        have hb := hnames b (by simp)
        have hab : a ≠ b := by simpa using hnodup
        grind
  | a :: b :: c :: rest =>
    -- Two names do not fill three places.
    have hlist : isNoise (a :: b :: c :: rest) = false := by simp [isNoise]
    rw [hlist]
    refine iff_of_false Bool.false_ne_true ?_
    intro hgiven
    rcases hgiven with h | ⟨hnodup, _, hnames⟩
    · cases h
    · have ha := hnames a List.mem_cons_self
      have hb := hnames b (by simp)
      have hc := hnames c (by simp)
      obtain ⟨⟨hab, hac, _⟩, ⟨hbc, _⟩, _⟩ := by simpa using hnodup
      grind

theorem mem_diff_foldl {name : String} (rest : List Record) (first : Record) :
    name ∈ (rest.foldl mergeUpdate first).diff.getD [] ↔
      ∃ r ∈ first :: rest, name ∈ r.diff.getD [] := by
  induction rest generalizing first with
  | nil => simp
  | cons r rest ih =>
    rw [List.foldl_cons, ih]
    have hmerge : name ∈ (mergeUpdate first r).diff.getD [] ↔
        name ∈ first.diff.getD [] ∨ name ∈ r.diff.getD [] := mem_unionDiff
    simp only [List.mem_cons, exists_eq_or_imp, hmerge, or_assoc]

theorem nodup_diff_foldl (rest : List Record) (first : Record) :
    ((rest.foldl mergeUpdate first).diff.getD []).Nodup ↔ (first.diff.getD []).Nodup := by
  induction rest generalizing first with
  | nil => exact Iff.rfl
  | cons r rest ih =>
    rw [List.foldl_cons, ih]
    exact nodup_unionDiff

theorem operation_foldl (rest : List Record) (first : Record) :
    (rest.foldl mergeUpdate first).operation = first.operation := by
  induction rest generalizing first with
  | nil => rfl
  | cons r rest ih => rw [List.foldl_cons, ih]; rfl

/-- The merged diff of a run is noise if it names `updatedDate` and at most `meta`
beside it; only the first diff of the run can name one of them twice. -/
def NoisyRun (run : List Record) : Prop :=
  (∃ r ∈ run, "updatedDate" ∈ r.diff.getD []) ∧
    (∀ r ∈ run, ∀ name ∈ r.diff.getD [], name = "updatedDate" ∨ name = "meta") ∧
    ∀ r ∈ run.head?, (r.diff.getD []).Nodup

theorem skipped_mergeRun {run : List Record} (hupdates : ∀ r ∈ run, r.operation = "UPDATE")
    {u m : Record} (hu : u ∈ run) (hskipped : skipped u = false) (hm : m ∈ mergeRun run) :
    skipped m = true ↔ NoisyRun run := by
  cases run with
  | nil => cases hu
  | cons first rest =>
    cases hm
    have hop : (rest.foldl mergeUpdate first).operation = "UPDATE" := by
      rw [operation_foldl]
      exact hupdates first List.mem_cons_self
    have hne : (rest.foldl mergeUpdate first).diff.getD [] ≠ [] := by
      intro hempty
      have hnone : u.diff.getD [] = [] := List.eq_nil_iff_forall_not_mem.mpr fun name hname => by
        have := (mem_diff_foldl rest first).mpr ⟨u, hu, hname⟩
        rw [hempty] at this
        cases this
      rw [skipped, hupdates u hu, hnone] at hskipped
      cases hskipped
    rw [skipped, hop, beq_self_eq_true, Bool.true_and, isNoise_iff, or_iff_right hne,
      nodup_diff_foldl, mem_diff_foldl]
    constructor
    · intro h
      obtain ⟨hnodup, hdate, hnames⟩ := h
      refine ⟨hdate, fun r hr name hname => ?_, by simpa using hnodup⟩
      exact hnames name ((mem_diff_foldl rest first).mpr ⟨r, hr, hname⟩)
    · intro h
      obtain ⟨hdate, hnames, hnodup⟩ := h
      refine ⟨by simpa using hnodup, hdate, fun name hname => ?_⟩
      obtain ⟨r, hr, hname⟩ := (mem_diff_foldl rest first).mp hname
      exact hnames r hr name hname

theorem operation_updateRun (records : List Record) (i : Nat) {u : Record}
    (hop : u.operation = "UPDATE") : ∀ r ∈ updateRun records i u, r.operation = "UPDATE" := by
  intro r hr
  have hupdate : ∀ l : List Record, r ∈ l.takeWhile isUpdate → r.operation = "UPDATE" :=
    fun l hr => by simpa [isUpdate] using List.mem_takeWhile_imp hr
  rcases List.mem_append.mp hr with hr | hr
  · exact hupdate _ (List.mem_reverse.mp hr)
  · rcases List.mem_cons.mp hr with rfl | hr
    · exact hop
    · exact hupdate _ hr

/-- An update after the last delete of its object that is not noise by itself is part
of a coalesced record that is planned, unless a delete comes later that another
object of its group brings, or the run of updates around it merges to noise. -/
theorem update_planned_iff (records : List Record) (i : Nat) (u : Record)
    (hu : records[i]? = some u) (hop : u.operation = "UPDATE")
    (hlast : ∀ r ∈ records.drop (i + 1), r.pair = u.pair → r.operation ≠ "DELETE")
    (hskipped : skipped u = false) :
    (∃ out ∈ combineSourced records, i ∈ out.sources ∧ skipped out.record = false) ↔
      (∀ r ∈ records.drop (i + 1), r.pair ≠ u.pair → groupKey r = groupKey u →
        r.operation ≠ "DELETE") ∧
      ¬ NoisyRun (updateRun records i u) := by
  refine (exists_combineSourced_iff (Q := fun r => skipped r = false) hu hop).trans
    (and_congr ?_ ?_)
  · constructor
    · intro hdeleted r hr _ hkey hdelete
      exact hdeleted ⟨r, hr, hkey, hdelete⟩
    · intro hother h
      obtain ⟨r, hr, hkey, hdelete⟩ := h
      by_cases hpair : r.pair = u.pair
      · exact hlast r hr hpair hdelete
      · exact hother r hr hpair hkey hdelete
  · have hrun := operation_updateRun records i hop
    have hmem := mem_updateRun_self records i u
    obtain ⟨m, hm⟩ : ∃ m, mergeRun (updateRun records i u) = some m := by
      cases hlist : updateRun records i u with
      | nil => rw [hlist] at hmem; cases hmem
      | cons first rest => exact ⟨_, rfl⟩
    have hiff := skipped_mergeRun hrun hmem hskipped hm
    rw [hm]
    simp only [Option.mem_some_iff, forall_eq']
    rw [← hiff, Bool.not_eq_true]

/-- Updates of one row with the given diffs. -/
def updatesOf (diffs : List (List String)) : List Record :=
  diffs.map fun diff => Record.sample "user" "1" "UPDATE" diff

/-- A change of `meta` is merged with a change of `updatedDate`, and both are lost. -/
theorem update_lost_in_merge :
    let records := updatesOf [["meta"], ["updatedDate"]]
    records.map skipped = [false, true] ∧
      ¬ ∃ out ∈ combineSourced records, 0 ∈ out.sources ∧ skipped out.record = false := by
  decide +kernel

theorem update_planned_iff_named :
    let records := updatesOf [["name"], ["updatedDate"]]
    (∃ out ∈ combineSourced records, 0 ∈ out.sources ∧ skipped out.record = false) := by
  intro records
  have hnoisy : ¬ NoisyRun (updateRun records 0 (Record.sample "user" "1" "UPDATE" ["name"])) := by
    intro hnoisy
    exact absurd (hnoisy.2.1 _ (mem_updateRun_self _ _ _) "name" (by decide)) (by decide)
  refine (update_planned_iff records 0 (Record.sample "user" "1" "UPDATE" ["name"]) rfl rfl
    ?_ (by decide)).mpr ⟨?_, hnoisy⟩
  · decide
  · decide

end Snowflake
end Drivers
end Eds
