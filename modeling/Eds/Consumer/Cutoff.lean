import Eds.Consumer.BatchProcessor
import Eds.Import.Client

/-!
# The export cutoff

Three resolutions meet in the cutoff: the export time of a table is known to the
nanosecond, its cutoff is stored in whole microseconds, and the event carries whole
milliseconds.  All of them round down.  An event of the millisecond in which its
table was exported is therefore compared by the start of that millisecond, and the
cutoff lies after it as soon as it has left the first microsecond.
-/

namespace Eds
namespace Consumer

open Collections Import

theorem fromMillis_eq_instant (ms : Int) :
    fromMillis ms = instant (1000 * ms + millisDrift ms) := by
  rw [fromMillis, fromTimestamp, millisDrift]
  congr 1
  ring

/-- Where a millisecond is skipped: it is a date, and it lies before the cutoff. -/
theorem beforeCutoff_iff {cfg : Config} {evt : DBChangeEvent}
    {cutoffs : Dict String (Option Int)} {table : String} {cutoff : Int}
    (hcutoffs : cfg.tableTimestamps = some cutoffs) (htable : evt.table = .str table)
    (hcutoff : cutoffs.get? table = some (some cutoff)) (hmax : cutoff ≤ maxMicros) :
    beforeCutoff cfg evt = .ok true ↔
      minMicros ≤ 1000 * evt.timestamp + millisDrift evt.timestamp ∧
      1000 * evt.timestamp + millisDrift evt.timestamp < cutoff := by
  have hlookup : lookupCutoff cutoffs evt.table = .ok (some cutoff) := by
    rw [htable, lookupCutoff, hcutoff]
    rfl
  rw [beforeCutoff, hcutoffs]
  simp only [hlookup, fromMillis_eq_instant, instant]
  by_cases hin : minMicros ≤ 1000 * evt.timestamp + millisDrift evt.timestamp ∧
      1000 * evt.timestamp + millisDrift evt.timestamp ≤ maxMicros
  · rw [if_pos hin]
    simp [hin.1]
  · rw [if_neg hin]
    constructor
    · intro h
      cases h
    · intro hgiven
      obtain ⟨hlo, hhi⟩ := hgiven
      exact absurd ⟨hlo, by omega⟩ hin

/-- The cutoff is the whole microsecond of the export. -/
theorem tableInfo_timestamp {W : Type} {files : Files W} {table : String}
    {td : ExportJobTableData} {info : TableExportInfo} {exported : Int}
    (hinfo : tableInfo files (table, td) = .ok info) (hexported : exportNanos files td = .ok exported) :
    info.timestamp = exported / 1000 ∧ info.timestamp ≤ maxMicros := by
  rw [tableInfo, hexported] at hinfo
  by_cases hin : minMicros ≤ exported / 1000 ∧ exported / 1000 ≤ maxMicros
  · have hdate : nanosToDt exported = .ok (exported / 1000) := if_pos hin
    rw [show info = { table := table, timestamp := exported / 1000 } by
      simpa [hdate, bind, Except.bind, pure, Except.pure] using hinfo.symm]
    exact ⟨rfl, hin.2⟩
  · have hdate : nanosToDt exported = .error (.exception "date value out of range") := if_neg hin
    simp [hdate, bind, Except.bind] at hinfo

/-- An event skipped by the cutoff was committed before the export exactly when the
start of its millisecond, as the double arithmetic has it, is not before the cutoff
or its commit was.  Between the years 1697 and 2242 what goes wrong is the rest of
the millisecond of an export that is past its first microsecond. -/
theorem skipped_before_export_iff {W : Type} (files : Files W) (td : ExportJobTableData)
    (table : String) (info : TableExportInfo) (cfg : Config) (cutoffs : Dict String (Option Int))
    (evt : DBChangeEvent) (exported commit : Int)
    (hinfo : tableInfo files (table, td) = .ok info) (hexported : exportNanos files td = .ok exported)
    (hcutoffs : cfg.tableTimestamps = some cutoffs)
    (hcutoff : cutoffs.get? table = some (some info.timestamp))
    (htable : evt.table = .str table) (hcommit : evt.timestamp = commit / 1000000) :
    ((beforeCutoff cfg evt = .ok true → commit < exported) ↔
      commit < exported ∨
      exported / 1000 ≤ 1000 * (commit / 1000000) + millisDrift (commit / 1000000) ∨
      1000 * (commit / 1000000) + millisDrift (commit / 1000000) < minMicros) ∧
    (|commit / 1000000| < 2 ^ 33 * 1000 →
      ((beforeCutoff cfg evt = .ok true → commit < exported) ↔
        ¬ (exported ≤ commit ∧ commit / 1000000 = exported / 1000000 ∧
          1000 ≤ exported % 1000000))) := by
  obtain ⟨hcutoffAt, hmax⟩ := tableInfo_timestamp hinfo hexported
  have hskip := beforeCutoff_iff hcutoffs htable hcutoff hmax
  rw [hcommit, hcutoffAt] at hskip
  have hgeneral : (beforeCutoff cfg evt = .ok true → commit < exported) ↔
      commit < exported ∨
      exported / 1000 ≤ 1000 * (commit / 1000000) + millisDrift (commit / 1000000) ∨
      1000 * (commit / 1000000) + millisDrift (commit / 1000000) < minMicros := by
    rw [hskip]
    omega
  refine ⟨hgeneral, fun hnear => ?_⟩
  have hin := (abs_lt.mp hnear).1
  rw [hgeneral, millisDrift_eq_zero hnear]
  unfold minMicros
  omega

/-! ## An update lost in the millisecond of the export -/

/-- Cursors are read as `nanos`, and there are no files. -/
def cursorOnly (nanos : Int) : Files Unit where
  fileTime _ := none
  cursorNanos _ := .ok nanos
  baseName url := url
  fetchAll _ _ := Effects.Prog.raise (.exception "no files")

/-- One and a half milliseconds into the year 2026. -/
def exportedAt : Int := 1767225600001500000

/-- Half a millisecond later, short of a nanosecond. -/
def committedAt : Int := 1767225600001999999

def withoutFiles : ExportJobTableData where
  error := ""
  status := "Completed"
  urls := []
  cursor := "1767225600001500000"

def exportedUser : TableExportInfo where
  table := "user"
  timestamp := exportedAt / 1000

def userCutoff : Dict String (Option Int) :=
  ⟨[("user", some exportedUser.timestamp)], List.nodup_singleton "user"⟩

def Config.afterExport : Config := { Config.pairs with tableTimestamps := some userCutoff }

def committedUpdate : DBChangeEvent where
  operation := .str "UPDATE"
  table := .str "user"
  modelVersion := .str "v1"
  object := none
  diff := .null
  timestamp := committedAt / 1000000
  schemaValidatedPath := none

theorem committed_skipped : beforeCutoff Config.afterExport committedUpdate = .ok true := by
  rw [beforeCutoff_iff rfl rfl rfl (by decide), millisDrift_eq_zero (by decide)]
  decide

theorem update_skipped_after_export :
    exportNanos (cursorOnly exportedAt) withoutFiles = .ok exportedAt ∧
    tableInfo (cursorOnly exportedAt) ("user", withoutFiles) = .ok exportedUser ∧
    beforeCutoff Config.afterExport committedUpdate = .ok true ∧
    ¬ committedAt < exportedAt :=
  ⟨rfl, rfl, committed_skipped, by decide⟩

theorem skipped_before_export_iff_committed :
    |committedAt / 1000000| < 2 ^ 33 * 1000 ∧
    ((beforeCutoff Config.afterExport committedUpdate = .ok true →
        committedAt < exportedAt) ↔
      ¬ (exportedAt ≤ committedAt ∧ committedAt / 1000000 = exportedAt / 1000000 ∧
        1000 ≤ exportedAt % 1000000)) :=
  ⟨by decide, (skipped_before_export_iff (cursorOnly exportedAt) withoutFiles "user"
    exportedUser Config.afterExport userCutoff committedUpdate exportedAt committedAt
    rfl rfl rfl rfl rfl rfl).2 (by decide)⟩

end Consumer
end Eds
