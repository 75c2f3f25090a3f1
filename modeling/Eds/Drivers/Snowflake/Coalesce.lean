import Eds.Drivers.Snowflake.Flush
import Mathlib.Data.List.Chain

/-!
# Coalescing does not change the tables

A batch that is coalesced before it is planned leaves every row as the batch itself
does, up to the columns `updatedDate` and `meta`.  The statements of a record touch
one row, and coalescing is local, so the argument is about the records of one row.

Along a batch the simulation compares the row with the row under the records kept so
far: the ones in front, and the merge of the run that is under way.  A run of updates
ends with the snapshot of its last update.  If the last ones are noise, the batch
itself stops at an earlier snapshot, and the two differ in the columns that noise may
touch.
-/

namespace Eds
namespace Drivers
namespace Snowflake

open Util Collections

variable {V : Type}

/-! ## Rows up to noise -/

def RowAlike (row row' : Row V) : Prop :=
  ∀ c, c ≠ "updatedDate" → c ≠ "meta" → row c = row' c

inductive Alike : Option (Row V) → Option (Row V) → Prop where
  | absent : Alike none none
  | present {row row' : Row V} (h : RowAlike row row') : Alike (some row) (some row')

theorem RowAlike.refl (row : Row V) : RowAlike row row := fun _ _ _ => rfl

theorem Alike.refl (c : Option (Row V)) : Alike c c := by
  cases c with
  | none => exact .absent
  | some row => exact .present (RowAlike.refl row)

theorem RowAlike.trans {r s t : Row V} (h : RowAlike r s) (h' : RowAlike s t) : RowAlike r t :=
  fun c hdate hmeta => (h c hdate hmeta).trans (h' c hdate hmeta)

theorem Alike.trans {c d e : Option (Row V)} (h : Alike c d) (h' : Alike d e) : Alike c e := by
  cases h with
  | absent => exact h'
  | present h =>
    cases h' with
    | present h' => exact .present (h.trans h')

/-- The row that a write starts from. -/
def base (c : Option (Row V)) : Row V := c.getD Row.blank

theorem Alike.base {c d : Option (Row V)} (h : Alike c d) : RowAlike (base c) (base d) := by
  cases h with
  | absent => exact RowAlike.refl _
  | present h => exact h

section Object

variable (engine : Engine V) (model : Schema) (trackerHasKey : String → Bool)

def value (r : Record) (name : String) : Option Json := (r.object.getD []).lookup name

/-- The text written to a column. -/
def text (r : Record) (name : String) : String :=
  (columnText model (r.object.getD []) name).getD ""

/-- What a `MERGE` compares with the row. -/
def source (r : Record) : Option V :=
  engine.eval "updatedDate" (quoteValue
    ((((r.event.bind DBChangeEvent.object).getD []).lookup "updatedDate").getD .null) "")

def stored (r : Record) : Option V := engine.eval "updatedDate" (text model r "updatedDate")

def keyOf (r : Record) : Option V := engine.eval "id" (quoteValue (.str r.id) "")

/-- The row with the columns of the snapshot. -/
def overlay (r : Record) (row : Row V) : Row V := fun c =>
  if c ∈ model.columns then engine.eval c (text model r c) else row c

def write (r : Record) : Option (Row V) → Option (Row V)
  | none => some (overlay engine model r Row.blank)
  | some row =>
    if engine.newer (source engine r) (row "updatedDate") then some (overlay engine model r row)
    else some row

/-- What the statements of a record do to its row. -/
def cell (c : Option (Row V)) (r : Record) : Option (Row V) :=
  if skipped r then c
  else if r.operation = "DELETE" then none
  else write engine model r (if forced trackerHasKey r then none else c)

/-! ## The records of one object -/

/-- A full snapshot of the object, with its id. -/
structure Snapshot (r : Record) : Prop where
  full : ∀ c ∈ model.columns, (value r c).isSome = true
  id : value r "id" = some (.str r.id)

/-- The columns in the diff of an update are distinct and `updatedDate` is one. -/
structure Tidy (r : Record) : Prop where
  nodup : (r.diff.getD []).Nodup
  dated : "updatedDate" ∈ r.diff.getD []

/-- The columns outside its diff are as the record before has them. -/
def Unchanged (r r' : Record) : Prop :=
  r.operation ≠ "DELETE" → r'.operation = "UPDATE" →
    ∀ c ∈ model.columns, c ∉ r'.diff.getD [] → value r' c = value r c

def Later (r r' : Record) : Prop :=
  r.operation ≠ "DELETE" → r'.operation ≠ "DELETE" →
    engine.newer (source engine r') (stored engine model r) = true

structure Orderly (records : List Record) : Prop where
  operation : ∀ r ∈ records,
    r.operation = "INSERT" ∨ r.operation = "UPDATE" ∨ r.operation = "DELETE"
  snapshot : ∀ r ∈ records, r.operation ≠ "DELETE" → Snapshot model r
  tidy : ∀ r ∈ records, r.operation = "UPDATE" → Tidy r
  later : records.Pairwise (Later engine model)
  unchanged : records.IsChain (Unchanged model)

/-- The row is older than what is to come. -/
def Older (c : Option (Row V)) (records : List Record) : Prop :=
  ∀ row, c = some row → ∀ r ∈ records, r.operation ≠ "DELETE" →
    engine.newer (source engine r) (row "updatedDate") = true

variable {engine model trackerHasKey}

theorem Orderly.tail {r : Record} {rest : List Record} (h : Orderly engine model (r :: rest)) :
    Orderly engine model rest :=
  ⟨fun r hr => h.operation r (List.mem_cons_of_mem _ hr),
    fun r hr => h.snapshot r (List.mem_cons_of_mem _ hr),
    fun r hr => h.tidy r (List.mem_cons_of_mem _ hr),
    (List.pairwise_cons.mp h.later).2, h.unchanged.tail⟩

theorem Older.tail {c : Option (Row V)} {r : Record} {rest : List Record}
    (h : Older engine c (r :: rest)) : Older engine c rest :=
  fun row hrow r hr => h row hrow r (List.mem_cons_of_mem _ hr)

theorem older_none (records : List Record) : Older engine (none : Option (Row V)) records :=
  nofun

/-! ## Single writes -/

theorem overlay_alike (r : Record) {row row' : Row V} (h : RowAlike row row') :
    RowAlike (overlay engine model r row) (overlay engine model r row') := by
  intro c hdate hmeta
  unfold overlay
  split
  · rfl
  · exact h c hdate hmeta

theorem overlay_overlay (r r' : Record) (row : Row V) :
    overlay engine model r' (overlay engine model r row) = overlay engine model r' row := by
  funext c
  unfold overlay
  split <;> rfl

/-- A row that is older than the record is written. -/
theorem write_older {r : Record} {c : Option (Row V)} (hop : r.operation ≠ "DELETE")
    (hc : Older engine c [r]) : write engine model r c = some (overlay engine model r (base c)) := by
  cases c with
  | none => rfl
  | some row => rw [write, if_pos (hc row rfl r (List.mem_singleton_self r) hop)]; rfl

theorem cell_skipped {r : Record} {c : Option (Row V)} (h : skipped r = true) :
    cell engine model trackerHasKey c r = c := if_pos h

theorem cell_delete {r : Record} {c : Option (Row V)} (h : r.operation = "DELETE") :
    cell engine model trackerHasKey c r = none := by
  have hskipped : skipped r = false := by simp [skipped, h]
  simp [cell, hskipped, h]

theorem cell_update {r : Record} {c : Option (Row V)} (hop : r.operation = "UPDATE")
    (hskipped : skipped r = false) (hc : Older engine c [r]) :
    cell engine model trackerHasKey c r = some (overlay engine model r (base c)) := by
  have hdelete : r.operation ≠ "DELETE" := by rw [hop]; decide
  have hforced : forced trackerHasKey r = false := by simp [forced, hop]
  rw [cell, if_neg (by simp [hskipped]), if_neg hdelete, hforced]
  exact write_older hdelete hc

/-- The same record keeps rows alike. -/
theorem cell_alike {r : Record} {c d : Option (Row V)} (h : Alike c d) (hc : Older engine c [r])
    (hd : Older engine d [r]) :
    Alike (cell engine model trackerHasKey c r) (cell engine model trackerHasKey d r) := by
  unfold cell
  split
  · exact h
  · split
    · exact .absent
    · next hdelete =>
      split
      · exact Alike.refl _
      · rw [write_older hdelete hc, write_older hdelete hd]
        exact .present (overlay_alike r h.base)

/-- What is written has the date of its record. -/
theorem older_cell (hdate : "updatedDate" ∈ model.columns) {r : Record} {rest : List Record}
    (hr : Orderly engine model (r :: rest)) {c : Option (Row V)}
    (hc : Older engine c (r :: rest)) :
    Older engine (cell engine model trackerHasKey c r) rest := by
  by_cases hskipped : skipped r = true
  · rw [cell_skipped hskipped]
    exact hc.tail
  · by_cases hdelete : r.operation = "DELETE"
    · rw [cell_delete hdelete]
      exact older_none rest
    · have hwritten : ∃ row₀, cell engine model trackerHasKey c r =
          some (overlay engine model r row₀) := by
        rw [cell, if_neg hskipped, if_neg hdelete]
        split
        · exact ⟨_, rfl⟩
        · refine ⟨_, write_older hdelete fun row hrow r' hr' => hc row hrow r' ?_⟩
          rw [List.mem_singleton.mp hr']
          exact List.mem_cons_self
      obtain ⟨row₀, hrow₀⟩ := hwritten
      rw [hrow₀]
      intro row hrow r' hr' hop
      cases hrow
      have hstored : overlay engine model r row₀ "updatedDate" = stored engine model r := by
        rw [overlay, if_pos hdate]
        rfl
      rw [hstored]
      exact (List.pairwise_cons.mp hr.later).1 r' hr' hdelete hop

/-! ## Merging two updates -/

section Merge

variable {previous r : Record}

theorem value_mergeUpdate (hr : Snapshot model r) {c : String} (hc : c ∈ model.columns) :
    value (mergeUpdate previous r) c = value r c := by
  show (updateObject (previous.object.getD []) (r.object.getD [])).lookup c = value r c
  rw [lookup_updateObject]
  obtain ⟨v, hv⟩ := Option.isSome_iff_exists.mp (hr.full c hc)
  show (value r c).or _ = value r c
  rw [hv]
  rfl

theorem text_congr {r r' : Record} {c : String} (h : value r c = value r' c) :
    text model r c = text model r' c := by
  unfold text columnText
  rw [show (r.object.getD []).lookup c = (r'.object.getD []).lookup c from h]

theorem text_mergeUpdate (hr : Snapshot model r) {c : String} (hc : c ∈ model.columns) :
    text model (mergeUpdate previous r) c = text model r c :=
  text_congr (value_mergeUpdate hr hc)

theorem overlay_mergeUpdate (hr : Snapshot model r) (row : Row V) :
    overlay engine model (mergeUpdate previous r) row = overlay engine model r row := by
  funext c
  unfold overlay
  split
  · next hc => rw [text_mergeUpdate hr hc]
  · rfl

theorem Tidy.skipped_iff (h : Tidy r) (hop : r.operation = "UPDATE") :
    skipped r = true ↔ ∀ name ∈ r.diff.getD [], name = "updatedDate" ∨ name = "meta" := by
  have hne : r.diff.getD [] ≠ [] := List.ne_nil_of_mem h.dated
  rw [skipped, hop, beq_self_eq_true, Bool.true_and, isNoise_iff, or_iff_right hne]
  exact ⟨fun hall => hall.2.2, fun hall => ⟨h.nodup, h.dated, hall⟩⟩

theorem Tidy.mergeUpdate (hp : Tidy previous) : Tidy (mergeUpdate previous r) :=
  ⟨nodup_unionDiff.mpr hp.nodup, mem_unionDiff.mpr (Or.inl hp.dated)⟩

/-- A merge is noise if both of its parts are. -/
theorem skipped_mergeUpdate (hp : Tidy previous) (hr : Tidy r)
    (hpop : previous.operation = "UPDATE") (hop : r.operation = "UPDATE") :
    skipped (mergeUpdate previous r) = true ↔ skipped previous = true ∧ skipped r = true := by
  rw [(hp.mergeUpdate (r := r)).skipped_iff hpop, hp.skipped_iff hpop, hr.skipped_iff hop]
  have hmem : ∀ name, name ∈ (Util.mergeUpdate previous r).diff.getD [] ↔
      name ∈ previous.diff.getD [] ∨ name ∈ r.diff.getD [] := fun _ => mem_unionDiff
  simp only [hmem, or_imp, forall_and]

/-- What noise leaves as it was. -/
theorem overlay_noise (hr : Tidy r) (hop : r.operation = "UPDATE") (hskipped : skipped r = true)
    (hunchanged : Unchanged model previous r) (hdelete : previous.operation ≠ "DELETE")
    (row : Row V) :
    RowAlike (overlay engine model previous row) (overlay engine model r row) := by
  intro c hdate hmeta
  unfold overlay
  split
  · next hc =>
    have hdiff : c ∉ r.diff.getD [] := fun hmem =>
      ((hr.skipped_iff hop).mp hskipped c hmem).elim hdate hmeta
    rw [text_congr (hunchanged hdelete hop c hc hdiff)]
  · rfl

/-- The merge stands for its two parts in what follows. -/
theorem Orderly.mergeUpdate (hdate : "updatedDate" ∈ model.columns) {rest : List Record}
    (h : Orderly engine model (previous :: r :: rest)) (hid : previous.id = r.id)
    (hpop : previous.operation = "UPDATE") (hop : r.operation = "UPDATE") :
    Orderly engine model (mergeUpdate previous r :: rest) := by
  have hpdelete : previous.operation ≠ "DELETE" := by rw [hpop]; decide
  have hdelete : r.operation ≠ "DELETE" := by rw [hop]; decide
  have hsnap := h.snapshot r (by simp) hdelete
  have htail := h.tail.tail
  refine ⟨?_, ?_, ?_, ?_, ?_⟩
  · intro r' hr'
    rcases List.mem_cons.mp hr' with rfl | hr'
    · exact Or.inr (Or.inl hpop)
    · exact htail.operation r' hr'
  · intro r' hr' hop'
    rcases List.mem_cons.mp hr' with rfl | hr'
    · refine ⟨fun c hc => ?_, ?_⟩
      · rw [value_mergeUpdate hsnap hc]
        exact hsnap.full c hc
      · show (updateObject _ _).lookup "id" = some (.str previous.id)
        rw [lookup_updateObject, show (r.object.getD []).lookup "id" = _ from hsnap.id, hid]
        rfl
    · exact htail.snapshot r' hr' hop'
  · intro r' hr' hop'
    rcases List.mem_cons.mp hr' with rfl | hr'
    · exact (h.tidy previous (by simp) hpop).mergeUpdate
    · exact htail.tidy r' hr' hop'
  · refine List.pairwise_cons.mpr ⟨fun r' hr' _ hop' => ?_, htail.later⟩
    have hlater := (List.pairwise_cons.mp h.tail.later).1 r' hr' hdelete hop'
    rw [stored, text_mergeUpdate hsnap hdate]
    exact hlater
  · refine htail.unchanged.cons ?_
    intro r' hr' _ hop' c hc hdiff
    rw [value_mergeUpdate hsnap hc]
    exact (List.isChain_cons.mp h.tail.unchanged).1 r' hr' hdelete hop' c hc hdiff

end Merge

/-! ## The simulation -/

/-- `row` is the row under the records so far, and `front` and `previous` are the
records kept for them. -/
structure Simulates (engine : Engine V) (model : Schema) (trackerHasKey : String → Bool)
    (c₀ : Option (Row V)) (st : List Record × Record) (rest : List Record) (c : Option (Row V)) :
    Prop where
  orderly : Orderly engine model (st.2 :: rest)
  same : ∀ r ∈ rest, r.id = st.2.id
  alike : Alike c (cell engine model trackerHasKey
    (st.1.foldl (cell engine model trackerHasKey) c₀) st.2)
  older : Older engine c rest
  front : Older engine (st.1.foldl (cell engine model trackerHasKey) c₀) (st.2 :: rest)
  initial : Older engine c₀ rest

section Steps

variable {c₀ c : Option (Row V)} {st : List Record × Record} {r : Record} {rest : List Record}

theorem Simulates.delete
    (h : Simulates engine model trackerHasKey c₀ st (r :: rest) c) (hop : r.operation = "DELETE") :
    Simulates engine model trackerHasKey c₀ ([], r) rest (cell engine model trackerHasKey c r) := by
  have hcell : cell engine model trackerHasKey c r = none := cell_delete hop
  refine ⟨h.orderly.tail, fun r' hr' => ?_, ?_, ?_, h.initial, h.initial.tail⟩
  · rw [h.same r' (List.mem_cons_of_mem _ hr'), h.same r List.mem_cons_self]
  · rw [hcell, List.foldl_nil, cell_delete hop]
    exact .absent
  · rw [hcell]
    exact older_none rest

theorem older_singleton {c : Option (Row V)} (h : Older engine c (r :: rest)) :
    Older engine c [r] := by
  intro row hrow r' hr'
  rw [List.mem_singleton.mp hr']
  exact h row hrow r List.mem_cons_self

theorem Simulates.keep (hdate : "updatedDate" ∈ model.columns)
    (h : Simulates engine model trackerHasKey c₀ st (r :: rest) c) :
    Simulates engine model trackerHasKey c₀ (st.1 ++ [st.2], r) rest
      (cell engine model trackerHasKey c r) := by
  have hfront : Older engine (cell engine model trackerHasKey
      (st.1.foldl (cell engine model trackerHasKey) c₀) st.2) (r :: rest) :=
    older_cell hdate h.orderly h.front
  have hfold : (st.1 ++ [st.2]).foldl (cell engine model trackerHasKey) c₀ =
      cell engine model trackerHasKey (st.1.foldl (cell engine model trackerHasKey) c₀) st.2 := by
    rw [List.foldl_append]
    rfl
  refine ⟨h.orderly.tail, fun r' hr' => ?_, ?_, older_cell hdate h.orderly.tail h.older, ?_,
    h.initial.tail⟩
  · rw [h.same r' (List.mem_cons_of_mem _ hr'), h.same r List.mem_cons_self]
  · rw [hfold]
    exact cell_alike h.alike (older_singleton h.older) (older_singleton hfront)
  · rw [hfold]
    exact hfront

/-- An update joins the run: the row gets its snapshot, or keeps one that differs from
it by noise. -/
theorem Simulates.merge (hdate : "updatedDate" ∈ model.columns)
    (h : Simulates engine model trackerHasKey c₀ st (r :: rest) c)
    (hpop : st.2.operation = "UPDATE") (hop : r.operation = "UPDATE") :
    Simulates engine model trackerHasKey c₀ (st.1, mergeUpdate st.2 r) rest
      (cell engine model trackerHasKey c r) := by
  obtain ⟨front, previous⟩ := st
  have hid : previous.id = r.id := (h.same r List.mem_cons_self).symm
  have hpdelete : previous.operation ≠ "DELETE" := by rw [hpop]; decide
  have hdelete : r.operation ≠ "DELETE" := by rw [hop]; decide
  have hsnap := h.orderly.snapshot r (by simp) hdelete
  have hptidy := h.orderly.tidy previous List.mem_cons_self hpop
  have htidy := h.orderly.tidy r (by simp) hop
  have hunchanged : Unchanged model previous r := (List.isChain_cons_cons.mp h.orderly.unchanged).1
  have horderly := h.orderly.mergeUpdate hdate hid hpop hop
  have hmerged : Older engine (front.foldl (cell engine model trackerHasKey) c₀)
      (mergeUpdate previous r :: rest) := by
    intro row hrow r' hr' hop'
    rcases List.mem_cons.mp hr' with rfl | hr'
    · exact h.front row hrow r (by simp) hdelete
    · exact h.front row hrow r' (by simp [hr']) hop'
  refine ⟨horderly, fun r' hr' => h.same r' (List.mem_cons_of_mem _ hr'), ?_,
    older_cell hdate h.orderly.tail h.older, hmerged, h.initial.tail⟩
  have halike := h.alike
  have hfront := older_singleton h.front
  have hskip := skipped_mergeUpdate hptidy htidy hpop hop
  generalize front.foldl (cell engine model trackerHasKey) c₀ = f at halike hfront hmerged ⊢
  have hmerge : skipped (mergeUpdate previous r) = false →
      cell engine model trackerHasKey f (mergeUpdate previous r) =
        some (overlay engine model r (base f)) := by
    intro hnot
    rw [cell_update (r := mergeUpdate previous r) hpop hnot (older_singleton hmerged),
      overlay_mergeUpdate hsnap]
  simp only at halike hskip ⊢
  by_cases hr : skipped r = true
  · rw [cell_skipped hr]
    by_cases hp : skipped previous = true
    · rw [cell_skipped hp] at halike
      rw [cell_skipped (hskip.mpr ⟨hp, hr⟩)]
      exact halike
    · rw [cell_update hpop (by simpa using hp) hfront] at halike
      rw [hmerge (Bool.eq_false_iff.mpr fun hm => hp (hskip.mp hm).1)]
      exact halike.trans (.present (overlay_noise htidy hop hr hunchanged hpdelete _))
  · rw [cell_update hop (by simpa using hr) (older_singleton h.older),
      hmerge (Bool.eq_false_iff.mpr fun hm => hr (hskip.mp hm).2)]
    refine .present ?_
    by_cases hp : skipped previous = true
    · rw [cell_skipped hp] at halike
      exact overlay_alike r halike.base
    · rw [cell_update hpop (by simpa using hp) hfront] at halike
      rw [← overlay_overlay previous r (base f)]
      exact overlay_alike r halike.base

theorem Simulates.step (hdate : "updatedDate" ∈ model.columns)
    (h : Simulates engine model trackerHasKey c₀ st (r :: rest) c) :
    Simulates engine model trackerHasKey c₀ (collapseStep batchType mergeUpdate st r) rest
      (cell engine model trackerHasKey c r) := by
  obtain ⟨front, previous⟩ := st
  by_cases hdelete : r.operation = "DELETE"
  · rw [collapseStep, batchType, if_pos hdelete]
    exact h.delete hdelete
  · by_cases hupdate : r.operation = "UPDATE" ∧ previous.operation = "UPDATE"
    · rw [collapseStep, batchType, if_neg hdelete, if_pos hupdate.1, if_pos hupdate.2]
      exact h.merge hdate hupdate.2 hupdate.1
    · have hkeep : batchType r previous = .keep := by
        rw [batchType, if_neg hdelete]
        split
        · next hop => exact if_neg fun hpop => hupdate ⟨hop, hpop⟩
        · rfl
      rw [collapseStep, hkeep]
      exact h.keep hdate

/-- The records of one object and their coalescing leave its row alike. -/
theorem combine_alike (hdate : "updatedDate" ∈ model.columns) {id : String}
    {records : List Record} (h : Orderly engine model records) (hid : ∀ r ∈ records, r.id = id)
    {c₀ : Option (Row V)} (hc₀ : Older engine c₀ records) :
    Alike (records.foldl (cell engine model trackerHasKey) c₀)
      ((combine records).foldl (cell engine model trackerHasKey) c₀) := by
  have hrun : ∀ (rest : List Record) (st : List Record × Record) (c : Option (Row V)),
      Simulates engine model trackerHasKey c₀ st rest c →
      Alike (rest.foldl (cell engine model trackerHasKey) c)
        ((collapseFrom batchType mergeUpdate st rest).foldl (cell engine model trackerHasKey) c₀) := by
    intro rest
    induction rest with
    | nil =>
      intro st c hsim
      rw [collapseFrom, List.foldl_nil, List.foldl_nil, List.foldl_append]
      exact hsim.alike
    | cons r rest ih =>
      intro st c hsim
      rw [List.foldl_cons, collapseFrom_cons]
      exact ih _ _ (hsim.step hdate)
  cases records with
  | nil => exact Alike.refl c₀
  | cons first rest =>
    refine hrun rest ([], first) _ ⟨h, fun r hr => ?_, Alike.refl _, older_cell hdate h hc₀, hc₀,
      hc₀.tail⟩
    rw [hid r (List.mem_cons_of_mem _ hr), hid first List.mem_cons_self]

end Steps

end Object

/-! ## From rows to tables -/

section Tables

variable [DecidableEq V] {engine : Engine V}

/-- The id column is written as the id is: no function wraps it. -/
structure Keyed (model : Schema) : Prop where
  id : "id" ∈ model.columns
  updatedDate : "updatedDate" ∈ model.columns
  plain : generateInsertFunction (model.property "id") = ""

theorem columnText_snapshot {model : Schema} {r : Record} (hr : Snapshot model r) {c : String}
    (hc : c ∈ model.columns) : columnText model (r.object.getD []) c = some (text model r c) := by
  obtain ⟨v, hv⟩ := Option.isSome_iff_exists.mp (hr.full c hc)
  rw [text, columnText, show (r.object.getD []).lookup c = some v from hv]
  rfl

theorem text_id {model : Schema} (hmodel : Keyed model) {r : Record} (hr : Snapshot model r) :
    text model r "id" = quoteValue (.str r.id) "" := by
  rw [text, columnText, show (r.object.getD []).lookup "id" = _ from hr.id, hmodel.plain]
  rfl

theorem columnTexts_snapshot {model : Schema} {r : Record} (hr : Snapshot model r) :
    (model.columns.filterMap fun name =>
      (columnText model (r.object.getD []) name).map (name, ·)) =
      model.columns.map fun name => (name, text model r name) := by
  rw [← List.filterMap_eq_map]
  refine List.filterMap_congr fun c hc => ?_
  rw [columnText_snapshot hr hc]
  rfl

theorem insertTexts_snapshot {model : Schema} {r : Record} (hr : Snapshot model r) :
    (model.columns.map fun name => (name, (columnText model (r.object.getD []) name).getD
      (nullableValue (model.property name) true))) =
      model.columns.map fun name => (name, text model r name) := by
  refine List.map_congr_left fun c hc => ?_
  rw [columnText_snapshot hr hc]
  rfl

theorem exec_toDeleteSql (r : Record) (db : Db V) (t : String) (k : V) :
    Statement.exec engine db (toDeleteSql r) t k =
      if r.table = t ∧ keyOf engine r = some k then none else db t k := by
  show Function.update db r.table ((db r.table).delete (keyOf engine r)) t k = _
  by_cases ht : r.table = t
  · subst ht
    rw [Function.update_self]
    cases hk : keyOf engine r with
    | none => simp [Table.delete]
    | some k' =>
      by_cases hkk : k = k'
      · subst hkk
        simp [Table.delete]
      · simp [Table.delete, Function.update_of_ne hkk, Ne.symm hkk]
  · rw [Function.update_of_ne (Ne.symm ht), if_neg fun h => ht h.1]

omit [DecidableEq V] in
theorem assign_texts (model : Schema) (r : Record) (row : Row V) :
    Row.assign engine (model.columns.map fun name => (name, text model r name)) row =
      overlay engine model r row := by
  funext c
  rw [Row.assign_map]
  rfl

omit [DecidableEq V] in
theorem overlay_id {model : Schema} (hmodel : Keyed model) {r : Record} (hr : Snapshot model r)
    (row : Row V) : overlay engine model r row "id" = keyOf engine r := by
  rw [overlay, if_pos hmodel.id, text_id hmodel hr]
  rfl

/-- What a `MERGE` with a key does to its table. -/
theorem merge_row {model : Schema} (hmodel : Keyed model) {r : Record} (hr : Snapshot model r)
    {k : V} (hk : keyOf engine r = some k) (tbl : Table V) :
    (match tbl k with
      | none => tbl.insert (overlay engine model r Row.blank)
      | some row => if engine.newer (source engine r) (row "updatedDate") = true then
          tbl.update engine (model.columns.map fun name => (name, text model r name)) k row
        else tbl) =
      Function.update tbl k (write engine model r (tbl k)) := by
  have hkey : ∀ row : Row V, overlay engine model r row "id" = some k :=
    fun row => (overlay_id hmodel hr row).trans hk
  cases hrow : tbl k with
  | none => exact Table.insert_of_free (hkey _) hrow
  | some row =>
    rw [write]
    by_cases hnewer : engine.newer (source engine r) (row "updatedDate") = true
    · simp only [if_pos hnewer]
      rw [Table.update_same (Or.inr (by rw [assign_texts, hkey])), assign_texts]
    · simp only [if_neg hnewer]
      rw [← hrow]
      exact (Function.update_eq_self k tbl).symm

/-- The `MERGE` of a snapshot writes its row, and without a key nothing. -/
theorem exec_toMergeSql {model : Schema} (hmodel : Keyed model) {r : Record}
    (hr : Snapshot model r) (db : Db V) (t : String) (k : V) :
    Statement.exec engine db (toMergeSql r model) t k =
      if r.table = t ∧ keyOf engine r = some k then write engine model r (db t k) else db t k := by
  simp only [toMergeSql, Statement.exec, Merge.exec, columnTexts_snapshot hr,
    insertTexts_snapshot hr, assign_texts]
  by_cases ht : r.table = t
  · subst ht
    rw [Function.update_self]
    rw [show engine.eval "id" (quoteValue (.str r.id) "") = keyOf engine r from rfl]
    cases hk : keyOf engine r with
    | none => simp [Table.insert, overlay_id hmodel hr, hk]
    | some k' =>
      refine (congrFun (merge_row hmodel hr hk (db r.table)) k).trans ?_
      by_cases hkk : k = k'
      · subst hkk
        simp
      · simp [Function.update_of_ne hkk, Ne.symm hkk]
  · rw [Function.update_of_ne (Ne.symm ht), if_neg fun h => ht h.1]

variable {schema : String → Schema} {trackerHasKey : String → Bool}

/-- The statements of a record touch its own row only. -/
theorem execAll_statementsOf {r : Record} (hmodel : Keyed (schema r.table))
    (hr : r.operation ≠ "DELETE" → Snapshot (schema r.table) r) (db : Db V) (t : String) (k : V) :
    execAll engine (statementsOf schema trackerHasKey r) db t k =
      if r.table = t ∧ keyOf engine r = some k then
        cell engine (schema t) trackerHasKey (db t k) r
      else db t k := by
  have htable : r.table = t ∧ keyOf engine r = some k → schema r.table = schema t :=
    fun h => congrArg schema h.1
  rw [statementsOf]
  by_cases hskipped : skipped r = true
  · simp [hskipped, execAll, cell]
  · rw [if_neg hskipped, toSql]
    by_cases hdelete : r.operation = "DELETE"
    · have hbeq : (r.operation == "DELETE") = true := by simp [hdelete]
      simp only [hbeq, Bool.or_true, if_true, List.append_nil]
      refine (exec_toDeleteSql r db t k).trans ?_
      split
      · exact (cell_delete hdelete).symm
      · rfl
    · have hbeq : (r.operation == "DELETE") = false := by simpa using hdelete
      have hcell : ∀ c : Option (Row V), cell engine (schema t) trackerHasKey c r =
          write engine (schema t) r (if forced trackerHasKey r then none else c) := fun c => by
        rw [cell, if_neg hskipped, if_neg hdelete]
      simp only [hbeq, Bool.or_false, Bool.false_eq_true, if_false, hcell]
      by_cases hforced : forced trackerHasKey r = true
      · simp only [if_pos hforced]
        refine (exec_toMergeSql hmodel (hr hdelete) _ t k).trans ?_
        rw [exec_toDeleteSql]
        split
        · next h => rw [htable h]
        · rfl
      · simp only [if_neg hforced]
        refine (exec_toMergeSql hmodel (hr hdelete) db t k).trans ?_
        split
        · next h => rw [htable h]
        · rfl

/-- At one row a list of records is run as the sublist that is about it. -/
theorem execAll_flatMap {records : List Record} (hmodel : ∀ r ∈ records, Keyed (schema r.table))
    (hr : ∀ r ∈ records, r.operation ≠ "DELETE" → Snapshot (schema r.table) r) (db : Db V)
    (t : String) (k : V) :
    execAll engine (records.flatMap (statementsOf schema trackerHasKey)) db t k =
      (records.filter fun r => decide (r.table = t ∧ keyOf engine r = some k)).foldl
        (cell engine (schema t) trackerHasKey) (db t k) := by
  induction records generalizing db with
  | nil => rfl
  | cons r rest ih =>
    have hrest := ih (fun r hr => hmodel r (List.mem_cons_of_mem _ hr))
      (fun r hr' => hr r (List.mem_cons_of_mem _ hr'))
      (execAll engine (statementsOf schema trackerHasKey r) db)
    rw [List.flatMap_cons, execAll, List.foldl_append]
    refine hrest.trans ?_
    rw [execAll_statementsOf (hmodel r List.mem_cons_self) (hr r List.mem_cons_self)]
    by_cases hcell : r.table = t ∧ keyOf engine r = some k
    · rw [if_pos hcell, List.filter_cons_of_pos (by simpa using hcell)]
      rfl
    · rw [if_neg hcell, List.filter_cons_of_neg (by simpa using hcell)]

/-! ## Batches -/

/-- What is known of a batch and of the tables it meets: table and id are determined
by their concatenation, different ids of a table are different keys, the records of
each object are orderly, and its row, if there is one, is older than they are. -/
structure Coherent (engine : Engine V) (schema : String → Schema) (db : Db V)
    (records : List Record) : Prop where
  keyed : ∀ r ∈ records, Keyed (schema r.table)
  determined : Set.InjOn concat {p | ∃ r ∈ records, r.pair = p}
  distinct : ∀ r ∈ records, ∀ r' ∈ records, r.table = r'.table → keyOf engine r ≠ none →
    keyOf engine r = keyOf engine r' → r.id = r'.id
  orderly : ∀ p, Orderly engine (schema p.1) (records.filter fun r => decide (r.pair = p))
  older : ∀ r ∈ records, ∀ k, keyOf engine r = some k →
    Older engine (db r.table k) (records.filter fun r' => decide (r'.pair = r.pair))

theorem pair_of_mem_combineRecords {records : List Record} {r : Record}
    (hr : r ∈ combineRecordsWithSamePrimaryKey records) : ∃ r₀ ∈ records, r₀.pair = r.pair := by
  obtain ⟨⟨k, group⟩, hgroup, hr⟩ := List.mem_flatMap.mp hr
  refine combine_forall_pair (P := fun p => ∃ r₀ ∈ records, r₀.pair = p) (fun r₀ hr₀ => ?_) r hr
  rw [← groupOf_eq_of_mem (keys_groupBy_nodup groupKey records) hgroup, groupOf_groupBy] at hr₀
  exact ⟨r₀, List.mem_of_mem_filter hr₀, rfl⟩

theorem combineRecords_filter_pair {records : List Record}
    (h : Set.InjOn concat {p | ∃ r ∈ records, r.pair = p}) (p : String × String) :
    (combineRecordsWithSamePrimaryKey records).filter (fun r => decide (r.pair = p)) =
      combine (records.filter fun r => decide (r.pair = p)) := by
  rw [local_of_injOn h p]
  refine combineRecords_of_groupKey (k := concat p) fun r hr => ?_
  exact congrArg concat (of_decide_eq_true (List.mem_filter.mp hr).2)

theorem updates_of_join {r previous : Record} (h : batchType r previous = .join) :
    r.operation = "UPDATE" ∧ previous.operation = "UPDATE" := by
  unfold batchType at h
  split at h
  · cases h
  · split at h
    · next hop =>
      split at h
      · next hpop => exact ⟨hop, hpop⟩
      · cases h
    · cases h

/-- Coalesced records are snapshots too. -/
theorem snapshot_combine {model : Schema} {p : String × String} {records : List Record}
    (hpair : ∀ r ∈ records, r.pair = p)
    (hr : ∀ r ∈ records, r.operation ≠ "DELETE" → Snapshot model r) :
    ∀ r ∈ combine records, r.operation ≠ "DELETE" → Snapshot model r := by
  have hall : ∀ r ∈ combine records, r.pair = p ∧ (r.operation ≠ "DELETE" → Snapshot model r) := by
    refine collapse_forall (P := fun r : Record => r.pair = p ∧ (r.operation ≠ "DELETE" → Snapshot model r))
      ?_ fun r hmem => ⟨hpair r hmem, hr r hmem⟩
    intro previous r hjoin hprevious hnext
    obtain ⟨hop, _⟩ := updates_of_join hjoin
    have hr : Snapshot model r := hnext.2 (by rw [hop]; decide)
    refine ⟨hprevious.1, fun _ => ⟨fun c hc => ?_, ?_⟩⟩
    · rw [value_mergeUpdate hr hc]
      exact hr.full c hc
    · have hid : r.id = previous.id := congrArg Prod.snd (hnext.1.trans hprevious.1.symm)
      show (updateObject _ _).lookup "id" = some (.str previous.id)
      rw [lookup_updateObject, show (r.object.getD []).lookup "id" = _ from hr.id, hid]
      rfl
  exact fun r hmem => (hall r hmem).2

omit [DecidableEq V] in
theorem origin_of_mem_combineRecords (engine : Engine V) {records : List Record} {r : Record}
    (hr : r ∈ combineRecordsWithSamePrimaryKey records) : ∃ r₀ ∈ records,
      r₀.table = r.table ∧ keyOf engine r₀ = keyOf engine r ∧ r₀.pair = r.pair := by
  obtain ⟨r₀, hr₀, hpair⟩ := pair_of_mem_combineRecords hr
  have hid : r₀.id = r.id := congrArg Prod.snd hpair
  exact ⟨r₀, hr₀, congrArg Prod.fst hpair, by rw [keyOf, hid]; rfl, hpair⟩

section Coherent

variable {engine : Engine V} {schema : String → Schema} {db : Db V} {records : List Record}

omit [DecidableEq V] in
theorem Coherent.snapshot (h : Coherent engine schema db records) :
    ∀ r ∈ records, r.operation ≠ "DELETE" → Snapshot (schema r.table) r :=
  fun r hr => (h.orderly r.pair).snapshot r (List.mem_filter.mpr ⟨hr, decide_eq_true rfl⟩)

omit [DecidableEq V] in
theorem Coherent.snapshot_combined (h : Coherent engine schema db records) :
    ∀ r ∈ combineRecordsWithSamePrimaryKey records, r.operation ≠ "DELETE" →
      Snapshot (schema r.table) r := by
  intro r hr
  have hmem : r ∈ combine (records.filter fun r' => decide (r'.pair = r.pair)) := by
    rw [← combineRecords_filter_pair h.determined]
    exact List.mem_filter.mpr ⟨hr, decide_eq_true rfl⟩
  exact snapshot_combine (p := r.pair) (fun r' hr' => of_decide_eq_true (List.mem_filter.mp hr').2)
    (h.orderly r.pair).snapshot r hmem

omit [DecidableEq V] in
/-- The records of one row are those of one object. -/
theorem Coherent.cell_iff (h : Coherent engine schema db records) {r₀ : Record} (hr₀ : r₀ ∈ records)
    {k : V} (hkey : keyOf engine r₀ = some k) {r : Record} (hr : r ∈ records) :
    (r.table = r₀.table ∧ keyOf engine r = some k) ↔ r.pair = r₀.pair := by
  constructor
  · intro hcell
    have hid : r.id = r₀.id := h.distinct r hr r₀ hr₀ hcell.1 (by rw [hcell.2]; exact nofun)
      (hcell.2.trans hkey.symm)
    exact Prod.ext hcell.1 hid
  · intro hpair
    refine ⟨congrArg Prod.fst hpair, ?_⟩
    rw [keyOf, show r.id = r₀.id from congrArg Prod.snd hpair]
    exact hkey

theorem Coherent.filter_cell (h : Coherent engine schema db records) {r₀ : Record}
    (hr₀ : r₀ ∈ records) {k : V} (hkey : keyOf engine r₀ = some k) :
    (records.filter fun r => decide (r.table = r₀.table ∧ keyOf engine r = some k)) =
      records.filter fun r => decide (r.pair = r₀.pair) := by
  refine List.filter_congr fun r hr => ?_
  rw [decide_eq_decide]
  exact h.cell_iff hr₀ hkey hr

theorem Coherent.filter_cell_combined (h : Coherent engine schema db records) {r₀ : Record}
    (hr₀ : r₀ ∈ records) {k : V} (hkey : keyOf engine r₀ = some k) :
    ((combineRecordsWithSamePrimaryKey records).filter
      fun r => decide (r.table = r₀.table ∧ keyOf engine r = some k)) =
      combine (records.filter fun r => decide (r.pair = r₀.pair)) := by
  rw [← combineRecords_filter_pair h.determined]
  refine List.filter_congr fun r hr => ?_
  obtain ⟨r₁, hr₁, htable, hr₁key, hpair⟩ := origin_of_mem_combineRecords engine hr
  rw [decide_eq_decide, ← htable, ← hr₁key, ← hpair]
  exact h.cell_iff hr₀ hkey hr₁

end Coherent

/-- Whatever the tracker knows, the statements of a batch and those of the coalesced
batch leave the same rows, up to `updatedDate` and `meta`. -/
theorem planFlush_combine_alike (engine : Engine V) (schema : String → Schema)
    (registry : SchemaRegistry) (trackerHasKey : String → Bool) (db : Db V) (records : List Record)
    (hregistry : ∀ r ∈ records, registry.schemaOf r.table = .ok (schema r.table))
    (h : Coherent engine schema db records) :
    ∃ plan plan', planFlush records registry trackerHasKey = .ok plan ∧
      planFlush (combineRecordsWithSamePrimaryKey records) registry trackerHasKey = .ok plan' ∧
      ∀ t k, Alike (execAll engine plan.statements db t k) (execAll engine plan'.statements db t k) := by
  have hkeyed : ∀ r ∈ combineRecordsWithSamePrimaryKey records, Keyed (schema r.table) := by
    intro r hr
    obtain ⟨r₀, hr₀, htable, _⟩ := origin_of_mem_combineRecords engine hr
    exact htable ▸ h.keyed r₀ hr₀
  have hknown : ∀ r ∈ combineRecordsWithSamePrimaryKey records,
      registry.schemaOf r.table = .ok (schema r.table) := by
    intro r hr
    obtain ⟨r₀, hr₀, htable, _⟩ := origin_of_mem_combineRecords engine hr
    exact htable ▸ hregistry r₀ hr₀
  obtain ⟨plan, hplan, hstatements⟩ : ∃ plan, planFlush records registry trackerHasKey = .ok plan ∧
    plan.statements = records.flatMap (statementsOf schema trackerHasKey) :=
    planFlush_statements hregistry
  obtain ⟨plan', hplan', hstatements'⟩ : ∃ plan,
    planFlush (combineRecordsWithSamePrimaryKey records) registry trackerHasKey = .ok plan ∧
    plan.statements =
      (combineRecordsWithSamePrimaryKey records).flatMap (statementsOf schema trackerHasKey) :=
    planFlush_statements hknown
  refine ⟨plan, plan', hplan, hplan', fun t k => ?_⟩
  rw [hstatements, hstatements', execAll_flatMap h.keyed h.snapshot,
    execAll_flatMap hkeyed h.snapshot_combined]
  -- A row is written by the records of one object, or by none.
  by_cases hrow : ∃ r₀ ∈ records, r₀.table = t ∧ keyOf engine r₀ = some k
  · obtain ⟨r₀, hr₀, rfl, hkey⟩ := hrow
    rw [h.filter_cell hr₀ hkey, h.filter_cell_combined hr₀ hkey]
    have hid : ∀ r ∈ records.filter fun r => decide (r.pair = r₀.pair), r.id = r₀.id :=
      fun r hr => congrArg Prod.snd (of_decide_eq_true (List.mem_filter.mp hr).2)
    exact combine_alike (h.keyed r₀ hr₀).updatedDate (h.orderly r₀.pair) hid (h.older r₀ hr₀ k hkey)
  · have hnone : (records.filter fun r => decide (r.table = t ∧ keyOf engine r = some k)) = [] :=
      List.filter_eq_nil_iff.mpr fun r hr hcell => hrow ⟨r, hr, of_decide_eq_true hcell⟩
    have hnone' : ((combineRecordsWithSamePrimaryKey records).filter
        fun r => decide (r.table = t ∧ keyOf engine r = some k)) = [] := by
      refine List.filter_eq_nil_iff.mpr fun r hr hcell => ?_
      obtain ⟨r₁, hr₁, htable, hr₁key, _⟩ := origin_of_mem_combineRecords engine hr
      obtain ⟨ht, hk⟩ := of_decide_eq_true hcell
      exact hrow ⟨r₁, hr₁, htable.trans ht, hr₁key.trans hk⟩
    rw [hnone, hnone']
    exact Alike.refl _

end Tables

/-! ## An example -/

def userUpdate (name date : String) (diff : List String) : Record where
  table := "user"
  id := "1"
  operation := "UPDATE"
  diff := some diff
  object := some [("id", .str "1"), ("name", .str name), ("updatedDate", .str date)]
  event := some
    { operation := .str "UPDATE", table := .str "user", modelVersion := .str "v1",
      object := some [("id", .str "1"), ("name", .str name), ("updatedDate", .str date)],
      diff := .arr (diff.map .str), timestamp := 0, schemaValidatedPath := none }

/-- A change of the name, and then noise. -/
def twoUpdates : List Record :=
  [userUpdate "Ann" "2024-01-01" ["name", "updatedDate"],
    userUpdate "Ann" "2024-01-02" ["updatedDate"]]

theorem twoUpdates_orderly : Orderly Engine.textual users twoUpdates := by
  have hsnap : ∀ r ∈ twoUpdates, Snapshot users r := by
    intro r hr
    refine ⟨fun c hc => ?_, ?_⟩
    · rw [users_columns] at hc
      revert c
      revert r
      decide
    · revert r
      simp [twoUpdates, userUpdate, value]
  refine ⟨by decide, fun r hr _ => hsnap r hr, fun r hr _ => ?_, ?_, ?_⟩
  · revert r
    simp only [twoUpdates, List.forall_mem_cons, List.not_mem_nil, false_imp_iff, implies_true,
      and_true]
    exact ⟨fun _ => ⟨by decide, by decide⟩, fun _ => ⟨by decide, by decide⟩⟩
  · refine List.pairwise_pair.mpr fun _ _ => ?_
    decide
  · refine List.isChain_pair.mpr fun _ _ c hc hdiff => ?_
    rw [users_columns] at hc
    revert c
    simp [userUpdate, value, List.lookup_cons]

theorem twoUpdates_coherent :
    Coherent Engine.textual (fun _ => users) (fun _ _ => none) twoUpdates := by
  have hpair : ∀ r ∈ twoUpdates, r.pair = ("user", "1") := by decide
  refine ⟨fun _ _ => ⟨by simp [users_columns], by simp [users_columns], by decide⟩, ?_, ?_, ?_, ?_⟩
  · intro p hgiven q hthis _
    obtain ⟨r, hr, rfl⟩ := hgiven
    obtain ⟨r', hr', rfl⟩ := hthis
    rw [hpair r hr, hpair r' hr']
  · intro r hr r' hr' _ _ _
    exact congrArg Prod.snd ((hpair r hr).trans (hpair r' hr').symm)
  · intro p
    by_cases hp : p = ("user", "1")
    · rw [List.filter_eq_self.mpr fun r hr => decide_eq_true ((hpair r hr).trans hp.symm)]
      exact twoUpdates_orderly
    · rw [List.filter_eq_nil_iff.mpr fun r hr h =>
        hp ((of_decide_eq_true h).symm.trans (hpair r hr))]
      exact ⟨nofun, nofun, nofun, List.Pairwise.nil, List.IsChain.nil⟩
  · exact fun _ _ _ _ => older_none _

def usersRegistry : SchemaRegistry where
  getTableVersion _ := .ok (true, "v1")
  getSchema _ _ := .ok users

theorem planFlush_combine_alike_users :
    ∃ plan plan', planFlush twoUpdates usersRegistry (fun _ => false) = .ok plan ∧
      planFlush (combineRecordsWithSamePrimaryKey twoUpdates) usersRegistry (fun _ => false) =
        .ok plan' ∧
      ∀ t k, Alike (execAll Engine.textual plan.statements (fun _ _ => none) t k)
        (execAll Engine.textual plan'.statements (fun _ _ => none) t k) :=
  planFlush_combine_alike Engine.textual (fun _ => users) usersRegistry (fun _ => false)
    (fun _ _ => none) twoUpdates (fun _ _ => rfl) twoUpdates_coherent

end Snowflake
end Drivers
end Eds
