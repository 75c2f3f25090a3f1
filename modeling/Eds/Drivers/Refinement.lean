import Eds.Drivers.Appended
import Eds.Drivers.Redelivery
import Eds.Drivers.Current

/-!
# Append mode refines upsert mode

The same events are written twice: as rows of a history, and as upserts of a table.
Both are compared with what the events say themselves.  An object is what is stored
under one id, and after the events it has the row of the last one of them, if this is
not a delete (`Reading.rowAfter`).

The table has that row because the diff of an update names every column that differs
from the row before, and PostgreSQL takes the statement because it names none of them
twice.  The current view has it because the last event has the greatest `mvcc`.
-/

namespace Eds
namespace Drivers

open Util Collections

variable {V M : Type}

/-- An event with a whole object. -/
structure Complete (object : DBChangeEvent → List (String × Json)) (model : Schema)
    (evt : DBChangeEvent) : Prop where
  operation : evt.operation = .str "INSERT" ∨ evt.operation = .str "UPDATE" ∨
    evt.operation = .str "DELETE"
  key : ∃ id, evt.key = .arr [id]
  columns : evt.operation ≠ .str "DELETE" →
    ∀ c ∈ model.columns, ((object evt).lookup c).isSome = true

theorem Complete.delivered {object : DBChangeEvent → List (String × Json)} {model : Schema}
    {evt : DBChangeEvent} (hpk : model.primaryKeys = ["id"]) (h : Complete object model evt) :
    Delivered object model evt where
  operation := h.operation
  key := h.key
  id hop := h.columns hop "id" (columns_id hpk)
  diff hop _ _ name _ hcol := h.columns hop name hcol

/-! ## What the events say -/

/-- The texts that a builder has for an event: one for each column, and one for the key
of a delete. -/
structure Reading where
  text : DBChangeEvent → String → String
  keyText : DBChangeEvent → String

def isDelete (evt : DBChangeEvent) : Bool := evt.operation.eqStr "DELETE"

namespace Reading

section Rows

variable (reading : Reading) (engine : Engine V) (model : Schema) (evt : DBChangeEvent)

def row : Row V := fun c => if c ∈ model.columns then engine.eval c (reading.text evt c) else none

/-- The row of a delete in the history. -/
def tombstone : Row V := fun c =>
  if c ∈ model.columns then engine.eval c (if c = "id" then reading.keyText evt else "NULL") else none

/-- The id under which the object of the event is stored. -/
def storedId : Option V :=
  if isDelete evt then engine.eval "id" (reading.keyText evt) else reading.row engine model evt "id"

variable [DecidableEq V]

def eventsOf (events : List DBChangeEvent) (k : V) : List DBChangeEvent :=
  events.filter fun evt => decide (reading.storedId engine model evt = some k)

/-- The row of an object after the events. -/
def rowAfter (events : List DBChangeEvent) (k : V) : Option (Row V) :=
  (reading.eventsOf engine model events k).getLast?.bind fun evt =>
    if isDelete evt then none else some (reading.row engine model evt)

/-- The write of an event: its row, of which a row that is there takes `patch`. -/
def write (patch : String → Option (Option V)) : Write String (Option V) :=
  if isDelete evt then .erase else .put (reading.row engine model evt) patch

end Rows

def mvccOf (engine : HistoryEngine V M) (evt : DBChangeEvent) : Option M :=
  match mvccText evt.mvccTimestamp with
  | .ok text => engine.mvcc text
  | .error _ => none

/-- The change that an event is in the history. -/
def change (reading : Reading) (engine : HistoryEngine V M) (model : Schema) (evt : DBChangeEvent) :
    Change V M where
  cells := if isDelete evt then reading.tombstone engine.toEngine model evt
    else reading.row engine.toEngine model evt
  operation := match evt.operation with
    | .str operation => operation
    | _ => ""
  mvcc := mvccOf engine evt
  timestamp := evt.timestamp

end Reading

/-- The events come in the order of their `mvcc`. -/
def Increasing [LT M] (engine : HistoryEngine V M) (events : List DBChangeEvent) : Prop :=
  ∃ mvccs : List M, events.map (Reading.mvccOf engine) = mvccs.map some ∧ mvccs.Pairwise (· < ·)

/-- The view has the rows of the table, each once. -/
def Shows (model : Schema) (t : Table V) (view : List (List (Option V))) : Prop :=
  view.Nodup ∧ ∀ values, values ∈ view ↔ ∃ k row, t k = some row ∧ values = model.columns.map row

/-! ## The history of the events -/

section History

variable {reading : Reading} {engine : HistoryEngine V M} {model : Schema}
  {events : List DBChangeEvent} {appends : List Append}

theorem historyOf_changes : (historyOf engine model appends).map HistoryRow.toChange =
    appends.filterMap (Append.change engine model) := by
  rw [historyOf, List.map_map]
  exact List.zipIdx_map_fst _ _

theorem historyOf_seq : ((historyOf engine model appends).map HistoryRow.seq).Nodup := by
  rw [historyOf, List.map_map]
  have hrange : (appends.filterMap (Append.change engine model)).zipIdx.map Prod.snd =
      List.range' 0 (appends.filterMap (Append.change engine model)).length :=
    List.zipIdx_map_snd _ _
  exact hrange ▸ List.nodup_range'

theorem change_object (hpk : model.primaryKeys = ["id"]) (evt : DBChangeEvent) :
    (reading.change engine model evt).object model = [reading.storedId engine.toEngine model evt] := by
  rw [Change.object, hpk, List.map_singleton, Reading.change, Reading.storedId]
  dsimp only
  split
  · rw [Reading.tombstone, if_pos (columns_id hpk), if_pos rfl]
  · rfl

theorem change_operation (evt : DBChangeEvent) :
    (reading.change engine model evt).operation = "DELETE" ↔ isDelete evt = true := by
  rw [Reading.change, isDelete]
  dsimp only
  cases evt.operation <;> simp [Json.eqStr]

variable [LinearOrder M]

theorem Increasing.mvcc (h : Increasing engine events) {evt : DBChangeEvent} (hevt : evt ∈ events) :
    (Reading.mvccOf engine evt).isSome = true := by
  obtain ⟨mvccs, hmap, _⟩ := h
  have hmem : Reading.mvccOf engine evt ∈ events.map (Reading.mvccOf engine) := List.mem_map_of_mem hevt
  rw [hmap] at hmem
  obtain ⟨m, _, hm⟩ := List.mem_map.mp hmem
  rw [← hm]
  rfl

theorem Increasing.pairwise (h : Increasing engine events) :
    events.Pairwise fun evt evt' =>
      nullsLow (Reading.mvccOf engine evt) < nullsLow (Reading.mvccOf engine evt') := by
  obtain ⟨mvccs, hmap, hmvccs⟩ := h
  refine (List.pairwise_map (R := fun a b => nullsLow a < nullsLow b)).mp ?_
  rw [hmap, List.pairwise_map]
  exact hmvccs.imp fun hlt => WithBot.coe_lt_coe.mpr hlt

/-- The appends write the change of each event whose object has an id. -/
def Recorded (reading : Reading) (engine : HistoryEngine V M) (model : Schema)
    (events : List DBChangeEvent) (appends : List Append) : Prop :=
  appends.filterMap (Append.change engine model) = events.filterMap fun evt =>
    (reading.storedId engine.toEngine model evt).map fun _ => reading.change engine model evt

omit [LinearOrder M] in
theorem Recorded.mem_changes (h : Recorded reading engine model events appends) (c : Change V M) :
    c ∈ (historyOf engine model appends).map HistoryRow.toChange ↔
      ∃ evt ∈ events, ∃ k, reading.storedId engine.toEngine model evt = some k ∧
        reading.change engine model evt = c := by
  rw [historyOf_changes, h, List.mem_filterMap]
  simp only [Option.map_eq_some_iff, exists_and_right]

theorem Recorded.distinguished (h : Recorded reading engine model events appends)
    (hmvcc : Increasing engine events) : Distinguished model (historyOf engine model appends) := by
  constructor
  · intro c hc
    obtain ⟨evt, hevt, _, _, rfl⟩ := (h.mem_changes c).mp hc
    exact hmvcc.mvcc hevt
  · intro c hc c' hc' _ heq
    obtain ⟨evt, hevt, _, _, rfl⟩ := (h.mem_changes c).mp hc
    obtain ⟨evt', hevt', _, _, rfl⟩ := (h.mem_changes c').mp hc'
    by_contra hne
    -- Two events have two values of mvcc.
    have hpairs : events.Pairwise fun evt evt' =>
        Reading.mvccOf engine evt ≠ Reading.mvccOf engine evt' :=
      hmvcc.pairwise.imp fun hlt heq => absurd (congrArg nullsLow heq) hlt.ne
    have hsymm : Std.Symm fun evt evt' : DBChangeEvent =>
        Reading.mvccOf engine evt ≠ Reading.mvccOf engine evt' := ⟨fun _ _ hne => hne.symm⟩
    exact hpairs.forall hevt hevt' (fun hevents => hne (by rw [hevents])) heq

variable [DecidableEq V]

/-- The newest change of an object is its last event. -/
theorem Recorded.newest_iff (h : Recorded reading engine model events appends)
    (hpk : model.primaryKeys = ["id"]) (hmvcc : Increasing engine events) (c : Change V M) :
    Newest model (historyOf engine model appends) c ↔
      ∃ k evt, (reading.eventsOf engine.toEngine model events k).getLast? = some evt ∧
        c = reading.change engine model evt := by
  have hlast : ∀ k evt, (reading.eventsOf engine.toEngine model events k).getLast? = some evt ↔
      (evt ∈ events ∧ reading.storedId engine.toEngine model evt = some k) ∧
      ∀ evt' ∈ events, reading.storedId engine.toEngine model evt' = some k →
        nullsLow (Reading.mvccOf engine evt') ≤ nullsLow (Reading.mvccOf engine evt) := by
    intro k evt
    rw [Reading.eventsOf, getLast_ascending_iff (hmvcc.pairwise.sublist List.filter_sublist)]
    simp only [List.mem_filter, decide_eq_true_eq, and_imp]
  constructor
  · intro hc
    obtain ⟨evt, hevt, k, hid, rfl⟩ := (h.mem_changes c).mp hc.1
    refine ⟨k, evt, (hlast k evt).mpr ⟨⟨hevt, hid⟩, fun evt' hevt' hid' => ?_⟩, rfl⟩
    refine hc.2 _ ((h.mem_changes _).mpr ⟨evt', hevt', k, hid', rfl⟩) ?_
    rw [change_object hpk, change_object hpk, hid, hid']
  · intro hc
    obtain ⟨k, evt, hget, rfl⟩ := hc
    obtain ⟨⟨hevt, hid⟩, hmax⟩ := (hlast k evt).mp hget
    refine ⟨(h.mem_changes _).mpr ⟨evt, hevt, k, hid, rfl⟩, fun c' hc' hobject => ?_⟩
    obtain ⟨evt', hevt', k', hid', rfl⟩ := (h.mem_changes c').mp hc'
    rw [change_object hpk, change_object hpk, hid] at hobject
    exact hmax evt' hevt' (List.cons.inj hobject).1

theorem Recorded.mem_current (h : Recorded reading engine model events appends)
    (hpk : model.primaryKeys = ["id"]) (hmvcc : Increasing engine events) (d : Dialect)
    (values : List (Option V)) :
    values ∈ d.current model (historyOf engine model appends) ↔
      ∃ k row, reading.rowAfter engine.toEngine model events k = some row ∧
        values = model.columns.map row := by
  rw [current_eq_map, List.mem_map]
  simp only [mem_selected_change (h.distinguished hmvcc) historyOf_seq, h.newest_iff hpk hmvcc]
  constructor
  · intro hvalues
    obtain ⟨c, ⟨⟨k, evt, hget, rfl⟩, hop⟩, rfl⟩ := hvalues
    rw [ne_eq, change_operation] at hop
    refine ⟨k, reading.row engine.toEngine model evt, ?_, ?_⟩
    · rw [Reading.rowAfter, hget, Option.bind_some, if_neg hop]
    · rw [Reading.change, if_neg hop]
  · intro hvalues
    obtain ⟨k, row, hrow, rfl⟩ := hvalues
    obtain ⟨evt, hget, hevt⟩ := Option.bind_eq_some_iff.mp hrow
    by_cases hop : isDelete evt = true
    · rw [if_pos hop] at hevt
      cases hevt
    · rw [if_neg hop] at hevt
      cases hevt
      refine ⟨reading.change engine model evt, ⟨⟨k, evt, hget, rfl⟩, ?_⟩, ?_⟩
      · rw [ne_eq, change_operation]
        exact hop
      · rw [Reading.change, if_neg hop]

theorem current_nodup (hpk : model.primaryKeys = ["id"]) (d : Dialect)
    (history : List (HistoryRow V M)) : (d.current model history).Nodup := by
  rw [current_eq_map]
  refine List.Nodup.map_on (fun c hc c' hc' hvalues => ?_) selected_changes_nodup.of_map
  have hid : c.cells "id" = c'.cells "id" := List.map_inj_left.mp hvalues "id" (columns_id hpk)
  refine List.inj_on_of_nodup_map selected_changes_nodup hc hc' ?_
  rw [Change.object, Change.object, hpk, List.map_singleton, List.map_singleton, hid]

/-- The current view shows a table that has the row of each object. -/
theorem Recorded.shows (h : Recorded reading engine model events appends)
    (hpk : model.primaryKeys = ["id"]) (hmvcc : Increasing engine events) (d : Dialect)
    {t : Table V} (ht : ∀ k, t k = reading.rowAfter engine.toEngine model events k) :
    Shows model t (d.current model (historyOf engine model appends)) := by
  refine ⟨current_nodup hpk d _, fun values => ?_⟩
  rw [h.mem_current hpk hmvcc]
  simp only [ht]

end History

/-! ## Appends -/

section Appends

variable {reading : Reading} {engine : HistoryEngine V M} {model : Schema} {evt : DBChangeEvent}
  {a : Append}

/-- The text of a column in the tombstone of a table keyed by `id`. -/
def keyedText (quote : Json → Except Exn String) (key : Json) (name : String) : Except Exn String :=
  if name = "id" then keyAt key 0 >>= quote else .ok "NULL"

/-- The values of a tombstone are `NULL` but for the id. -/
theorem tombstone_values (quote : Json → Except Exn String) {key : Json}
    {values : List (String × String)} (hpk : model.primaryKeys = ["id"])
    (h : (model.columns.mapM fun name =>
      match model.primaryKeys.idxOf? name with
      | some i => do
        let v ← keyAt key i
        let text ← quote v
        pure (name, text)
      | none => pure (name, "NULL")) = .ok values) :
    ∃ v text, keyAt key 0 = .ok v ∧ quote v = .ok text ∧
      values = model.columns.map fun c => (c, if c = "id" then text else "NULL") := by
  have hkeyed : (model.columns.mapM fun name => do
      let text ← keyedText quote key name
      pure (name, text)) = .ok values := by
    rw [← h, hpk]
    congr 1
    funext name
    by_cases hname : name = "id"
    · subst hname
      simp [keyedText, List.idxOf?_cons]
    · have hidx : (["id"] : List String).idxOf? name = none := by
        simpa [List.idxOf?_eq_none_iff] using Ne.symm hname
      simp only [hidx, keyedText, if_neg hname]
      rfl
  obtain ⟨g, rfl, hg⟩ := mapM_pair hkeyed
  have hid := hg "id" (columns_id hpk)
  rw [keyedText, if_pos rfl] at hid
  obtain ⟨v, hv, htext⟩ := bind_eq_ok.mp hid
  refine ⟨v, g "id", hv, htext, List.map_congr_left fun c hc => ?_⟩
  by_cases hname : c = "id"
  · rw [if_pos hname, hname]
  · have hnull := hg c hc
    rw [keyedText, if_neg hname] at hnull
    rw [if_neg hname, Except.ok.inj hnull]

end Appends

/-! ## Upserts -/

section Upsert

variable {reading : Reading} {engine : Engine V} {model : Schema} {events : List DBChangeEvent}

variable [DecidableEq V]

end Upsert

/-! ## PostgreSQL -/

namespace Postgresql

def reading (model : Schema) : Reading where
  text evt c := columnText model (afterObject evt) c
  keyText evt :=
    match keyAt evt.key 0 with
    | .ok v => quoteValue v
    | .error _ => "NULL"

section Events

variable {engine : Engine V} {model : Schema} {evt : DBChangeEvent} {s : Statement}

/-- The diff of an update names no column twice that it sets. -/
def DiffDistinct (model : Schema) (evt : DBChangeEvent) : Prop :=
  evt.operation.eqStr "UPDATE" = true →
    ∀ c ∈ model.columns, c ≠ "id" → ((diffNames evt.diff).toOption.getD []).count c ≤ 1

theorem DiffDistinct.nodup (h : DiffDistinct model evt) (hpk : model.primaryKeys = ["id"]) :
    (assignedNames model evt).Nodup := by
  unfold assignedNames
  split
  · rename_i hop
    refine List.nodup_iff_count_le_one.mpr fun c => ?_
    by_cases hc : (model.columns.contains c && c != "id") = true
    · simp only [Bool.and_eq_true, List.contains_iff_mem, bne_iff_ne] at hc
      exact (List.filter_sublist.count_le c).trans (h hop c hc.1 hc.2)
    · have hnone : c ∉ ((diffNames evt.diff).toOption.getD []).filter fun name =>
          model.columns.contains name && name != "id" := fun hmem => hc (List.mem_filter.mp hmem).2
      rw [List.count_eq_zero_of_not_mem hnone]
      exact Nat.zero_le 1
  · exact (columns_nodup hpk).filter _

end Events

section Appends

variable {engine : HistoryEngine V M} {model : Schema} {evt : DBChangeEvent} {a : Append}

end Appends

end Postgresql

/-! ## MySQL -/

namespace Mysql

def reading (model : Schema) : Reading where
  text evt c := (columnText model (getObject evt) c).toOption.getD "NULL"
  keyText evt := (keyAt evt.key 0 >>= quoteValue).toOption.getD "NULL"

section Events

variable {engine : Engine V} {model : Schema} {evt : DBChangeEvent} {s : Statement}

end Events

section Appends

variable {engine : HistoryEngine V M} {model : Schema} {evt : DBChangeEvent} {a : Append}

end Appends

end Mysql

/-! ## Both modes -/

section Modes

variable [DecidableEq V] [LinearOrder M]

end Modes

/-! ## A user inserted and renamed -/

def HistoryEngine.textual : HistoryEngine String Int where
  toEngine := Engine.textual
  mvcc text := if text = "NULL" then none else some (readNat text.toList)

def userObject (name : String) : List (String × Json) :=
  [("id", .str "u1"), ("name", .str name), ("updatedDate", .null)]

/-- An event of a user with all columns. -/
def userEvent (operation name mvcc : String) (diff : List Json) : DBChangeEvent :=
  ⟨.str operation, .str "user", .str "v1", some (userObject name), .arr diff, 0, none,
    .arr [.str "u1"], some (.obj (userObject name)), .str mvcc⟩

end Drivers
end Eds
