import Eds.Collections.Snapshot
import Eds.Consumer.Confined
import Eds.Consumer.Cutoff
import Eds.Consumer.Redelivered
import Eds.Util.Crdb

/-!
# An import and the stream behind it

The export of a table holds what was committed before its cursor, and the import saves the cutoff
that `should_skip` compares with.  A change may be in the export and in what is left of the
stream.  One that is in neither has to fall into the rest of the export's millisecond; without such a
change the rows of the import and the stream over them are the table of the whole history.
-/

namespace Eds
namespace Consumer

open Effects Effects.Prog Collections Drivers Import

variable {W D M S V : Type}

def isSkipped (cfg : Config) (evt : DBChangeEvent) : Bool :=
  match beforeCutoff cfg evt with
  | .ok skipIt => skipIt
  | .error _ => false

theorem isSkipped_iff {cfg : Config} {evt : DBChangeEvent} :
    isSkipped cfg evt = true ↔ beforeCutoff cfg evt = .ok true := by
  unfold isSkipped
  cases beforeCutoff cfg evt with
  | ok skipIt => cases skipIt <;> simp
  | error e => simp

/-- `event` is what the driver gets of a message if there are no cutoffs. -/
def kept (cfg : Config) (decoded : M → DBChangeEvent) (event : M → Option DBChangeEvent) (m : M) :
    Option DBChangeEvent :=
  if isSkipped cfg (decoded m) then none else event m

theorem event_of_kept {cfg : Config} {decoded : M → DBChangeEvent} {event : M → Option DBChangeEvent}
    {m : M} {evt : DBChangeEvent} (h : kept cfg decoded event m = some evt) : event m = some evt := by
  unfold kept at h
  split at h
  · cases h
  · exact h

def Config.uncut (cfg : Config) : Config := { cfg with tableTimestamps := none }

/-- The cutoffs change the verdict on a message in no other way. -/
theorem steady_kept {cfg : Config} {env : Env W M} {decoded : M → DBChangeEvent}
    {event : M → Option DBChangeEvent}
    (hdecoded : ∀ m seq, Returns (env.fromMessage m seq) fun evt => evt = decoded m)
    (hsteady : Steady cfg.uncut env event) : Steady cfg env (kept cfg decoded event) := by
  intro m seq w
  have hm := hsteady m seq w
  have hd := hdecoded m seq w
  rw [verdict, wp_bind] at hm ⊢
  unfold wp at hm hd ⊢
  cases hrun : env.fromMessage m seq w with
  | mk r w' =>
    rw [hrun] at hm hd
    cases r with
    | error e => trivial
    | ok evt =>
      obtain rfl : evt = decoded m := hd
      simp only at hm ⊢
      cases hbefore : beforeCutoff cfg (decoded m) with
      | error e =>
        rw [shouldSkip, hbefore]
        trivial
      | ok skipIt =>
        cases skipIt with
        | true =>
          rw [shouldSkip, hbefore, kept, if_pos (isSkipped_iff.mpr hbefore)]
          rfl
        | false =>
          have hnot : ¬ isSkipped cfg (decoded m) = true := by
            rw [isSkipped_iff, hbefore]
            simp
          rw [shouldSkip, hbefore, kept, if_neg hnot]
          exact hm

section Statements

variable {cfg : Config} {decoded : M → DBChangeEvent} {event : M → Option DBChangeEvent}
  {build : DBChangeEvent → Except Exn S}

/-- What is left of a stream after the cutoffs. -/
def isLeft (cfg : Config) (decoded : M → DBChangeEvent) (m : M) : Bool := !isSkipped cfg (decoded m)

theorem statement_of_kept {m : M} {s : S} (h : statement (kept cfg decoded event) build m = some s) :
    statement event build m = some s := by
  obtain ⟨evt, hevt, hbuild⟩ := Option.bind_eq_some_iff.mp h
  exact Option.bind_eq_some_iff.mpr ⟨evt, event_of_kept hevt, hbuild⟩

theorem filterMap_kept (stream : List M) :
    stream.filterMap (statement (kept cfg decoded event) build) =
      (stream.filter (isLeft cfg decoded)).filterMap (statement event build) := by
  rw [List.filterMap_filter]
  refine List.filterMap_congr fun m _ => ?_
  unfold statement kept isLeft
  cases isSkipped cfg (decoded m) <;> rfl

end Statements

/-! ## What the cutoff of an export leaves -/

/-- What the server delivers to a new durable consumer. -/
def delivers (durable : Setup.Durable) (published : M → Int) (m : M) : Bool :=
  match durable.deliverPolicy, durable.optStartTime with
  | .all, _ => true
  | .byStartTime, some (.date start) => decide (1000 * start ≤ published m)
  | _, _ => false

/-- The changes of one table, and a consumer that is set up with the cutoff of the export `td` of it.
A change is in the stream after its commit, and has the millisecond of that. -/
structure GoesOn (files : Files W) (td : ExportJobTableData) (exported : Int) (table : String)
    (cfg : Setup.EdsConsumerConfig) (decoded : M → DBChangeEvent) (commit published : M → Int)
    (history : List M) : Prop where
  exported : exportNanos files td = .ok exported
  cutoff : ∃ info, tableInfo files (table, td) = .ok info ∧ cfg.cutoff table = some info.timestamp
  table : ∀ m ∈ history, (decoded m).table = .str table
  stamp : ∀ m ∈ history, (decoded m).timestamp = commit m / 1000000
  near : ∀ m ∈ history, |commit m / 1000000| < 2 ^ 33 * 1000
  published : ∀ m ∈ history, commit m ≤ published m

section Exported

variable {files : Files W} {td : ExportJobTableData} {exported : Int} {name : String}
  {cfg : Setup.EdsConsumerConfig} {max : Int} {decoded : M → DBChangeEvent} {commit published : M → Int}
  {history : List M}

theorem GoesOn.isLeft_iff (h : GoesOn files td exported name cfg decoded commit published history)
    {m : M} (hm : m ∈ history) :
    isLeft (Setup.processorOf cfg max) decoded m = true ↔
      exported / 1000 ≤ 1000 * (commit m / 1000000) := by
  obtain ⟨info, hinfo, hcutoff⟩ := h.cutoff
  obtain ⟨hat, hmax⟩ := tableInfo_timestamp hinfo h.exported
  obtain ⟨cutoffs, hcutoffs, hget⟩ := Option.bind_eq_some_iff.mp (Option.join_eq_some_iff.mp hcutoff)
  have hgiven : (Setup.processorOf cfg max).tableTimestamps = some cutoffs := hcutoffs
  have hbefore := beforeCutoff_iff hgiven (h.table m hm) hget hmax
  rw [h.stamp m hm, millisDrift_eq_zero (h.near m hm), hat] at hbefore
  have hlow := (abs_lt.mp (h.near m hm)).1
  rw [isLeft, Bool.not_eq_true', ← Bool.not_eq_true, isSkipped_iff, hbefore]
  unfold minMicros
  omega

/-- The server begins no later than what is left. -/
theorem GoesOn.delivers_left (h : GoesOn files td exported name cfg decoded commit published history)
    {durable : Setup.Durable} (hplaced : Setup.Placed cfg durable none) {m : M} (hm : m ∈ history)
    (hleft : isLeft (Setup.processorOf cfg max) decoded m = true) :
    delivers durable published m = true := by
  rw [h.isLeft_iff hm] at hleft
  obtain ⟨info, hinfo, hcutoff⟩ := h.cutoff
  have hat := (tableInfo_timestamp hinfo h.exported).1
  have hstarts := hplaced.2
  unfold delivers
  generalize durable.deliverPolicy = policy at hstarts ⊢
  generalize durable.optStartTime = time at hstarts ⊢
  cases hstarts with
  | everything _ => rfl
  | earliest _ _ hle =>
    have hstart := hle name info.timestamp hcutoff
    have hpublished := h.published m hm
    refine decide_eq_true ?_
    omega
  | now _ hnone =>
    rw [hnone name] at hcutoff
    cases hcutoff

/-- No change is in the rest of the millisecond of the export, unless this rest is the whole. -/
def Gapless (exported : Int) (commit : M → Int) (history : List M) : Prop :=
  ∀ m ∈ history, ¬ (exported ≤ commit m ∧ commit m / 1000000 = exported / 1000000 ∧
    1000 ≤ exported % 1000000)

/-- The changes that an export holds. -/
def isExported (exported : Int) (commit : M → Int) (m : M) : Bool := decide (commit m < exported)

variable {meaning : S → Option (V × Write String (Option V))} {event : M → Option DBChangeEvent}
  {build : DBChangeEvent → Except Exn S} {exec : Table V → S → Table V} [DecidableEq V]

/-- The changes of a row come in the order of their commits. -/
def Chronological (commit : M → Int) (carry : M → Option S)
    (meaning : S → Option (V × Write String (Option V))) (history : List M) : Prop :=
  KeyOrdered (fun m => (carry m).bind meaning) (fun a b => commit a ≤ commit b) history

theorem GoesOn.foldl_left (h : GoesOn files td exported name cfg decoded commit published history)
    (hgapless : Gapless exported commit history)
    (hchrono : Chronological commit (statement event build) meaning history)
    (hexec : ∀ m s, statement event build m = some s → ∀ t, exec t s = Collections.exec t (meaning s))
    (hagrees : ∀ m s, statement event build m = some s → ∀ k w, meaning s = some (k, w) → w.Agrees)
    (t : Table V) :
    ((history.filter (isLeft (Setup.processorOf cfg max) decoded)).filterMap (statement event build)).foldl
        exec (((history.filter (isExported exported commit)).filterMap (statement event build)).foldl exec t) =
      (history.filterMap (statement event build)).foldl exec t := by
  refine foldl_snapshot (fun m _ => hexec m) (fun m _ => hagrees m)
    (hchrono.imp fun a _ b _ hab hb => ?_) (hchrono.imp fun a ha b hb hab hleft => ?_)
    (fun m hm s _ => ?_) t
  · have hcommit : commit b < exported := of_decide_eq_true hb
    exact decide_eq_true (lt_of_le_of_lt hab hcommit)
  · rw [h.isLeft_iff ha] at hleft
    rw [h.isLeft_iff hb]
    omega
  · have hgap := hgapless m hm
    by_cases hbefore : commit m < exported
    · exact .inl (decide_eq_true hbefore)
    · right
      rw [h.isLeft_iff hm]
      omega

variable [DecidableEq M] {hooks : SqlHooks D} {table : D → Table V} {render : S → String} {d : D}
  {y : Delivery M D} {durable : Setup.Durable}

/-- The sessions go on from what the import has left. -/
theorem GoesOn.caughtUp (h : GoesOn files td exported name cfg decoded commit published history)
    (hgapless : Gapless exported commit history)
    (hchrono : Chronological commit (statement event build) meaning history)
    (hexec : ∀ m s, statement event build m = some s → ∀ t, exec t s = Collections.exec t (meaning s))
    (hagrees : ∀ m s, statement event build m = some s → ∀ k w, meaning s = some (k, w) → w.Agrees)
    (hplaced : Setup.Placed cfg durable none) (hnodup : history.Nodup)
    (hdb : Transacts hooks table build render exec
      fun evt => ∃ m, kept (Setup.processorOf cfg max) decoded event m = some evt)
    (hreach : Visit.Reaches hooks table (kept (Setup.processorOf cfg max) decoded event)
      (history.filter (delivers durable published)) ⟨[], d⟩ y)
    (t : Table V)
    (himported : table d = ((history.filter (isExported exported commit)).filterMap
      (statement event build)).foldl exec t) :
    ((outstanding (history.filter (delivers durable published)) y.confirmed).filterMap
        (statement (kept (Setup.processorOf cfg max) decoded event) build)).foldl exec (table y.store) =
      (history.filterMap (statement event build)).foldl exec t := by
  have hrun : ∀ ms : List M, Rerunnable exec
      (ms.filterMap (statement (kept (Setup.processorOf cfg max) decoded event) build)) :=
    rerunnable_of_meaning (fun m s hs => hexec m s (statement_of_kept hs))
      fun m s hs => hagrees m s (statement_of_kept hs)
  have hcaught := Visit.caughtUp_reached hdb hrun (hnodup.filter _) hreach
  rw [Delivery.caughtUp, Delivery.caughtUp, outstanding_nil] at hcaught
  have hall : (history.filter (delivers durable published)).filter
      (isLeft (Setup.processorOf cfg max) decoded) =
        history.filter (isLeft (Setup.processorOf cfg max) decoded) := by
    rw [List.filter_filter]
    refine List.filter_congr fun m hm => ?_
    cases hleft : isLeft (Setup.processorOf cfg max) decoded m with
    | true => rw [h.delivers_left hplaced hm hleft]; rfl
    | false => rfl
  rw [hcaught, filterMap_kept, hall, himported]
  exact h.foldl_left hgapless hchrono hexec hagrees t

end Exported

/-! ## Two upsert drivers -/

/-- Import, then stream.  A table is filled from its export, and the consumer is set up with the
cutoff of that; its sessions may each be cut anywhere, as often as it may be.  If nothing falls into
the rest of the export's millisecond and the changes of each row come in the order of their commits,
what is outstanding still leads to the table that the whole history makes: no change between the
export and the stream is lost, and none that is in both is seen twice. -/
theorem snapshot_then_stream [DecidableEq M] [DecidableEq V] (engine : Engine V) {model : Schema}
    (hpk : model.primaryKeys = ["id"]) {files : Files W} {td : ExportJobTableData} {exported : Int}
    {name : String} {cfg : Setup.EdsConsumerConfig} {max : Int} {decoded : M → DBChangeEvent}
    {commit published : M → Int} {history : List M} {durable : Setup.Durable}
    (hgoes : GoesOn files td exported name cfg decoded commit published history)
    (hgapless : Gapless exported commit history) (hplaced : Setup.Placed cfg durable none)
    (hnodup : history.Nodup) (event : M → Option DBChangeEvent) (hooks : SqlHooks D)
    (table : D → Table V) (d : D) (y : Delivery M D)
    (hreach : Visit.Reaches hooks table (kept (Setup.processorOf cfg max) decoded event)
      (history.filter (delivers durable published)) ⟨[], d⟩ y) (t : Table V) :
    (Transacts hooks table (Postgresql.toSql · model) Postgresql.Statement.render
      (Postgresql.Statement.exec engine)
      (fun evt => ∃ m, kept (Setup.processorOf cfg max) decoded event m = some evt) →
      (∀ m evt, event m = some evt → Delivered afterObject model evt) →
      Chronological commit (statement event (Postgresql.toSql · model))
        (Postgresql.Statement.meaning engine) history →
      table d = ((history.filter (isExported exported commit)).filterMap
        (statement event (Postgresql.toSql · model))).foldl (Postgresql.Statement.exec engine) t →
      ((outstanding (history.filter (delivers durable published)) y.confirmed).filterMap
        (statement (kept (Setup.processorOf cfg max) decoded event) (Postgresql.toSql · model))).foldl
          (Postgresql.Statement.exec engine) (table y.store) =
        (history.filterMap (statement event (Postgresql.toSql · model))).foldl
          (Postgresql.Statement.exec engine) t) ∧
    (Transacts hooks table (Mysql.toSql · model) Mysql.Statement.render
      (Mysql.Statement.exec engine)
      (fun evt => ∃ m, kept (Setup.processorOf cfg max) decoded event m = some evt) →
      Chronological commit (statement event (Mysql.toSql · model))
        (Mysql.Statement.meaning engine) history →
      table d = ((history.filter (isExported exported commit)).filterMap
        (statement event (Mysql.toSql · model))).foldl (Mysql.Statement.exec engine) t →
      ((outstanding (history.filter (delivers durable published)) y.confirmed).filterMap
        (statement (kept (Setup.processorOf cfg max) decoded event) (Mysql.toSql · model))).foldl
          (Mysql.Statement.exec engine) (table y.store) =
        (history.filterMap (statement event (Mysql.toSql · model))).foldl
          (Mysql.Statement.exec engine) t) := by
  refine ⟨fun hdb hevent hchrono himported => ?_, fun hdb hchrono himported => ?_⟩
  · exact hgoes.caughtUp hgapless hchrono (postgresql_exec hpk hevent) (postgresql_agrees hpk hevent)
      hplaced hnodup hdb hreach t himported
  · exact hgoes.caughtUp hgapless hchrono (mysql_exec hpk) (fun _ _ _ _ _ => Mysql.meaning_agrees)
      hplaced hnodup hdb hreach t himported

/-! ### Three changes of one row -/

/-- Half a microsecond into the second millisecond of the year 2026. -/
def exportCursor : Int := 1767225600001000500

/-- An insertion before the export, an update in its millisecond and before it, a deletion later. -/
def userCommit (m : Fin 3) : Int :=
  [1767225599998000000, 1767225600001000100, 1767225600004000007].getD m.val 0

def userChangeAt (m : Fin 3) : DBChangeEvent :=
  { userEvents.get m with timestamp := userCommit m / 1000000 }

def userConsumer : Setup.EdsConsumerConfig where
  url := "nats://localhost:4222"
  credentials := ""
  companyIds := []
  suffix := ""
  maxAckPending := 2
  minPendingLatency := 1
  maxPendingLatency := 10
  driver := none
  hasRegistry := false
  hasValidator := false
  exportTableTimestamps := some ⟨[("user", some (exportCursor / 1000))], List.nodup_singleton "user"⟩
  deliverAll := false
  hasCallback := false

def userDurable : Setup.Durable :=
  Setup.durableOf (Dbchange.singleDouble "1.0") userConsumer ⟨["*"], .str "dev", "0"⟩ ["*"] 2 none

def userHistory : List (Fin 3) := List.finRange 3

/-- The session of `userVisit` with the cutoff; it does not get the insertion. -/
def cutVisit (change : Fin 3 → DBChangeEvent) (mute : Bool) : Visit (Memory String) (Fin 3) where
  cfg := Setup.processorOf userConsumer 2
  rest := { userEnv mute with fromMessage := fun m _ => pure (change m) }
  sequence := 0
  hasRegistry := true
  hasDb := true
  moves := [.put userHistory[1]?, .turn, .put userHistory[2]?, .turn]

/-- Without the cutoff every message comes to the driver. -/
def HeldAll (hooks : SqlHooks (Memory String)) (change : Fin 3 → DBChangeEvent) : Prop :=
  ∀ mute, Steady (cutVisit change mute).cfg.uncut (sqlEnv hooks (cutVisit change mute).rest)
    fun m => some (change m)

theorem userChangeAt_heldAll (hooks : SqlHooks (Memory String)) : HeldAll hooks userChangeAt := by
  intro mute m seq s
  match m with
  | 0 => rfl
  | 1 => rfl
  | 2 => rfl

theorem cutVisit_spares (change : Fin 3 → DBChangeEvent) (mute : Bool) :
    (cutVisit change mute).rest.Spares (Untouched Memory.rows) :=
  { userEnv_spares mute with
    calls := { (userEnv_spares mute).calls with
      fromMessage := fun _ _ => within_pure Untouched.refl _ } }

/-- The times in the names of the files. -/
def namedFiles : Files Unit where
  fileTime url :=
    let file := Util.parseCrdbExportFile url.toList
    if file.ok then some file.unixNanos else none
  cursorNanos _ := .error "no cursor"
  baseName url := url
  fetchAll _ _ := pure ()

/-- Two files, of which the later one has the time of the export. -/
def userFiles : ExportJobTableData where
  error := ""
  status := "Completed"
  urls := ["https://exports/202601010000000010005000000000000-a-1-651-00000000-user-2.ndjson.gz",
    "https://exports/202512312359595000000000000000000-b-1-651-00000000-user-2.ndjson.gz"]
  cursor := ""

theorem userFiles_exported : exportNanos namedFiles userFiles = .ok exportCursor := by
  decide +kernel

theorem userCommit_near (m : Fin 3) : |userCommit m / 1000000| < 2 ^ 33 * 1000 := by
  match m with
  | 0 => decide
  | 1 => decide
  | 2 => decide

theorem userGoesOn {change : Fin 3 → DBChangeEvent} (htable : ∀ m, (change m).table = .str "user")
    (hstamp : ∀ m, (change m).timestamp = userCommit m / 1000000) :
    GoesOn namedFiles userFiles exportCursor "user" userConsumer change userCommit userCommit
      userHistory where
  exported := userFiles_exported
  cutoff := by
    refine ⟨⟨"user", exportCursor / 1000⟩, ?_, rfl⟩
    rw [tableInfo, userFiles_exported]
    rfl
  table m _ := htable m
  stamp m _ := hstamp m
  near m _ := userCommit_near m
  published _ _ := le_refl _

theorem userChangeAt_table (m : Fin 3) : (userChangeAt m).table = .str "user" := by
  match m with
  | 0 => rfl
  | 1 => rfl
  | 2 => rfl

/-- Two sessions after the import, of which the server hears nothing. -/
def cutDelivery (hooks : SqlHooks (Memory String)) (change : Fin 3 → DBChangeEvent) (d : Memory String) :
    Delivery (Fin 3) (Memory String) where
  confirmed := []
  store := ((cutVisit change false).run hooks
    ((cutVisit change true).run hooks d).processor.world.world).processor.world.world

theorem cutDelivery_reached {hooks : SqlHooks (Memory String)} {change : Fin 3 → DBChangeEvent}
    (hheld : HeldAll hooks change) (d : Memory String) :
    Visit.Reaches hooks Memory.rows
      (kept (Setup.processorOf userConsumer 2) change fun m => some (change m))
      (userHistory.filter (delivers userDurable userCommit)) ⟨[], d⟩ (cutDelivery hooks change d) := by
  have hsteady : ∀ mute, Steady (cutVisit change mute).cfg (sqlEnv hooks (cutVisit change mute).rest)
      (kept (Setup.processorOf userConsumer 2) change fun m => some (change m)) :=
    fun mute => steady_kept (fun _ _ _ => rfl) (hheld mute)
  have hlog : outstanding (userHistory.filter (delivers userDurable userCommit)) [] =
      [1, 2] := by decide
  refine .tail (.single ⟨cutVisit change true, [], ?_⟩) ⟨cutVisit change false, [], ?_⟩
    (b := ⟨[], ((cutVisit change true).run hooks d).processor.world.world⟩)
  · exact ⟨cutVisit_spares change true, hsteady true, by rw [hlog]; exact List.prefix_refl [1, 2],
      List.nil_prefix, rfl, rfl⟩
  · exact ⟨cutVisit_spares change false, hsteady false, by rw [hlog]; exact List.prefix_refl [1, 2],
      List.nil_prefix, rfl, rfl⟩

theorem userChangeAt_delivered (m : Fin 3) : Delivered afterObject users (userChangeAt m) := by
  have h := userEvents_delivered (userEvents.get m) (List.get_mem userEvents m)
  exact ⟨h.operation, h.key, h.id, h.diff⟩

theorem change_built {change : Fin 3 → DBChangeEvent} {build : DBChangeEvent → Except Exn S}
    {stmts : List S} (hbuilt : ∀ m, build (change m) = userStatement stmts (change m)) (evt : DBChangeEvent)
    (h : ∃ m, kept (Setup.processorOf userConsumer 2) change (fun m => some (change m)) m = some evt) :
    build evt = userStatement stmts evt := by
  obtain ⟨m, hm⟩ := h
  cases event_of_kept hm
  exact hbuilt m

/-- What the import has loaded. -/
def userImport (exec : Table String → S → Table String) (change : Fin 3 → DBChangeEvent)
    (build : DBChangeEvent → Except Exn S) : Memory String :=
  ⟨((userHistory.filter (isExported exportCursor userCommit)).filterMap
    (statement (fun m => some (change m)) build)).foldl exec fun _ => none⟩

theorem userHistory_chronological {carry : Fin 3 → Option S}
    {meaning : S → Option (String × Write String (Option String))} :
    Chronological userCommit carry meaning userHistory :=
  List.Pairwise.imp (R := fun a b => userCommit a ≤ userCommit b) (fun h _ _ _ _ _ => h) (by decide)

theorem snapshot_then_stream_users :
    let held := fun m => some (userChangeAt m)
    let stream := userHistory.filter (delivers userDurable userCommit)
    let cut := kept (Setup.processorOf userConsumer 2) userChangeAt held
    let postgresql := cutDelivery postgresqlReplica userChangeAt
      (userImport (Postgresql.Statement.exec Engine.textual) userChangeAt (Postgresql.toSql · users))
    let mysql := cutDelivery mysqlReplica userChangeAt
      (userImport (Mysql.Statement.exec Engine.textual) userChangeAt (Mysql.toSql · users))
    ((outstanding stream postgresql.confirmed).filterMap
        (statement cut (Postgresql.toSql · users))).foldl
          (Postgresql.Statement.exec Engine.textual) postgresql.store.rows =
      (userHistory.filterMap (statement held (Postgresql.toSql · users))).foldl
        (Postgresql.Statement.exec Engine.textual) (fun _ => none) ∧
    ((outstanding stream mysql.confirmed).filterMap (statement cut (Mysql.toSql · users))).foldl
          (Mysql.Statement.exec Engine.textual) mysql.store.rows =
      (userHistory.filterMap (statement held (Mysql.toSql · users))).foldl
        (Mysql.Statement.exec Engine.textual) (fun _ => none) := by
  intro held stream cut postgresql mysql
  have hgapless : Gapless exportCursor userCommit userHistory :=
    fun _ _ h => absurd h.2.2 (by decide)
  have hplaced : Setup.Placed userConsumer userDurable none := Setup.placed_durableOf none
  have hnodup : userHistory.Nodup := by decide
  have hgoes := userGoesOn userChangeAt_table fun _ => rfl
  refine ⟨?_, ?_⟩
  · refine (snapshot_then_stream Engine.textual (rfl : users.primaryKeys = ["id"]) hgoes hgapless
      hplaced hnodup held postgresqlReplica Memory.rows _ _
      (cutDelivery_reached (userChangeAt_heldAll _) _) (fun _ => none)).1 ?_ (fun m evt h => ?_)
      userHistory_chronological rfl
    · exact replica_database ⟨by decide +kernel, by decide +kernel⟩
        (change_built fun m =>
          postgresqlUsers_built m (userEvents.get m) (List.getElem?_eq_getElem m.isLt))
        fun _ _ => userStatement_mem
    · cases h
      exact userChangeAt_delivered m
  · refine (snapshot_then_stream Engine.textual (rfl : users.primaryKeys = ["id"]) hgoes hgapless
      hplaced hnodup held mysqlReplica Memory.rows _ _
      (cutDelivery_reached (userChangeAt_heldAll _) _) (fun _ => none)).2 ?_ userHistory_chronological rfl
    exact replica_database ⟨by decide +kernel, by decide +kernel⟩
      (change_built fun m => mysqlUsers_built m (userEvents.get m) (List.getElem?_eq_getElem m.isLt))
      fun _ _ => userStatement_mem

end Consumer
end Eds
