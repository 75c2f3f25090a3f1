import Eds.Importer.Progress

/-!
# Runs that share a run id

A session is a sequence of runs, one after the other: each finds the world as the
one before it left it, starts with a fresh connection and an empty buffer, and may
end with an exception.  The tracker outlives them, and a later process skips a table
whose key it holds.

The run id is a hash of the destination and of what is selected for the import.  It
does not tell a dry run from another one.
-/

namespace Eds
namespace Importer

open Effects Effects.Prog Effects.Traced Collections Drivers

variable {W : Type}

/-- A run that has ended. -/
structure Outcome where
  config : ImporterConfig
  trace : List (Obs ImportObs)

/-- The tracker is the keys that are in it. -/
structure Session (W : Type) where
  world : W
  tracker : List String
  outcomes : List Outcome

/-- The keys that a run has written. -/
def writtenKeys {E : Type} (t : List (Obs E)) : List String :=
  t.filterMap fun o => match o with
    | .setKey key => some key
    | _ => none

theorem mem_writtenKeys {E : Type} {t : List (Obs E)} {key : String} :
    key ∈ writtenKeys t ↔ .setKey key ∈ t := by
  rw [writtenKeys, List.mem_filterMap]
  constructor
  · intro h
    obtain ⟨o, ho, hkey⟩ := h
    cases o with
    | setKey key' =>
      cases hkey
      exact ho
    | _ => cases hkey
  · intro h
    exact ⟨_, h, rfl⟩

section

variable (dest : Destination W) (sources : Sources W)

def Session.next (s : Session W) (config : ImporterConfig) : Session W :=
  let ended := (runImport dest config sources ⟨ImportBuffer.empty, s.world, []⟩).2
  ⟨ended.world, s.tracker ++ writtenKeys ended.trace, s.outcomes ++ [⟨config, ended.trace⟩]⟩

/-- The runs in turn, from a tracker without markers. -/
def session (configs : List ImporterConfig) (w : W) : Session W :=
  configs.foldl (Session.next dest sources) ⟨w, [], []⟩

/-- Every key in the tracker was written by a run that was allowed to. -/
structure Session.Accounted (configs : List ImporterConfig) (s : Session W) : Prop where
  written : ∀ key ∈ s.tracker, ∃ o ∈ s.outcomes, .setKey key ∈ o.trace
  outcomes : ∀ o ∈ s.outcomes, o.config ∈ configs ∧
    Guarded (Allowed dest sources o.config) o.trace

end

section Sessions

variable {dest : Destination W} {sources : Sources W} {configs : List ImporterConfig}

theorem Session.Accounted.next {s : Session W} (h : s.Accounted dest sources configs)
    {config : ImporterConfig} (hconfig : config ∈ configs) :
    (s.next dest sources config).Accounted dest sources configs where
  written key hkey := by
    rcases List.mem_append.mp hkey with hkey | hkey
    · obtain ⟨o, ho, hmem⟩ := h.written key hkey
      exact ⟨o, List.mem_append_left _ ho, hmem⟩
    · exact ⟨_, List.mem_append_right _ (List.mem_singleton_self _), mem_writtenKeys.mp hkey⟩
  outcomes o ho := by
    rcases List.mem_append.mp ho with ho | ho
    · exact h.outcomes o ho
    · rw [List.mem_singleton.mp ho]
      exact ⟨hconfig, runImport_guarded rfl⟩

/-- Of a whole session, by induction on the runs still to come. -/
theorem Session.Accounted.foldl {s : Session W} (h : s.Accounted dest sources configs)
    {rest : List ImporterConfig} (hrest : ∀ config ∈ rest, config ∈ configs) :
    (rest.foldl (Session.next dest sources) s).Accounted dest sources configs := by
  induction rest generalizing s with
  | nil => exact h
  | cons config rest ih =>
    exact ih (h.next (hrest config List.mem_cons_self)) fun c hc => hrest c (List.mem_cons_of_mem _ hc)

theorem session_accounted (w : W) :
    (session dest sources configs w).Accounted dest sources configs := by
  have hstart : (⟨w, [], []⟩ : Session W).Accounted dest sources configs :=
    ⟨fun _ h => absurd h List.not_mem_nil, fun _ h => absurd h List.not_mem_nil⟩
  exact hstart.foldl fun _ h => h

theorem progressKey_injective {runId table table' : String}
    (h : progressKey runId table = progressKey runId table') : table = table' := by
  exact (String.append_right_inj _).mp h

end Sessions

/-- Whenever a key `import-progress:{run_id}:{table}` is in the tracker, some run of the
session has written it; and each run that wrote it had by then handed every record
of the table to the database, unless it was a dry run, which hands over nothing. -/
theorem progress_marker_durable (dest : Destination W) (sources : Sources W) (w : W)
    {configs : List ImporterConfig} {runId table : String}
    (hshare : ∀ config ∈ configs, config.runId = runId)
    (hkey : progressKey runId table ∈ (session dest sources configs w).tracker) :
    (∃ o ∈ (session dest sources configs w).outcomes,
      .setKey (progressKey runId table) ∈ o.trace) ∧
    ∀ o ∈ (session dest sources configs w).outcomes, ∀ pre post,
      o.trace = pre ++ .setKey (progressKey runId table) :: post →
        (o.config.dryRun = false → Delivered dest sources pre table) ∧
        (o.config.dryRun = true → handed pre = []) := by
  have hall : (session dest sources configs w).Accounted dest sources configs := session_accounted w
  refine ⟨hall.written _ hkey, fun o ho pre post hcut => ?_⟩
  obtain ⟨hconfig, hguarded⟩ := hall.outcomes o ho
  obtain ⟨table', hsame, hallowed⟩ := hguarded pre _ post hcut _ rfl
  rw [hshare o.config hconfig] at hsame
  rw [progressKey_injective hsame]
  exact hallowed

/-! ## One user -/

def userSchema : Schema where
  properties := ⟨[("id", ⟨"string", "", false, none⟩), ("name", ⟨"string", "", true, none⟩)], by decide⟩
  primaryKeys := ["id"]
  table := "user"
  modelVersion := "v1"

def userSchemas : Dict String Schema := ⟨[("user", userSchema)], by decide⟩

/-- A database in which every call returns. -/
def obliging : Destination Unit where
  driver := .mysql
  str _ := ""
  createTableSql _ := ""
  maxBytes := maxBytesSizeInsert
  connect := pure ()
  exec _ := pure ()
  close := pure ()

def userFile : String := "202410061730299510000000000000000-a-1-user-2.ndjson.gz"

def userRecord : String := "\x7b\"id\":\"u1\"\x7d"

/-- An export directory with one file of one record, and a tracker that stores its keys. -/
def oneUser : Sources Unit where
  getLatestSchema := pure userSchemas
  listDir _ := pure [userFile]
  openDecoder _ := pure [.line userRecord]
  closeDecoder _ := pure ()
  validate _ := pure (true, true, "")
  setKey _ _ := pure ()
  parseCrdbExportFile file := if file = userFile then some ("user", 1728235829951000000) else none
  eventId file := file
  json :=
    { checkJson raw := if raw = userRecord then .ok () else .error (.valueError "Expecting value")
      loads raw :=
        if raw = userRecord then .ok (.obj [("id", .str "u1")])
        else .error (.valueError "Expecting value") }

def userImport (dryRun : Bool) : ImporterConfig where
  dataDir := "export"
  dryRun := dryRun
  tables := ["user"]
  single := false
  schemaOnly := false
  noDelete := true
  hasValidator := false
  recoveryEnabled := true
  runId := "run"
  hasTracker := true

/-- After an import that is not dry the key says what it should. -/
theorem progress_marker_durable_user :
    (∀ config ∈ [userImport false], config.runId = "run") ∧
    progressKey "run" "user" ∈ (session obliging oneUser [userImport false] ()).tracker ∧
    ∃ o ∈ (session obliging oneUser [userImport false] ()).outcomes, ∃ pre post,
      o.trace = pre ++ .setKey (progressKey "run" "user") :: post ∧
        Delivered obliging oneUser pre "user" := by
  have hshare : ∀ config ∈ [userImport false], config.runId = "run" := by
    intro config h
    rw [List.mem_singleton.mp h]
    rfl
  have hkey : progressKey "run" "user" ∈ (session obliging oneUser [userImport false] ()).tracker := by
    decide +kernel
  refine ⟨hshare, hkey, ?_⟩
  obtain ⟨⟨o, ho, hmem⟩, hall⟩ := progress_marker_durable obliging oneUser () hshare hkey
  obtain ⟨pre, post, hcut⟩ := List.append_of_mem hmem
  refine ⟨o, ho, pre, post, hcut, (hall o ho pre post hcut).1 ?_⟩
  rw [List.mem_singleton.mp ho]
  rfl

/-- What a dry run does before it writes the key. -/
def dryRunBefore : List (Obs ImportObs) :=
  [.listed userSchemas [userFile],
    .processing userFile "user" 1728235829951000000,
    .opened userFile [.line userRecord],
    .offered userFile userRecord,
    .handler (.logged ["REPLACE INTO \x60user\x60 (\x60id\x60,\x60name\x60) VALUES ('u1',NULL);\n"])]

/-- A dry run of the same import writes the same key, and its record went nowhere. -/
theorem dry_run_writes_marker :
    progressKey "run" "user" ∈ (session obliging oneUser [userImport true] ()).tracker ∧
    ∃ o ∈ (session obliging oneUser [userImport true] ()).outcomes, ∃ pre post,
      o.trace = pre ++ .setKey (progressKey "run" "user") :: post ∧
        ¬ Delivered obliging oneUser pre "user" := by
  refine ⟨by decide +kernel, _, List.mem_singleton_self _, dryRunBefore, [], by decide +kernel, ?_⟩
  intro h
  obtain ⟨schema, files, hlisted, hfiles⟩ := h
  obtain ⟨rfl, rfl⟩ : schema = userSchemas ∧ files = [userFile] := by
    simpa [dryRunBefore] using hlisted
  obtain ⟨data, lines, _, hopened, hrecords⟩ :=
    hfiles userFile (List.mem_singleton_self _) 1728235829951000000 rfl
  have hlines : lines = [.line userRecord] := by simpa [dryRunBefore] using hopened
  subst hlines
  obtain ⟨sql, _, hsql⟩ := hrecords (by decide) userRecord (by decide +kernel) (by decide +kernel)
  exact absurd hsql List.not_mem_nil

/-! ## Two tables -/

def tableSchemas : Dict String Schema :=
  ⟨[("user", userSchema), ("order", { userSchema with table := "order" })], by decide⟩

def orderFile : String := "202410061730299510000000000000000-b-1-order-2.ndjson.gz"

def laterFile : String := "202410061730299510000000000000000-c-1-user-2.ndjson.gz"

/-- The files with their tables and the ids of their records; the file of the orders stands between
the two of the users. -/
def exports : List (String × String × List String) :=
  [(userFile, "user", ["u1", "u2"]), (orderFile, "order", ["o1"]), (laterFile, "user", ["u3"])]

def recordOf (id : String) : String := "\x7b\"id\":\"" ++ id ++ "\"\x7d"

def idOf (raw : String) : Option String := ["u1", "u2", "o1", "u3"].find? fun id => recordOf id == raw

def twoTables : Sources Unit where
  getLatestSchema := pure tableSchemas
  listDir _ := pure (exports.map Prod.fst)
  openDecoder file :=
    pure (((exports.lookup file).elim [] Prod.snd).map fun id => .line (recordOf id))
  closeDecoder _ := pure ()
  validate _ := pure (true, true, "")
  setKey _ _ := pure ()
  parseCrdbExportFile file :=
    (exports.lookup file).map fun entry => (entry.1, 1728235829951000000)
  eventId file := file
  json :=
    { checkJson raw := if (idOf raw).isSome then .ok () else .error (.valueError "Expecting value")
      loads raw := (idOf raw).elim (.error (.valueError "Expecting value"))
        fun id => .ok (.obj [("id", .str id)]) }

/-- The tables are created first. -/
def tableImport : ImporterConfig :=
  { userImport false with tables := ["user", "order"], noDelete := false }

end Importer
end Eds
