import Eds.Drivers.Values
import Eds.Effects.Pool
import Eds.Collections.Traverse

/-!
# The flush of the S3 driver

`process` buffers each event under its key, and `flush` uploads the buffer with a pool of
`uploadTasks` workers.  The key has the second of the event in it, so that several events of
one object can have the same key, and which of them is stored in the end is a matter of
scheduling.  `flush_stores` says what is known in every case and when it is the last event.

A failed upload raises after all uploads are over and is not modelled.
-/

namespace Eds
namespace Drivers
namespace S3

open Effects Collections

/-! ## Keys -/

/-- `s.replace("//", "/")` -/
def replaceSlashes : List Char → List Char
  | '/' :: '/' :: rest => '/' :: replaceSlashes rest
  | c :: rest => c :: replaceSlashes rest
  | [] => []

/-- The `while` loop: a pass that finds two slashes makes the text shorter, and one that finds
none leaves it as it is. -/
def collapse (cs : List Char) : List Char := Nat.repeat replaceSlashes cs.length cs

/-- A part that is not empty and not a string cannot be joined. -/
def joinParts : List Json → Except Exn (List String)
  | [] => .ok []
  | part :: rest =>
    if isFalsy part then joinParts rest
    else match part with
      | .str s => (joinParts rest).map (s :: ·)
      | _ => .error (.exception "sequence item: expected str instance")

def pathJoin (parts : List Json) : Except Exn String := do
  let texts ← joinParts parts
  pure (String.ofList (collapse ("/".intercalate texts).toList))

/-- `self.key[-1]`, else `object["id"]` if that is a string. -/
def getPrimaryKey (evt : DBChangeEvent) : Except Exn Json :=
  if isFalsy evt.key then
    match (getObject evt).lookup "id" with
    | some (.str s) => .ok (.str s)
    | _ => .ok (.str "")
  else match evt.key with
    | .arr vs => match vs.getLast? with
      | some v => .ok v
      | none => .error (.exception "list index out of range")
    | .str s => match s.toList.getLast? with
      | some c => .ok (.str (String.ofList [c]))
      | none => .error (.exception "string index out of range")
    | .obj _ => .error (.exception "-1")
    | _ => .error (.exception "object is not subscriptable")

/-- `str` is the text that a format string makes of a value. -/
def objectKey (str : Json → String) (keyPrefix : String) (event : DBChangeEvent) :
    Except Exn String :=
  match event.schemaValidatedPath with
  | some path => pathJoin [.str keyPrefix, .str path]
  | none => do
    let unixSeconds := event.timestamp / 1000
    let pk ← getPrimaryKey event
    pathJoin [.str keyPrefix, event.table, .str s!"{unixSeconds}-{str pk}.json"]

/-! ## The driver -/

def defaultUploadTasks : Nat := 4

def resolvePositiveInt (key raw : String) (default : Nat) : Except String Nat :=
  if raw = "" then .ok default
  else match atoi raw with
    | none => .error s!"unable to parse {key}: {raw}"
    | some n => .ok (if n ≤ 0 then default else n.toNat)

structure Driver where
  keyPrefix : String
  uploadTasks : Nat
  positive : 0 < uploadTasks

theorem resolvePositiveInt_pos {key raw : String} {default n : Nat} (hdefault : 0 < default)
    (h : resolvePositiveInt key raw default = .ok n) : 0 < n := by
  unfold resolvePositiveInt at h
  split at h
  · cases h
    exact hdefault
  · split at h
    · cases h
    · cases h
      split
      · exact hdefault
      · omega

/-- A connected driver: the prefix and the value of `uploadTasks` in the query. -/
def connect (keyPrefix raw : String) : Except String Driver :=
  match h : resolvePositiveInt "uploadTasks" raw defaultUploadTasks with
  | .ok n => .ok ⟨keyPrefix, n, resolvePositiveInt_pos (by decide) h⟩
  | .error e => .error e

abbrev Pending := List (String × DBChangeEvent)

def process (str : Json → String) (d : Driver) (pending : Pending) (event : DBChangeEvent) :
    Except Exn Pending := do
  let key ← objectKey str d.keyPrefix event
  pure (pending ++ [(key, event)])

/-- A batch, one event after the other. -/
def processAll (str : Json → String) (d : Driver) (events : List DBChangeEvent) :
    Except Exn Pending :=
  events.foldlM (process str d) []

/-- What is uploaded; `stringify` is the JSON text of an event. -/
def uploads (stringify : DBChangeEvent → String) (jobs : Pending) : List (String × String) :=
  jobs.map fun job => (job.1, stringify job.2)

/-- The buckets that a flush can leave: the uploads landed in some order that the pool allows. -/
def Flushed (stringify : DBChangeEvent → String) (d : Driver) (jobs : Pending)
    (bucket bucket' : String → Option String) : Prop :=
  ∃ landed, Pool.Completes d.uploadTasks (uploads stringify jobs) landed ∧
    bucket' = writeAll landed bucket

/-! ## Events and jobs -/

section Batch

variable {str : Json → String} {stringify : DBChangeEvent → String} {d : Driver}
  {events : List DBChangeEvent} {jobs : Pending}

/-- The last event of the batch that has the key. -/
def LastWith (str : Json → String) (d : Driver) (events : List DBChangeEvent) (key : String)
    (event : DBChangeEvent) : Prop :=
  ∃ before after, events = before ++ event :: after ∧
    objectKey str d.keyPrefix event = .ok key ∧
    ∀ e ∈ after, objectKey str d.keyPrefix e ≠ .ok key

/-- Each job is an event with its key. -/
def Keyed (str : Json → String) (d : Driver) (event : DBChangeEvent) (job : String × DBChangeEvent) :
    Prop := objectKey str d.keyPrefix event = .ok job.1 ∧ job.2 = event

theorem keyed_of_fold {pending : Pending} (h : events.foldlM (process str d) pending = .ok jobs) :
    ∃ more, jobs = pending ++ more ∧ List.Forall₂ (Keyed str d) events more := by
  induction events generalizing pending with
  | nil =>
    cases h
    exact ⟨[], (List.append_nil _).symm, .nil⟩
  | cons event rest ih =>
    rw [List.foldlM_cons] at h
    obtain ⟨next, hnext, h⟩ := bind_eq_ok.mp h
    obtain ⟨key, hkey, hnext⟩ := bind_eq_ok.mp hnext
    cases hnext
    obtain ⟨more, rfl, hmore⟩ := ih h
    exact ⟨(key, event) :: more, by simp, .cons ⟨hkey, rfl⟩ hmore⟩

theorem keyed_of_processAll (h : processAll str d events = .ok jobs) :
    List.Forall₂ (Keyed str d) events jobs := by
  obtain ⟨more, rfl, hmore⟩ := keyed_of_fold h
  exact hmore

theorem mem_uploads (h : List.Forall₂ (Keyed str d) events jobs) {key text : String} :
    (key, text) ∈ uploads stringify jobs ↔
      ∃ e ∈ events, objectKey str d.keyPrefix e = .ok key ∧ stringify e = text := by
  induction h with
  | nil => simp [uploads]
  | @cons event job rest more hkeyed _ ih =>
    obtain ⟨k, e⟩ := job
    obtain ⟨hkey, rfl⟩ : objectKey str d.keyPrefix event = .ok k ∧ e = event := hkeyed
    rw [uploads, List.map_cons, List.mem_cons, ← uploads, ih]
    constructor
    · intro hmem
      rcases hmem with heq | ⟨e', he', hrest⟩
      · cases heq
        exact ⟨e, List.mem_cons_self, hkey, rfl⟩
      · exact ⟨e', List.mem_cons_of_mem e he', hrest⟩
    · intro hmem
      obtain ⟨e', he', hkey', htext⟩ := hmem
      rcases List.mem_cons.mp he' with rfl | he'
      · rw [hkey] at hkey'
        cases hkey'
        exact Or.inl (by rw [htext])
      · exact Or.inr ⟨e', he', hkey', htext⟩

/-- Jobs are only made of events. -/
theorem lastOf_eq_none (h : List.Forall₂ (Keyed str d) events jobs)
    {landed : List (String × String)} (hperm : landed.Perm (uploads stringify jobs)) {key : String}
    (hnone : ∀ e ∈ events, objectKey str d.keyPrefix e ≠ .ok key) : lastOf key landed = none := by
  cases hlast : lastOf key landed with
  | none => rfl
  | some text =>
    obtain ⟨e, he, hkey, _⟩ := (mem_uploads h).mp (hperm.subset (mem_of_lastOf hlast))
    exact absurd hkey (hnone e he)

theorem lastOf_uploads {before after : List DBChangeEvent} {key : String} {event : DBChangeEvent}
    (h : List.Forall₂ (Keyed str d) (before ++ event :: after) jobs)
    (hkey : objectKey str d.keyPrefix event = .ok key)
    (hafter : ∀ e ∈ after, objectKey str d.keyPrefix e ≠ .ok key) :
    lastOf key (uploads stringify jobs) = some (stringify event) := by
  induction before generalizing jobs with
  | nil =>
    obtain ⟨job, more, hkeyed, hmore, rfl⟩ := List.forall₂_cons_left_iff.mp h
    obtain ⟨k, e⟩ := job
    obtain ⟨hkey', rfl⟩ : objectKey str d.keyPrefix event = .ok k ∧ e = event := hkeyed
    rw [hkey] at hkey'
    cases hkey'
    have hnone : lastOf key (uploads stringify more) = none := lastOf_eq_none hmore (.refl _) hafter
    rw [uploads, List.map_cons, lastOf, ← uploads, hnone, if_pos rfl]
    rfl
  | cons first rest ih =>
    obtain ⟨job, more, _, hmore, rfl⟩ := List.forall₂_cons_left_iff.mp h
    rw [uploads, List.map_cons, lastOf, ← uploads, ih hmore]
    rfl

/-- A key that some event of the batch has, with the last event that has it. -/
theorem exists_lastWith {key : String} {e : DBChangeEvent} (he : e ∈ events)
    (hkey : objectKey str d.keyPrefix e = .ok key) : ∃ event, LastWith str d events key event := by
  induction events generalizing e with
  | nil => cases he
  | cons first rest ih =>
    by_cases hlater : ∃ e' ∈ rest, objectKey str d.keyPrefix e' = .ok key
    · obtain ⟨e', he', hkey'⟩ := hlater
      obtain ⟨event, before, after, rfl, hevent, hafter⟩ := ih he' hkey'
      exact ⟨event, first :: before, after, rfl, hevent, hafter⟩
    · have hnone : ∀ e' ∈ rest, objectKey str d.keyPrefix e' ≠ .ok key :=
        fun e' he' hkey' => hlater ⟨e', he', hkey'⟩
      rcases List.mem_cons.mp he with rfl | he
      · exact ⟨e, [], rest, rfl, hkey, hnone⟩
      · exact absurd hkey (hnone e he)

/-- What a key holds in the end: the text of one of its events, or what it held before. -/
theorem writeAll_uploads (h : List.Forall₂ (Keyed str d) events jobs)
    {landed : List (String × String)} {bucket : String → Option String}
    (hperm : landed.Perm (uploads stringify jobs)) (key : String) :
    (∃ e ∈ events, objectKey str d.keyPrefix e = .ok key ∧
      writeAll landed bucket key = some (stringify e)) ∨
    ((∀ e ∈ events, objectKey str d.keyPrefix e ≠ .ok key) ∧
      writeAll landed bucket key = bucket key) := by
  rw [writeAll_apply]
  cases hlast : lastOf key landed with
  | some text =>
    obtain ⟨e, he, hkey, rfl⟩ := (mem_uploads h).mp (hperm.subset (mem_of_lastOf hlast))
    exact Or.inl ⟨e, he, hkey, rfl⟩
  | none =>
    refine Or.inr ⟨fun e he hkey => ?_, rfl⟩
    have hmem : (key, stringify e) ∈ uploads stringify jobs :=
      (mem_uploads h).mpr ⟨e, he, hkey, rfl⟩
    obtain ⟨text, htext⟩ := lastOf_of_mem (hperm.symm.subset hmem)
    rw [hlast] at htext
    cases htext

end Batch

/-- After a flush each key holds the text of an event of the batch that has it, and a key that no
event has is left alone.  It is the last event of the key, in every order in which the uploads
can land, if and only if there is one worker or all events of a key have the text of its last
one. -/
theorem flush_stores (str : Json → String) (stringify : DBChangeEvent → String) (d : Driver)
    (events : List DBChangeEvent) (jobs : Pending) (h : processAll str d events = .ok jobs) :
    (∀ bucket bucket', Flushed stringify d jobs bucket bucket' → ∀ key,
      (∃ e ∈ events, objectKey str d.keyPrefix e = .ok key ∧ bucket' key = some (stringify e)) ∨
      ((∀ e ∈ events, objectKey str d.keyPrefix e ≠ .ok key) ∧ bucket' key = bucket key)) ∧
    ((∀ bucket bucket', Flushed stringify d jobs bucket bucket' → ∀ key last,
        LastWith str d events key last → bucket' key = some (stringify last)) ↔
      d.uploadTasks = 1 ∨ ∀ key last e, LastWith str d events key last → e ∈ events →
        objectKey str d.keyPrefix e = .ok key → stringify e = stringify last) := by
  have hkeyed := keyed_of_processAll h
  have hlastOf : ∀ key last, LastWith str d events key last →
      lastOf key (uploads stringify jobs) = some (stringify last) := by
    intro key last hlast
    obtain ⟨before, after, rfl, hkey, hafter⟩ := hlast
    exact lastOf_uploads hkeyed hkey hafter
  refine ⟨fun bucket bucket' hflushed key => ?_, ?_⟩
  · obtain ⟨landed, hcompletes, rfl⟩ := hflushed
    exact writeAll_uploads hkeyed (Pool.completes_perm hcompletes) key
  · have hwins := last_wins_iff d.positive (uploads stringify jobs)
    have hleft : (∀ bucket bucket', Flushed stringify d jobs bucket bucket' → ∀ key last,
        LastWith str d events key last → bucket' key = some (stringify last)) ↔
        ∀ landed, Pool.Completes d.uploadTasks (uploads stringify jobs) landed →
          ∀ key, lastOf key landed = lastOf key (uploads stringify jobs) := by
      constructor
      · intro hall landed hcompletes key
        have hstored := hall (fun _ => none) _ ⟨landed, hcompletes, rfl⟩ key
        by_cases hsome : ∃ e ∈ events, objectKey str d.keyPrefix e = .ok key
        · obtain ⟨e, he, hkey⟩ := hsome
          obtain ⟨last, hlast⟩ := exists_lastWith he hkey
          have hlanded := hstored last hlast
          rw [writeAll_apply, Option.or_none] at hlanded
          rw [hlanded, hlastOf key last hlast]
        · have hnone : ∀ e ∈ events, objectKey str d.keyPrefix e ≠ .ok key :=
            fun e he hkey => hsome ⟨e, he, hkey⟩
          rw [lastOf_eq_none hkeyed (Pool.completes_perm hcompletes) hnone,
            lastOf_eq_none hkeyed (.refl _) hnone]
      · intro hall bucket bucket' hflushed key last hlast
        obtain ⟨landed, hcompletes, rfl⟩ := hflushed
        rw [writeAll_apply, hall landed hcompletes key, hlastOf key last hlast]
        rfl
    have hright : (∀ key text, (key, text) ∈ uploads stringify jobs →
        lastOf key (uploads stringify jobs) = some text) ↔
        ∀ key last e, LastWith str d events key last → e ∈ events →
          objectKey str d.keyPrefix e = .ok key → stringify e = stringify last := by
      constructor
      · intro hall key last e hlast he hkey
        have hsame := hall key (stringify e) ((mem_uploads hkeyed).mpr ⟨e, he, hkey, rfl⟩)
        rw [hlastOf key last hlast] at hsame
        exact (Option.some.inj hsame).symm
      · intro hall key text hmem
        obtain ⟨e, he, hkey, rfl⟩ := (mem_uploads hkeyed).mp hmem
        obtain ⟨last, hlast⟩ := exists_lastWith he hkey
        rw [hlastOf key last hlast, hall key last e hlast he hkey]
    rw [hleft, hwins, hright]

/-! ## Two updates within a second -/

/-- An update of the user `u1`. -/
def updateAt (timestamp : Int) : DBChangeEvent where
  operation := .str "UPDATE"
  table := .str "user"
  modelVersion := .str "v1"
  object := none
  diff := .null
  timestamp := timestamp
  schemaValidatedPath := none
  key := .arr [.str "u1"]

/-- The text of such an event. -/
def updateText (event : DBChangeEvent) : String :=
  "\x7b\"operation\":\"UPDATE\",\"id\":\"\",\"table\":\"user\",\"key\":[\"u1\"]," ++
    "\"modelVersion\":\"v1\",\"timestamp\":" ++ toString event.timestamp ++
    ",\"mvccTimestamp\":\"\"\x7d"

def strOf : Json → String
  | .str s => s
  | _ => ""

def driver (uploadTasks : Nat) (h : 0 < uploadTasks) : Driver := ⟨"", uploadTasks, h⟩

example : objectKey strOf "a//" (updateAt 500000000) = .ok "a/user/500000-u1.json" := by decide

theorem processed_updates {uploadTasks : Nat} (h : 0 < uploadTasks) :
    processAll strOf (driver uploadTasks h) [updateAt 1000, updateAt 1500] =
      .ok [("user/1-u1.json", updateAt 1000), ("user/1-u1.json", updateAt 1500)] := rfl

theorem last_update {uploadTasks : Nat} (h : 0 < uploadTasks) :
    LastWith strOf (driver uploadTasks h) [updateAt 1000, updateAt 1500] "user/1-u1.json"
      (updateAt 1500) := ⟨[updateAt 1000], [], rfl, rfl, nofun⟩

/-- One worker. -/
theorem flush_stores_one :
    writeAll (uploads updateText [("user/1-u1.json", updateAt 1000),
      ("user/1-u1.json", updateAt 1500)]) (fun _ => none) "user/1-u1.json" =
        some (updateText (updateAt 1500)) := by
  have hlanded : Pool.Completes 1 (uploads updateText [("user/1-u1.json", updateAt 1000),
      ("user/1-u1.json", updateAt 1500)]) (uploads updateText [("user/1-u1.json", updateAt 1000),
      ("user/1-u1.json", updateAt 1500)]) := Pool.completes_all Nat.one_pos _
  have hstored := (flush_stores strOf updateText (driver 1 Nat.one_pos)
    [updateAt 1000, updateAt 1500] _ (processed_updates Nat.one_pos)).2.mpr (Or.inl rfl)
  exact hstored _ _ ⟨_, hlanded, rfl⟩ _ _ (last_update Nat.one_pos)

/-- With the four workers of the default the first update can be what is stored. -/
theorem first_update_stored :
    ∃ bucket', Flushed updateText (driver defaultUploadTasks (by decide))
        [("user/1-u1.json", updateAt 1000), ("user/1-u1.json", updateAt 1500)] (fun _ => none) bucket' ∧
      LastWith strOf (driver defaultUploadTasks (by decide)) [updateAt 1000, updateAt 1500]
        "user/1-u1.json" (updateAt 1500) ∧
      bucket' "user/1-u1.json" ≠ some (updateText (updateAt 1500)) := by
  have hdelayed := Pool.completes_delayed (w := defaultUploadTasks) (by decide) []
    ("user/1-u1.json", updateText (updateAt 1000)) [("user/1-u1.json", updateText (updateAt 1500))]
  refine ⟨_, ⟨_, hdelayed, rfl⟩, last_update _, ?_⟩
  rw [writeAll_apply]
  decide

end S3
end Drivers
end Eds
