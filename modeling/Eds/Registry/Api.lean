import Eds.Effects.Traced
import Eds.Collections.Expiring
import Eds.Event

/-!
# The schema registry

A read goes to the cache, then to the tracker, then to the API.  The cache forgets
what is older than a day and keeps time by the monotonic clock; the tracker is a file,
keeps what has no deadline, and keeps time by the wall clock.  Both are given a
lifetime of zero when the registry is opened, which is the shortest one to the cache
and none at all to the tracker.

The calls come from one thread.  The sweeper of the cache has another one, so that
time may pass and a sweep may happen before each access to a store; `elapse` decides.
The trace records what is stored and fetched for which table and version.
-/

namespace Eds
namespace Registry

open Effects Effects.Prog Effects.Traced Collections

variable {U : Type}

/-! ## Keys -/

def keyPrefix : String := "registry:"

def schemaCacheKey (table version : String) : String := keyPrefix ++ table ++ "-" ++ version

def versionCacheKey (table : String) : String := keyPrefix ++ table ++ ":version"

/-- In nanoseconds. -/
def defaultCache : Int := 86400 * 1000000000

/-! ## The stores -/

/-- The cache holds versions and schemas alike, and hands out whatever it holds. -/
inductive Object where
  | text (s : String)
  | schema (s : Schema)
  deriving DecidableEq

structure Stores where
  cache : Expiring String Object
  tracker : Expiring String String
  monotonic : Int
  wall : Int

/-- What happens before an access; the wall clock may be set to any time. -/
structure Pause where
  elapsed : Nat
  wall : Int
  sweeps : Bool

def Stores.after (p : Pause) (s : Stores) : Stores where
  cache := if p.sweeps then s.cache.sweep (s.monotonic + p.elapsed) else s.cache
  tracker := s.tracker
  monotonic := s.monotonic + p.elapsed
  wall := p.wall

/-- `_deadline` -/
def deadline (now expires : Int) : Option Int := if 0 < expires then some (now + expires) else none

/-- What `json.loads` gives, with a dictionary already read by `Schema.from_dict`, which may
raise; `other` is the name of another type. -/
inductive Parsed where
  | null
  | dict (schema : Except Exn Schema)
  | other (typeName : String)

/-- `request` is a GET with the status and the text of its response.  `stringify` is the JSON
of a schema. -/
structure ApiRegistry (U : Type) where
  apiUrl : String
  hasTracker : Bool
  schema : Dict String Schema
  objects : Dict String String
  request : String → Prog Exn U (Int × String)
  loads : String → Except String Parsed
  stringify : Schema → String
  elapse : U → Pause × U

/-- What is seeded when the registry is opened, what is put in the tracker, what the API
answers, and the versions that are set. -/
inductive Obs where
  | seeded (s : Schema)
  | stored (table version text : String)
  | fetched (table version body : String)
  | versionSet (table version : String)
  deriving DecidableEq

abbrev State (U : Type) := Traced Stores U Obs

abbrev RegProg (U α : Type) := Prog Exn (State U) α

section

variable (reg : ApiRegistry U)

def pause : RegProg U Unit := do
  let p ← outside fun u => (.ok (reg.elapse u).1, (reg.elapse u).2)
  assign (Stores.after p)

def cacheGet (key : String) : RegProg U (Option Object) := do
  pause reg
  let found ← read fun s => s.cache.find key s.monotonic
  assign fun s => { s with cache := s.cache.evict key s.monotonic }
  pure found

def cacheSet (key : String) (val : Object) (expires : Int) : RegProg U Unit := do
  pause reg
  assign fun s => { s with cache := s.cache.put key ⟨val, some (s.monotonic + expires)⟩ }

def trackerGet (key : String) : RegProg U (Option String) := do
  pause reg
  let found ← read fun s => s.tracker.find key s.wall
  assign fun s => { s with tracker := s.tracker.evict key s.wall }
  pure found

def trackerSet (key value : String) (expires : Int) : RegProg U Unit := do
  pause reg
  assign fun s => { s with tracker := s.tracker.put key ⟨value, deadline s.wall expires⟩ }

/-! ## The registry -/

def storeSchema (table version : String) (s : Schema) : RegProg U Unit :=
  if reg.hasTracker then do
    note (.stored table version (reg.stringify s))
    trackerSet reg (schemaCacheKey table version) (reg.stringify s) 0
  else pure ()

def storeVersion (table version : String) : RegProg U Unit :=
  if reg.hasTracker then trackerSet reg (versionCacheKey table) version 0 else pure ()

def seed (s : Schema) : RegProg U Unit := do
  note (.seeded s)
  storeSchema reg s.table s.modelVersion s
  storeVersion reg s.table s.modelVersion
  cacheSet reg (schemaCacheKey s.table s.modelVersion) (.schema s) 0

/-- A new registry has a new cache; the tracker may hold what an earlier one left. -/
def openRegistry : RegProg U Unit := do
  assign fun s => { s with cache := Expiring.empty }
  each (seed reg) (reg.schema.items.map Prod.snd)

def lookupTracker (key : String) : RegProg U (Option String) :=
  if reg.hasTracker then trackerGet reg key else pure none

def getTableVersion (table : String) : RegProg U (Bool × Object) := do
  match ← cacheGet reg (versionCacheKey table) with
  | some val => pure (true, val)
  | none =>
    match ← lookupTracker reg (versionCacheKey table) with
    | some version => do
      cacheSet reg (versionCacheKey table) (.text version) defaultCache
      pure (true, .text version)
    | none => pure (false, .text "")

def setTableVersion (table version : String) : RegProg U Unit := do
  note (.versionSet table version)
  cacheSet reg (versionCacheKey table) (.text version) defaultCache
  storeVersion reg table version

def decodeSchema (body table version : String) : Except Exn Schema :=
  match reg.loads body with
  | .error e => .error (.valueError
      s!"error decoding schema for table: {table}, modelVersion: {version}: {e}")
  | .ok .null => .ok { properties := Dict.empty, primaryKeys := [], table := "", modelVersion := "" }
  | .ok (.other typeName) => .error (.valueError
      (s!"error decoding schema for table: {table}, modelVersion: {version}: " ++
        s!"cannot unmarshal {typeName} into Schema"))
  | .ok (.dict schema) => schema

/-- The name of the object that the table belongs to, or the table itself. -/
def objectName (table : String) : String :=
  match reg.objects.get? table with
  | some obj => if obj = "" then table else obj
  | none => table

def fetchSchema (table version : String) : RegProg U Object := do
  let (status, body) ← tryExcept
    (outside (reg.request (reg.apiUrl ++ "/v3/schema/" ++ objectName reg table ++ "/" ++ version)))
    fun e => raise (.valueError s!"error fetching schema: {e.str}")
  if status ≠ 200 then
    raise (.valueError (s!"error fetching schema for table: {table}, modelVersion: {version}. " ++
      s!"status code was: {status}, {body}"))
  else do
    note (.fetched table version body)
    let schema ← ofExcept (decodeSchema reg body table version)
    cacheSet reg (schemaCacheKey table version) (.schema schema) defaultCache
    storeSchema reg table version schema
    pure (.schema schema)

def getSchema (table version : String) : RegProg U Object := do
  match ← cacheGet reg (schemaCacheKey table version) with
  | some val => pure val
  | none =>
    match ← lookupTracker reg (schemaCacheKey table version) with
    | some text => do
      let schema ← ofExcept (decodeSchema reg text table version)
      cacheSet reg (schemaCacheKey table version) (.schema schema) defaultCache
      pure (.schema schema)
    | none => fetchSchema reg table version

end

/-! ## The schemas by table -/

/-- `_sort_table`: the schemas by their tables, and the object of each table. -/
def sortTable (byObject : List (String × Schema)) : Dict String Schema × Dict String String :=
  byObject.foldl (fun (kv, otm) (obj, d) => (kv.insert d.table d, otm.insert d.table obj))
    (Dict.empty, Dict.empty)

/-- Each schema stands under its own table. -/
def Keyed (latest : Dict String Schema) : Prop := ∀ entry ∈ latest.items, entry.2.table = entry.1

theorem sortTable_keyed (byObject : List (String × Schema)) : Keyed (sortTable byObject).1 := by
  have hfold : ∀ (start : Dict String Schema × Dict String String), Keyed start.1 →
      Keyed (byObject.foldl (fun (kv, otm) (obj, d) =>
        (kv.insert d.table d, otm.insert d.table obj)) start).1 := by
    induction byObject with
    | nil => exact fun _ h => h
    | cons entry rest ih =>
      intro start hstart
      refine ih _ fun entry' hentry => ?_
      rcases Dict.mem_insertItem hentry with rfl | hentry
      · rfl
      · exact hstart entry' hentry
  exact hfold _ fun _ h => absurd h List.not_mem_nil

end Registry
end Eds
