import Eds.Registry.Api

/-!
# What the registry answers

For tables whose names have letters, digits and underscores only, the version of a
table is the one that was set last, and a schema is one that was supplied for the very
table and version that are asked for.

The keys carry this: the first character of a key that is not in a name tells whose
key it is.  The invariant relates each store to the trace; a pause can only take
entries out of the cache, which no clause of it minds.
-/

namespace Eds
namespace Registry

open Effects Effects.Prog Effects.Traced Collections

variable {U : Type}

/-! ## Names and keys -/

def isNameChar (c : Char) : Bool := c.isAlphanum || c == '_'

/-- A table name over letters, digits and underscores. -/
def Name (table : String) : Prop := ∀ c ∈ table.toList, isNameChar c = true

instance (table : String) : Decidable (Name table) :=
  List.decidableBAll (fun c => isNameChar c = true) table.toList

/-- Two texts cut at their first character outside a class. -/
theorem cut_unique {α : Type} {p : α → Bool} {front front' back back' : List α} {a a' : α}
    (hfront : ∀ c ∈ front, p c = true) (hfront' : ∀ c ∈ front', p c = true)
    (ha : p a = false) (ha' : p a' = false) (h : front ++ a :: back = front' ++ a' :: back') :
    front = front' ∧ a = a' ∧ back = back' := by
  induction front generalizing front' with
  | nil =>
    cases front' with
    | nil =>
      obtain ⟨rfl, rfl⟩ := List.cons.inj h
      exact ⟨rfl, rfl, rfl⟩
    | cons c rest =>
      obtain ⟨rfl, _⟩ := List.cons.inj h
      rw [hfront' a List.mem_cons_self] at ha
      cases ha
  | cons c rest ih =>
    cases front' with
    | nil =>
      obtain ⟨rfl, _⟩ := List.cons.inj h
      rw [hfront c List.mem_cons_self] at ha'
      cases ha'
    | cons c' rest' =>
      obtain ⟨rfl, hrest⟩ := List.cons.inj h
      obtain ⟨rfl, hmark, hback⟩ := ih (fun d hd => hfront d (List.mem_cons_of_mem _ hd))
        (fun d hd => hfront' d (List.mem_cons_of_mem _ hd)) hrest
      exact ⟨rfl, hmark, hback⟩

theorem schemaCacheKey_toList (table version : String) :
    (schemaCacheKey table version).toList =
      keyPrefix.toList ++ (table.toList ++ '-' :: version.toList) := by
  rw [schemaCacheKey, String.toList_append, String.toList_append, String.toList_append,
    List.append_assoc, List.append_assoc]
  rfl

theorem versionCacheKey_toList (table : String) :
    (versionCacheKey table).toList =
      keyPrefix.toList ++ (table.toList ++ ':' :: "version".toList) := by
  rw [versionCacheKey, String.toList_append, String.toList_append, List.append_assoc]
  rfl

section Keys

variable {table table' version version' : String}

theorem schemaCacheKey_inj (ht : Name table) (ht' : Name table')
    (h : schemaCacheKey table version = schemaCacheKey table' version') :
    table = table' ∧ version = version' := by
  have hlist := congrArg String.toList h
  rw [schemaCacheKey_toList, schemaCacheKey_toList] at hlist
  obtain ⟨htable, _, hversion⟩ :=
    cut_unique ht ht' (by decide) (by decide) (List.append_cancel_left hlist)
  exact ⟨String.toList_inj.mp htable, String.toList_inj.mp hversion⟩

theorem versionCacheKey_inj (ht : Name table) (ht' : Name table')
    (h : versionCacheKey table = versionCacheKey table') : table = table' := by
  have hlist := congrArg String.toList h
  rw [versionCacheKey_toList, versionCacheKey_toList] at hlist
  obtain ⟨htable, _, _⟩ :=
    cut_unique ht ht' (by decide) (by decide) (List.append_cancel_left hlist)
  exact String.toList_inj.mp htable

theorem schemaCacheKey_ne_versionCacheKey (ht : Name table) (ht' : Name table') :
    schemaCacheKey table version ≠ versionCacheKey table' := by
  intro h
  have hlist := congrArg String.toList h
  rw [schemaCacheKey_toList, versionCacheKey_toList] at hlist
  obtain ⟨_, hmark, _⟩ :=
    cut_unique ht ht' (by decide) (by decide) (List.append_cancel_left hlist)
  exact absurd hmark (by decide)

end Keys

/-! ## What the trace says -/

def noteVersion (table : String) (known : Option String) : Obs → Option String
  | .versionSet table' version => if table' = table then some version else known
  | .seeded s => if s.table = table then some s.modelVersion else known
  | _ => known

/-- The version that was set last, or seeded when the registry was opened. -/
def lastVersion (table : String) (t : List Obs) : Option String :=
  t.foldl (noteVersion table) none

theorem lastVersion_snoc (table : String) (t : List Obs) (o : Obs) :
    lastVersion table (t ++ [o]) = noteVersion table (lastVersion table t) o := by
  rw [lastVersion, List.foldl_append]
  rfl

/-- The schema came with the registry for this table and version, or it is decoded from a
text that was stored or fetched for them. -/
def Supplied (reg : ApiRegistry U) (t : List Obs) (table version : String) (s : Schema) : Prop :=
  (.seeded s ∈ t ∧ s.table = table ∧ s.modelVersion = version) ∨
    ∃ text, (.stored table version text ∈ t ∨ .fetched table version text ∈ t) ∧
      decodeSchema reg text table version = .ok s

theorem Supplied.append {reg : ApiRegistry U} {t : List Obs} {table version : String} {s : Schema}
    (h : Supplied reg t table version s) (es : List Obs) :
    Supplied reg (t ++ es) table version s := by
  rcases h with ⟨hseed, hpair⟩ | ⟨text, hfrom, hdecode⟩
  · exact Or.inl ⟨List.mem_append_left _ hseed, hpair⟩
  · exact Or.inr ⟨text, hfrom.imp (List.mem_append_left _) (List.mem_append_left _), hdecode⟩

/-- The stores against the trace.  `tracked` is what the tracker should hold of the versions:
between the two writes of a call it lags behind the trace. -/
structure Agrees (reg : ApiRegistry U) (t : List Obs) (tracked : String → Option String)
    (s : Stores) : Prop where
  versions : ∀ table, Name table →
    s.tracker (versionCacheKey table) = (tracked table).map fun v => ⟨v, none⟩
  cachedVersions : ∀ table, Name table → ∀ e, s.cache (versionCacheKey table) = some e →
    ∃ v, e.value = .text v ∧ lastVersion table t = some v
  cachedSchemas : ∀ table version, Name table → ∀ e,
    s.cache (schemaCacheKey table version) = some e →
      ∃ schema, e.value = .schema schema ∧ Supplied reg t table version schema
  stored : ∀ table version, Name table → ∀ e, s.tracker (schemaCacheKey table version) = some e →
    .stored table version e.value ∈ t
  lasting : ∀ key e, s.tracker key = some e → e.deadline = none

/-- Between two calls. -/
def Coherent (reg : ApiRegistry U) (s : State U) : Prop :=
  Agrees reg s.trace (fun table => lastVersion table s.trace) s.vars

/-! ## Accesses to a store -/

/-- The cache may have lost entries. -/
structure Later (s t : State U) : Prop where
  trace : t.trace = s.trace
  tracker : t.vars.tracker = s.vars.tracker
  cache : Expiring.Thins s.vars.cache t.vars.cache

section Accesses

variable {reg : ApiRegistry U} {s : State U} {key : String}

theorem pause_spec : wp (pause reg) (fun _ t => Later s t) (fun _ _ => False) s := by
  rw [pause, wp_bind]
  refine wp_outside (fun p u _ => ?_) (fun e u h => ?_)
  · refine ⟨rfl, rfl, ?_⟩
    show Expiring.Thins s.vars.cache (if p.sweeps then _ else s.vars.cache)
    split
    · exact Expiring.thins_sweep _ _
    · exact Expiring.Thins.refl _
  · cases congrArg Prod.fst h

theorem cacheGet_spec :
    wp (cacheGet reg key)
      (fun r t => Later s t ∧ ∀ obj ∈ r, ∃ e, s.vars.cache key = some e ∧ e.value = obj)
      (fun _ _ => False) s := by
  rw [cacheGet, wp_bind]
  refine wp_post pause_spec fun _ u hu => ?_
  rw [wp_bind, wp_read, wp_bind, wp_assign, wp_pure]
  refine ⟨⟨hu.trace, hu.tracker, hu.cache.trans Expiring.thins_evict⟩, fun obj hobj => ?_⟩
  obtain ⟨e, he, hvalue⟩ := Expiring.find_eq_some hobj
  exact ⟨e, hu.cache _ _ he, hvalue⟩

theorem cacheSet_spec {val : Object} {expires : Int} :
    wp (cacheSet reg key val expires)
      (fun _ t => ∃ u d, Later s u ∧ t.trace = u.trace ∧ t.vars.tracker = u.vars.tracker ∧
        t.vars.cache = u.vars.cache.put key ⟨val, some d⟩) (fun _ _ => False) s := by
  rw [cacheSet, wp_bind]
  refine wp_post pause_spec fun _ u hu => ?_
  exact ⟨u, _, hu, rfl, rfl, rfl⟩

theorem trackerGet_spec (hlasting : ∀ e, s.vars.tracker key = some e → e.deadline = none) :
    wp (trackerGet reg key)
      (fun r t => Later s t ∧ r = (s.vars.tracker key).map Timed.value) (fun _ _ => False) s := by
  rw [trackerGet, wp_bind]
  refine wp_post pause_spec fun _ u hu => ?_
  have hlasting' : ∀ e, u.vars.tracker key = some e → e.deadline = none := by
    rw [hu.tracker]
    exact hlasting
  rw [wp_bind, wp_read, wp_bind, wp_assign, wp_pure, Expiring.find_lasting hlasting', hu.tracker]
  refine ⟨⟨hu.trace, ?_, hu.cache⟩, rfl⟩
  rw [setVars_vars]
  exact (Expiring.evict_lasting hlasting').trans hu.tracker

theorem trackerSet_spec {value : String} :
    wp (trackerSet reg key value 0)
      (fun _ t => ∃ u, Later s u ∧ t.trace = u.trace ∧ t.vars.cache = u.vars.cache ∧
        t.vars.tracker = u.vars.tracker.put key ⟨value, none⟩) (fun _ _ => False) s := by
  rw [trackerSet, wp_bind]
  refine wp_post pause_spec fun _ u hu => ?_
  exact ⟨u, hu, rfl, rfl, rfl⟩

end Accesses

/-! ## What the accesses keep -/

section Agrees

variable {reg : ApiRegistry U} {t : List Obs} {tracked : String → Option String} {s s' : Stores}
  {table version : String}

theorem Agrees.thin (h : Agrees reg t tracked s) (hcache : Expiring.Thins s.cache s'.cache)
    (htracker : s'.tracker = s.tracker) : Agrees reg t tracked s' where
  versions table ht := by
    rw [htracker]
    exact h.versions table ht
  cachedVersions table ht e he := h.cachedVersions table ht e (hcache _ _ he)
  cachedSchemas table version ht e he := h.cachedSchemas table version ht e (hcache _ _ he)
  stored table version ht e he := by
    rw [htracker] at he
    exact h.stored table version ht e he
  lasting key e he := by
    rw [htracker] at he
    exact h.lasting key e he

/-- An event that says nothing about versions. -/
theorem Agrees.note (h : Agrees reg t tracked s) {o : Obs}
    (ho : ∀ table known, noteVersion table known o = known) :
    Agrees reg (t ++ [o]) tracked s where
  versions := h.versions
  cachedVersions table ht e he := by
    rw [lastVersion_snoc, ho]
    exact h.cachedVersions table ht e he
  cachedSchemas table version ht e he := by
    obtain ⟨schema, hvalue, hsupplied⟩ := h.cachedSchemas table version ht e he
    exact ⟨schema, hvalue, hsupplied.append _⟩
  stored table version ht e he := List.mem_append_left _ (h.stored table version ht e he)
  lasting := h.lasting

/-- A version goes to the cache: it was just set, or it is the one that the trace knows. -/
theorem Agrees.cacheVersion {t' : List Obs} (h : Agrees reg t tracked s) (ht : Name table)
    (hcache : Expiring.Thins s.cache s'.cache) (htracker : s'.tracker = s.tracker) {d : Option Int}
    (hself : lastVersion table t' = some version)
    (hother : ∀ table', table' ≠ table → lastVersion table' t' = lastVersion table' t)
    (hsub : ∃ es, t' = t ++ es) :
    Agrees reg t' tracked
      { s' with cache := s'.cache.put (versionCacheKey table) ⟨.text version, d⟩ } where
  versions table' ht' := by
    show s'.tracker _ = _
    rw [htracker]
    exact h.versions table' ht'
  cachedVersions table' ht' e he := by
    rcases Expiring.put_eq_some he with ⟨hkey, rfl⟩ | ⟨hkey, he⟩
    · rw [versionCacheKey_inj ht' ht hkey]
      exact ⟨version, rfl, hself⟩
    · have hne : table' ≠ table := fun heq => hkey (heq ▸ rfl)
      rw [hother table' hne]
      exact h.cachedVersions table' ht' e (hcache _ _ he)
  cachedSchemas table' version' ht' e he := by
    rcases Expiring.put_eq_some he with ⟨hkey, _⟩ | ⟨_, he⟩
    · exact absurd hkey (schemaCacheKey_ne_versionCacheKey ht' ht)
    · obtain ⟨schema, hvalue, hsupplied⟩ := h.cachedSchemas table' version' ht' e (hcache _ _ he)
      obtain ⟨es, rfl⟩ := hsub
      exact ⟨schema, hvalue, hsupplied.append es⟩
  stored table' version' ht' e he := by
    obtain ⟨es, rfl⟩ := hsub
    have he' : s.tracker (schemaCacheKey table' version') = some e := htracker ▸ he
    exact List.mem_append_left _ (h.stored table' version' ht' e he')
  lasting key e he := h.lasting key e (htracker ▸ he)

theorem Agrees.cacheSchema (h : Agrees reg t tracked s) (ht : Name table) {schema : Schema}
    {d : Option Int} (hsupplied : Supplied reg t table version schema) :
    Agrees reg t tracked
      { s with cache := s.cache.put (schemaCacheKey table version) ⟨.schema schema, d⟩ } where
  versions := h.versions
  cachedVersions table' ht' e he := by
    rcases Expiring.put_eq_some he with ⟨hkey, _⟩ | ⟨_, he⟩
    · exact absurd hkey.symm (schemaCacheKey_ne_versionCacheKey ht ht')
    · exact h.cachedVersions table' ht' e he
  cachedSchemas table' version' ht' e he := by
    rcases Expiring.put_eq_some he with ⟨hkey, rfl⟩ | ⟨_, he⟩
    · obtain ⟨rfl, rfl⟩ := schemaCacheKey_inj ht' ht hkey
      exact ⟨schema, rfl, hsupplied⟩
    · exact h.cachedSchemas table' version' ht' e he
  stored := h.stored
  lasting := h.lasting

theorem Agrees.trackVersion (h : Agrees reg t tracked s) (ht : Name table) :
    Agrees reg t (Function.update tracked table (some version))
      { s with tracker := s.tracker.put (versionCacheKey table) ⟨version, none⟩ } where
  versions table' ht' := by
    by_cases htable : table' = table
    · subst htable
      rw [Function.update_self]
      exact Expiring.put_self
    · have hkey : versionCacheKey table' ≠ versionCacheKey table :=
        fun hkey => htable (versionCacheKey_inj ht' ht hkey)
      rw [Function.update_of_ne htable]
      exact (Expiring.put_of_ne hkey).trans (h.versions table' ht')
  cachedVersions := h.cachedVersions
  cachedSchemas := h.cachedSchemas
  stored table' version' ht' e he := by
    rcases Expiring.put_eq_some he with ⟨hkey, _⟩ | ⟨_, he⟩
    · exact absurd hkey (schemaCacheKey_ne_versionCacheKey ht' ht)
    · exact h.stored table' version' ht' e he
  lasting key e he := by
    rcases Expiring.put_eq_some he with ⟨_, rfl⟩ | ⟨_, he⟩
    · rfl
    · exact h.lasting key e he

theorem Agrees.trackSchema (h : Agrees reg t tracked s) (ht : Name table) {text : String}
    (hstored : .stored table version text ∈ t) :
    Agrees reg t tracked
      { s with tracker := s.tracker.put (schemaCacheKey table version) ⟨text, none⟩ } where
  versions table' ht' := by
    have hkey : versionCacheKey table' ≠ schemaCacheKey table version :=
      (schemaCacheKey_ne_versionCacheKey ht ht').symm
    exact (Expiring.put_of_ne hkey).trans (h.versions table' ht')
  cachedVersions := h.cachedVersions
  cachedSchemas := h.cachedSchemas
  stored table' version' ht' e he := by
    rcases Expiring.put_eq_some he with ⟨hkey, rfl⟩ | ⟨_, he⟩
    · obtain ⟨rfl, rfl⟩ := schemaCacheKey_inj ht' ht hkey
      exact hstored
    · exact h.stored table' version' ht' e he
  lasting key e he := by
    rcases Expiring.put_eq_some he with ⟨_, rfl⟩ | ⟨_, he⟩
    · rfl
    · exact h.lasting key e he

end Agrees

/-! ## The calls -/

section Calls

variable {reg : ApiRegistry U} {s : State U} {table version : String}

theorem Coherent.later {t : State U} (h : Coherent reg s) (hlater : Later s t) : Coherent reg t := by
  rw [Coherent, hlater.trace]
  exact h.thin hlater.cache hlater.tracker

theorem storeSchema_spec (htracker : reg.hasTracker = true) {tracked : String → Option String}
    (hs : Agrees reg s.trace tracked s.vars) (ht : Name table) {schema : Schema} :
    wp (storeSchema reg table version schema)
      (fun _ u => u.trace = s.trace ++ [.stored table version (reg.stringify schema)] ∧
        Agrees reg u.trace tracked u.vars ∧ Expiring.Thins s.vars.cache u.vars.cache)
      (fun _ _ => False) s := by
  have hnoted : Agrees reg (s.trace ++ [.stored table version (reg.stringify schema)]) tracked
      s.vars := hs.note fun _ _ => rfl
  rw [storeSchema, if_pos htracker, wp_bind, wp_note]
  refine wp_post trackerSet_spec fun _ t ht' => ?_
  obtain ⟨u, hlater, htrace, hcache, hput⟩ := ht'
  have htrace' : t.trace = s.trace ++ [.stored table version (reg.stringify schema)] := by
    rw [htrace, hlater.trace, push_trace]
  have hkept := (hnoted.thin hlater.cache hlater.tracker).trackSchema ht
    (List.mem_append_right _ (List.mem_singleton_self _))
  refine ⟨htrace', ?_, ?_⟩
  · rw [htrace']
    refine hkept.thin ?_ hput
    rw [hcache]
    exact Expiring.Thins.refl _
  · rw [hcache]
    exact hlater.cache

theorem storeVersion_spec (htracker : reg.hasTracker = true) {tracked : String → Option String}
    (hs : Agrees reg s.trace tracked s.vars) (ht : Name table) :
    wp (storeVersion reg table version)
      (fun _ u => u.trace = s.trace ∧
        Agrees reg u.trace (Function.update tracked table (some version)) u.vars ∧
        Expiring.Thins s.vars.cache u.vars.cache)
      (fun _ _ => False) s := by
  rw [storeVersion, if_pos htracker]
  refine wp_post trackerSet_spec fun _ t ht' => ?_
  obtain ⟨u, hlater, htrace, hcache, hput⟩ := ht'
  have htrace' : t.trace = s.trace := htrace.trans hlater.trace
  have hkept : Agrees reg s.trace (Function.update tracked table (some version))
      { u.vars with tracker := u.vars.tracker.put (versionCacheKey table) ⟨version, none⟩ } :=
    (hs.thin hlater.cache hlater.tracker).trackVersion ht
  refine ⟨htrace', ?_, ?_⟩
  · rw [htrace']
    refine hkept.thin ?_ hput
    rw [hcache]
    exact Expiring.Thins.refl _
  · rw [hcache]
    exact hlater.cache

/-- What `get_table_version` returns for a version that is known, or not. -/
def answer : Option String → Bool × Object
  | some version => (true, .text version)
  | none => (false, .text "")

theorem getTableVersion_spec (htracker : reg.hasTracker = true) (hs : Coherent reg s)
    (ht : Name table) :
    wp (getTableVersion reg table)
      (fun r u => u.trace = s.trace ∧ Coherent reg u ∧ r = answer (lastVersion table s.trace))
      (fun _ _ => False) s := by
  rw [getTableVersion, wp_bind]
  refine wp_post cacheGet_spec fun found u hu => ?_
  obtain ⟨hlater, hfound⟩ := hu
  cases found with
  | some val =>
    obtain ⟨e, he, hvalue⟩ := hfound val rfl
    obtain ⟨v, hv, hlast⟩ := hs.cachedVersions table ht e he
    refine ⟨hlater.trace, hs.later hlater, ?_⟩
    rw [hlast, ← hvalue, hv]
    rfl
  | none =>
    have hu : Coherent reg u := hs.later hlater
    rw [wp_bind, lookupTracker, if_pos htracker]
    refine wp_post (trackerGet_spec fun e he => hu.lasting _ e he) fun stored v hv => ?_
    obtain ⟨hlater', hstored⟩ := hv
    have hv : Coherent reg v := hu.later hlater'
    have htrace : v.trace = s.trace := hlater'.trace.trans hlater.trace
    have hlast : stored = lastVersion table s.trace := by
      rw [hstored, hu.versions table ht, Option.map_map, hlater.trace]
      exact congrFun Option.map_id _
    cases stored with
    | none =>
      refine ⟨htrace, hv, ?_⟩
      rw [← hlast]
      rfl
    | some version =>
      rw [wp_bind]
      refine wp_post cacheSet_spec fun _ x hx => ?_
      obtain ⟨y, d, hlater'', hxtrace, hxtracker, hxcache⟩ := hx
      have htrace' : x.trace = v.trace := hxtrace.trans hlater''.trace
      rw [wp_pure, ← hlast]
      refine ⟨htrace'.trans htrace, ?_, rfl⟩
      rw [Coherent, htrace']
      have hkept : Agrees reg v.trace (fun table => lastVersion table v.trace)
          { y.vars with
            cache := y.vars.cache.put (versionCacheKey table) ⟨.text version, some d⟩ } :=
        hv.cacheVersion ht hlater''.cache hlater''.tracker (by rw [htrace, ← hlast])
          (fun _ _ => rfl) ⟨[], (List.append_nil _).symm⟩
      refine hkept.thin ?_ hxtracker
      rw [hxcache]
      exact Expiring.Thins.refl _

theorem setTableVersion_spec (htracker : reg.hasTracker = true) (hs : Coherent reg s)
    (ht : Name table) :
    wp (setTableVersion reg table version)
      (fun _ u => u.trace = s.trace ++ [.versionSet table version] ∧ Coherent reg u)
      (fun _ _ => False) s := by
  have hself : lastVersion table (s.trace ++ [.versionSet table version]) = some version := by
    rw [lastVersion_snoc]
    exact if_pos rfl
  have hother : ∀ table', table' ≠ table →
      lastVersion table' (s.trace ++ [.versionSet table version]) = lastVersion table' s.trace := by
    intro table' hne
    rw [lastVersion_snoc]
    exact if_neg fun heq => hne heq.symm
  rw [setTableVersion, wp_bind, wp_note, wp_bind]
  refine wp_post cacheSet_spec fun _ u hu => ?_
  obtain ⟨v, d, hlater, htrace, htracker', hcache⟩ := hu
  have htrace' : u.trace = s.trace ++ [.versionSet table version] := by
    rw [htrace, hlater.trace, push_trace]
  have hkept : Agrees reg (s.trace ++ [.versionSet table version])
      (fun table => lastVersion table s.trace)
      { v.vars with cache := v.vars.cache.put (versionCacheKey table) ⟨.text version, some d⟩ } :=
    hs.cacheVersion ht hlater.cache hlater.tracker hself hother ⟨_, rfl⟩
  have hcached : Agrees reg u.trace (fun table => lastVersion table s.trace) u.vars := by
    rw [htrace']
    refine hkept.thin ?_ htracker'
    rw [hcache]
    exact Expiring.Thins.refl _
  refine wp_post (storeVersion_spec htracker hcached ht) fun _ x hx => ?_
  refine ⟨hx.1.trans htrace', ?_⟩
  have htracked : Function.update (fun table => lastVersion table s.trace) table (some version) =
      fun table => lastVersion table x.trace := by
    funext table'
    rw [hx.1, htrace']
    by_cases htable : table' = table
    · subst htable
      rw [Function.update_self, hself]
    · rw [Function.update_of_ne htable, hother table' htable]
  rw [Coherent, ← htracked]
  exact hx.2.1

/-- A schema that was supplied goes to the cache. -/
theorem cacheSchema_spec {tracked : String → Option String} {schema : Schema} {expires : Int}
    (hs : Agrees reg s.trace tracked s.vars) (ht : Name table)
    (hsupplied : Supplied reg s.trace table version schema) :
    wp (cacheSet reg (schemaCacheKey table version) (.schema schema) expires)
      (fun _ u => u.trace = s.trace ∧ Agrees reg u.trace tracked u.vars ∧
        ∀ table', Name table' → s.vars.cache (versionCacheKey table') = none →
          u.vars.cache (versionCacheKey table') = none)
      (fun _ _ => False) s := by
  refine wp_post cacheSet_spec fun _ u hu => ?_
  obtain ⟨v, d, hlater, htrace, htracker, hcache⟩ := hu
  have htrace' : u.trace = s.trace := htrace.trans hlater.trace
  have hkept : Agrees reg s.trace tracked
      { v.vars with
        cache := v.vars.cache.put (schemaCacheKey table version) ⟨.schema schema, some d⟩ } :=
    (hs.thin hlater.cache hlater.tracker).cacheSchema ht hsupplied
  refine ⟨htrace', ?_, fun table' ht' hnone => ?_⟩
  · rw [htrace']
    refine hkept.thin ?_ htracker
    rw [hcache]
    exact Expiring.Thins.refl _
  · have hkey : versionCacheKey table' ≠ schemaCacheKey table version :=
      (schemaCacheKey_ne_versionCacheKey ht ht').symm
    rw [hcache, Expiring.put_of_ne hkey]
    cases hentry : v.vars.cache (versionCacheKey table') with
    | none => rfl
    | some e =>
      rw [hlater.cache _ _ hentry] at hnone
      cases hnone

/-- The trace has grown, by nothing about versions. -/
structure Grown (s u : State U) : Prop where
  trace : ∃ es, u.trace = s.trace ++ es
  versions : ∀ table, lastVersion table u.trace = lastVersion table s.trace

theorem Grown.of_trace_eq {u : State U} (h : u.trace = s.trace) : Grown s u :=
  ⟨⟨[], by rw [h, List.append_nil]⟩, fun _ => by rw [h]⟩

theorem Grown.of_snoc {u : State U} {o : Obs} (h : u.trace = s.trace ++ [o])
    (ho : ∀ table known, noteVersion table known o = known) : Grown s u :=
  ⟨⟨[o], h⟩, fun table => by rw [h, lastVersion_snoc, ho]⟩

theorem Grown.trans {t u : State U} (h : Grown s t) (h' : Grown t u) : Grown s u where
  trace := by
    obtain ⟨es, hes⟩ := h.trace
    obtain ⟨es', hes'⟩ := h'.trace
    exact ⟨es ++ es', by rw [hes', hes, List.append_assoc]⟩
  versions table := (h'.versions table).trans (h.versions table)

theorem Grown.coherent {u : State U} (h : Grown s u)
    (hu : Agrees reg u.trace (fun table => lastVersion table s.trace) u.vars) : Coherent reg u := by
  rw [Coherent, funext h.versions]
  exact hu

/-- How a call of `get_schema` ends, or raises. -/
def Fetches (reg : ApiRegistry U) (s : State U) (table version : String) (obj : Object)
    (u : State U) : Prop :=
  Grown s u ∧ Coherent reg u ∧
    ∃ schema, obj = .schema schema ∧ Supplied reg u.trace table version schema

theorem fetchSchema_spec (htracker : reg.hasTracker = true) (hs : Coherent reg s) (ht : Name table) :
    wp (fetchSchema reg table version) (Fetches reg s table version)
      (fun _ u => Grown s u ∧ Coherent reg u) s := by
  rw [fetchSchema, wp_bind]
  refine wp_tryExcept (wp_outside (fun response w _ => ?_) (fun e w _ => ?_))
  · obtain ⟨status, body⟩ := response
    dsimp only
    split
    · exact ⟨Grown.of_trace_eq rfl, hs⟩
    · rw [wp_bind, wp_note]
      let s₁ : State U := (s.inWorld w).push (.fetched table version body)
      have hgrown₁ : Grown s s₁ := Grown.of_snoc rfl fun _ _ => rfl
      have hs₁ : Agrees reg s₁.trace (fun table => lastVersion table s.trace) s₁.vars :=
        hs.note fun _ _ => rfl
      cases hdecode : decodeSchema reg body table version with
      | error e => exact ⟨hgrown₁, hgrown₁.coherent hs₁⟩
      | ok schema =>
        have hsupplied : Supplied reg s₁.trace table version schema :=
          Or.inr ⟨body, Or.inr (List.mem_append_right _ (List.mem_singleton_self _)), hdecode⟩
        rw [wp_bind, wp_ofExcept_ok, wp_bind]
        refine wp_mono (cacheSchema_spec hs₁ ht hsupplied) (fun _ s₂ h₂ => ?_) (fun _ _ h => h.elim)
        rw [wp_bind]
        refine wp_mono (storeSchema_spec htracker h₂.2.1 ht) (fun _ s₃ h₃ => ?_)
          (fun _ _ h => h.elim)
        have hgrown₃ : Grown s s₃ := (hgrown₁.trans (Grown.of_trace_eq h₂.1)).trans
          (Grown.of_snoc h₃.1 fun _ _ => rfl)
        refine ⟨hgrown₃, hgrown₃.coherent h₃.2.1, schema, rfl, ?_⟩
        rw [h₃.1, h₂.1]
        exact hsupplied.append _
  · exact ⟨fun _ => ⟨Grown.of_trace_eq rfl, hs⟩, fun _ => ⟨Grown.of_trace_eq rfl, hs⟩⟩

theorem getSchema_spec (htracker : reg.hasTracker = true) (hs : Coherent reg s) (ht : Name table) :
    wp (getSchema reg table version) (Fetches reg s table version)
      (fun _ u => Grown s u ∧ Coherent reg u) s := by
  rw [getSchema, wp_bind]
  refine wp_mono cacheGet_spec (fun found u hu => ?_) (fun _ _ h => h.elim)
  obtain ⟨hlater, hfound⟩ := hu
  have hu : Coherent reg u := hs.later hlater
  have hgrown : Grown s u := Grown.of_trace_eq hlater.trace
  cases found with
  | some val =>
    obtain ⟨e, he, hvalue⟩ := hfound val rfl
    obtain ⟨schema, hschema, hsupplied⟩ := hs.cachedSchemas table version ht e he
    refine ⟨hgrown, hu, schema, hvalue.symm.trans hschema, ?_⟩
    rw [hlater.trace]
    exact hsupplied
  | none =>
    rw [wp_bind, lookupTracker, if_pos htracker]
    refine wp_mono (trackerGet_spec fun e he => hu.lasting _ e he) (fun stored v hv => ?_)
      (fun _ _ h => h.elim)
    obtain ⟨hlater', hstored⟩ := hv
    have hv : Coherent reg v := hu.later hlater'
    have hgrown' : Grown s v := hgrown.trans (Grown.of_trace_eq hlater'.trace)
    cases stored with
    | none =>
      refine wp_mono (fetchSchema_spec htracker hv ht) (fun _ x hx => ?_) (fun _ x hx => ?_)
      · exact ⟨hgrown'.trans hx.1, hx.2⟩
      · exact ⟨hgrown'.trans hx.1, hx.2⟩
    | some text =>
      dsimp only
      cases hdecode : decodeSchema reg text table version with
      | error e => exact ⟨hgrown', hv⟩
      | ok schema =>
        obtain ⟨e, he, hvalue⟩ := Option.map_eq_some_iff.mp hstored.symm
        have hmem : .stored table version text ∈ v.trace := by
          rw [hlater'.trace, ← hvalue]
          exact hu.stored table version ht e he
        have hsupplied : Supplied reg v.trace table version schema :=
          Or.inr ⟨text, Or.inl hmem, hdecode⟩
        rw [wp_bind, wp_ofExcept_ok, wp_bind]
        refine wp_mono (cacheSchema_spec hv ht hsupplied) (fun _ x hx => ?_) (fun _ _ h => h.elim)
        have hgrown'' : Grown v x := Grown.of_trace_eq hx.1
        refine ⟨hgrown'.trans hgrown'', hgrown''.coherent hx.2.1, schema, rfl, ?_⟩
        rw [hx.1]
        exact hsupplied

/-- While the registry is opened the cache holds no version. -/
def Unversioned (s : State U) : Prop :=
  ∀ table, Name table → s.vars.cache (versionCacheKey table) = none

theorem seed_spec (htracker : reg.hasTracker = true) {schema : Schema} (hs : Coherent reg s)
    (hunversioned : Unversioned s) (ht : Name schema.table) :
    wp (seed reg schema) (fun _ u => Coherent reg u ∧ Unversioned u) (fun _ _ => False) s := by
  let s₁ : State U := s.push (.seeded schema)
  have hself : lastVersion schema.table s₁.trace = some schema.modelVersion := by
    rw [push_trace, lastVersion_snoc]
    exact if_pos rfl
  have hother : ∀ table, table ≠ schema.table →
      lastVersion table s₁.trace = lastVersion table s.trace := by
    intro table hne
    rw [push_trace, lastVersion_snoc]
    exact if_neg fun heq => hne heq.symm
  -- The trace runs ahead of the tracker until the version is stored.
  have hs₁ : Agrees reg s₁.trace (fun table => lastVersion table s.trace) s₁.vars := by
    refine ⟨hs.versions, fun table ht' e he => ?_, fun table version ht' e he => ?_,
      fun table version ht' e he => ?_, hs.lasting⟩
    · rw [push_vars, hunversioned table ht'] at he
      cases he
    · obtain ⟨schema', hvalue, hsupplied⟩ := hs.cachedSchemas table version ht' e he
      exact ⟨schema', hvalue, hsupplied.append _⟩
    · exact List.mem_append_left _ (hs.stored table version ht' e he)
  rw [seed, wp_bind, wp_note, wp_bind]
  refine wp_post (storeSchema_spec htracker hs₁ ht) fun _ s₂ h₂ => ?_
  rw [wp_bind]
  refine wp_post (storeVersion_spec htracker h₂.2.1 ht) fun _ s₃ h₃ => ?_
  have htrace : s₃.trace = s₁.trace ++ [.stored schema.table schema.modelVersion
      (reg.stringify schema)] := h₃.1.trans h₂.1
  have hgrown : Grown s₁ s₃ := Grown.of_snoc htrace fun _ _ => rfl
  have hsupplied : Supplied reg s₃.trace schema.table schema.modelVersion schema := by
    refine Or.inl ⟨?_, rfl, rfl⟩
    rw [htrace]
    exact List.mem_append_left _ (List.mem_append_right _ (List.mem_singleton_self _))
  refine wp_post (cacheSchema_spec h₃.2.1 ht hsupplied) fun _ u hu => ⟨?_, fun table ht' => ?_⟩
  · have htracked : Function.update (fun table => lastVersion table s.trace) schema.table
        (some schema.modelVersion) = fun table => lastVersion table u.trace := by
      funext table
      rw [hu.1, hgrown.versions]
      by_cases htable : table = schema.table
      · rw [htable, Function.update_self, hself]
      · rw [Function.update_of_ne htable, hother table htable]
    rw [Coherent, ← htracked]
    exact hu.2.1
  · refine hu.2.2 table ht' ?_
    cases hentry : s₃.vars.cache (versionCacheKey table) with
    | none => rfl
    | some e =>
      have hfirst : s.vars.cache (versionCacheKey table) = some e :=
        h₂.2.2 _ _ (h₃.2.2 _ _ hentry)
      rw [hunversioned table ht'] at hfirst
      cases hfirst

theorem openRegistry_spec (htracker : reg.hasTracker = true) (hs : Coherent reg s)
    (hnames : ∀ entry ∈ reg.schema.items, Name entry.2.table) :
    wp (openRegistry reg) (fun _ u => Coherent reg u) (fun _ _ => False) s := by
  rw [openRegistry, wp_bind, wp_assign]
  have hempty : Coherent reg (s.setVars fun s => { s with cache := Expiring.empty }) :=
    hs.thin (fun _ _ h => by cases h) rfl
  refine wp_post (wp_each (fun rest u => (∀ schema ∈ rest, Name schema.table) ∧ Coherent reg u ∧
    Unversioned u) (fun schema rest u hu => ?_) _ _ ⟨fun schema hschema => ?_, hempty, fun _ _ => rfl⟩)
    fun _ _ h => h.2.1
  · refine wp_post (seed_spec htracker hu.2.1 hu.2.2 (hu.1 schema List.mem_cons_self)) fun _ v hv => ?_
    exact ⟨fun schema' h => hu.1 schema' (List.mem_cons_of_mem _ h), hv⟩
  · obtain ⟨entry, hentry, rfl⟩ := List.mem_map.mp hschema
    exact hnames entry hentry

end Calls

/-! ## Any sequence of calls -/

/-- `pause` lets time pass and the sweeper run between two calls. -/
inductive Op where
  | openRegistry
  | setTableVersion (table version : String)
  | getTableVersion (table : String)
  | getSchema (table version : String)
  | pause

/-- The state after a call, whether it returned or raised. -/
def Op.run (reg : ApiRegistry U) (s : State U) : Op → State U
  | openRegistry => (Registry.openRegistry reg s).2
  | setTableVersion table version => (Registry.setTableVersion reg table version s).2
  | getTableVersion table => (Registry.getTableVersion reg table s).2
  | getSchema table version => (Registry.getSchema reg table version s).2
  | pause => (Registry.pause reg s).2

/-- The call is about named tables only. -/
def Op.Named (reg : ApiRegistry U) : Op → Prop
  | openRegistry => ∀ entry ∈ reg.schema.items, Name entry.2.table
  | setTableVersion table _ => Name table
  | getTableVersion table => Name table
  | getSchema table _ => Name table
  | pause => True

def runOps (reg : ApiRegistry U) (ops : List Op) (s : State U) : State U := ops.foldl (Op.run reg) s

/-- An empty tracker, at any time. -/
def start (u : U) (monotonic wall : Int) : State U :=
  ⟨⟨Expiring.empty, Expiring.empty, monotonic, wall⟩, u, []⟩

section Runs

variable {reg : ApiRegistry U} {s : State U}

theorem start_coherent (u : U) (monotonic wall : Int) : Coherent reg (start u monotonic wall) where
  versions _ _ := rfl
  cachedVersions _ _ _ h := by cases h
  cachedSchemas _ _ _ _ h := by cases h
  stored _ _ _ _ h := by cases h
  lasting _ _ h := by cases h

theorem Op.run_coherent (htracker : reg.hasTracker = true) (hs : Coherent reg s) {op : Op}
    (hop : op.Named reg) : Coherent reg (op.run reg s) := by
  cases op with
  | openRegistry =>
    exact wp_state (wp_mono (openRegistry_spec htracker hs hop) (fun _ _ h => h) fun _ _ h => h.elim)
  | setTableVersion table version =>
    exact wp_state (wp_mono (setTableVersion_spec htracker hs hop) (fun _ _ h => h.2)
      fun _ _ h => h.elim)
  | getTableVersion table =>
    exact wp_state (wp_mono (getTableVersion_spec htracker hs hop) (fun _ _ h => h.2.1)
      fun _ _ h => h.elim)
  | getSchema table version =>
    exact wp_state (wp_mono (getSchema_spec htracker hs hop) (fun _ _ h => h.2.1) fun _ _ h => h.2)
  | pause =>
    exact wp_state (wp_mono pause_spec (fun _ _ h => hs.later h) fun _ _ h => h.elim)

/-- By induction on the calls. -/
theorem runOps_coherent (htracker : reg.hasTracker = true) {ops : List Op}
    (hops : ∀ op ∈ ops, op.Named reg) (hs : Coherent reg s) : Coherent reg (runOps reg ops s) := by
  induction ops generalizing s with
  | nil => exact hs
  | cons op rest ih =>
    have hfirst := Op.run_coherent htracker hs (hops op List.mem_cons_self)
    exact ih (fun op' h => hops op' (List.mem_cons_of_mem _ h)) hfirst

end Runs

/-- After any calls, with any pauses before and inside of them, the version of a table is the
one set last, a schema is one supplied for the table and the version asked for, and no
two keys collide. -/
theorem registry_answers_last_set (reg : ApiRegistry U) (htracker : reg.hasTracker = true)
    (ops : List Op) (hops : ∀ op ∈ ops, op.Named reg) (u : U) (monotonic wall : Int) :
    let s := runOps reg ops (start u monotonic wall)
    (∀ table, Name table → (getTableVersion reg table s).1 = .ok (answer (lastVersion table s.trace))) ∧
    (∀ table version, Name table → ∀ obj, (getSchema reg table version s).1 = .ok obj →
      ∃ schema, obj = .schema schema ∧
        Supplied reg (getSchema reg table version s).2.trace table version schema) ∧
    ∀ table table', Name table → Name table' →
      (∀ version version', schemaCacheKey table version = schemaCacheKey table' version' →
        table = table' ∧ version = version') ∧
      (versionCacheKey table = versionCacheKey table' → table = table') ∧
      ∀ version, schemaCacheKey table version ≠ versionCacheKey table' := by
  intro s
  have hs : Coherent reg s := runOps_coherent htracker hops (start_coherent u monotonic wall)
  refine ⟨fun table ht => ?_, fun table version ht obj hobj => ?_, fun table table' ht ht' => ?_⟩
  · rcases wp_elim (getTableVersion_spec htracker hs ht) with ⟨r, hr, h⟩ | ⟨_, _, h⟩
    · rw [hr, h.2.2]
    · exact h.elim
  · rcases wp_elim (getSchema_spec htracker hs ht) with ⟨r, hr, h⟩ | ⟨e, he, _⟩
    · rw [hr] at hobj
      rw [← Except.ok.inj hobj]
      exact h.2.2
    · rw [he] at hobj
      cases hobj
  · exact ⟨fun _ _ => schemaCacheKey_inj ht ht', versionCacheKey_inj ht ht',
      fun _ => schemaCacheKey_ne_versionCacheKey ht ht'⟩

/-! ## One table -/

def orderSchema : Schema where
  properties := ⟨[("id", ⟨"string", "", false, none⟩), ("name", ⟨"string", "", false, none⟩)], by decide⟩
  primaryKeys := ["id"]
  table := "order"
  modelVersion := "v1"

def orderText : String :=
  "\x7b\"properties\":\x7b\"id\":\x7b\"type\":\"string\"\x7d,\"name\":\x7b\"type\":\"string\"\x7d\x7d," ++
    "\"required\":[],\"primaryKeys\":[\"id\"],\"table\":\"order\",\"modelVersion\":\"v1\"\x7d"

/-- The registry of one table; an hour passes before each access, with a sweep. -/
def orderRegistry : ApiRegistry Unit where
  apiUrl := "https://api"
  hasTracker := true
  schema := ⟨[("order", orderSchema)], by decide⟩
  objects := ⟨[("order", "Order")], by decide⟩
  request _ := pure (404, "not found")
  loads text := if text = orderText then .ok (.dict (.ok orderSchema)) else .error "Expecting value"
  stringify s := if s = orderSchema then orderText else ""
  elapse u := (⟨3600 * 1000000000, 0, true⟩, u)

/-- The version that was set is still there when a day has gone by. -/
theorem registry_answers_last_set_order :
    let ops := .openRegistry :: .setTableVersion "order" "v2" :: List.replicate 30 .pause
    orderRegistry.hasTracker = true ∧ (∀ op ∈ ops, op.Named orderRegistry) ∧
      (getTableVersion orderRegistry "order" (runOps orderRegistry ops (start () 0 0))).1 =
        .ok (true, .text "v2") := by
  intro ops
  have hnamed : ∀ op ∈ ops, op.Named orderRegistry := by
    intro op hop
    rcases List.mem_cons.mp hop with rfl | hop
    · intro entry hentry
      rw [List.mem_singleton.mp hentry]
      decide
    · rcases List.mem_cons.mp hop with rfl | hop
      · show Name "order"
        decide
      · rw [List.eq_of_mem_replicate hop]
        exact trivial
  have hanswer := (registry_answers_last_set orderRegistry rfl ops hnamed () 0 0).1 "order" (by decide)
  have hlast : lastVersion "order" (runOps orderRegistry ops (start () 0 0)).trace = some "v2" := by
    decide +kernel
  refine ⟨rfl, hnamed, ?_⟩
  rw [hanswer, hlast]
  rfl

end Registry
end Eds
