import Eds.Registry.Coherence

/-!
# A registry by its laws

What the consumer and the drivers need of a registry: it keeps one version for each
table, it changes that version only when it is told to, and it gives the schema of a
table at a version, which is a schema of that table.  Every call may raise instead.

The API registry has these properties for tables with a name, when the API answers
each table and version with one schema.
-/

namespace Eds
namespace Registry

open Effects Effects.Prog Effects.Traced Collections

variable {R U : Type}

/-- The table and the version come out of an event, and need not be strings. -/
structure RegistryOps (R : Type) where
  getTableVersion : Json → Prog Exn R (Bool × String)
  getSchema : Json → Json → Prog Exn R Schema
  setTableVersion : Json → Json → Prog Exn R Unit

/-- `inv` holds between the calls, `version` is what the registry knows of a table, and
`catalog` has the schemas.  Only the tables that are `named` are told apart. -/
structure Laws (R : Type) where
  named : String → Prop
  catalog : String → String → Schema
  inv : R → Prop
  version : R → String → Option String

/-- The registry knows the same versions as before. -/
def Laws.Steady (laws : Laws R) (r r' : R) : Prop := laws.inv r' ∧ laws.version r' = laws.version r

def Laws.Accepts (laws : Laws R) (table : Json) : Prop := ∀ name, table = .str name → laws.named name

/-- What `get_table_version` returns for a version that is known, or not. -/
def found : Option String → Bool × String
  | some version => (true, version)
  | none => (false, "")

structure Lawful (ops : RegistryOps R) (laws : Laws R) : Prop where
  table : ∀ name version, (laws.catalog name version).table = name
  getTableVersion : ∀ table r, laws.Accepts table → laws.inv r →
    wp (ops.getTableVersion table)
      (fun a r' => laws.Steady r r' ∧ ∃ name, table = .str name ∧ a = found (laws.version r name))
      (fun _ r' => laws.Steady r r') r
  getSchema : ∀ table version r, laws.Accepts table → laws.inv r →
    wp (ops.getSchema table version)
      (fun schema r' => laws.Steady r r' ∧ ∃ name v, table = .str name ∧ version = .str v ∧
        schema = laws.catalog name v)
      (fun _ r' => laws.Steady r r') r
  setTableVersion : ∀ name v r, laws.named name → laws.inv r →
    wp (ops.setTableVersion (.str name) (.str v))
      (fun _ r' => laws.inv r' ∧ laws.version r' = Function.update (laws.version r) name (some v))
      (fun _ r' => laws.inv r' ∧ (laws.version r' = laws.version r ∨
        laws.version r' = Function.update (laws.version r) name (some v))) r

theorem Laws.Steady.trans {laws : Laws R} {r r' r'' : R} (h : laws.Steady r r')
    (h' : laws.Steady r' r'') : laws.Steady r r'' := ⟨h'.1, h'.2.trans h.2⟩

/-! ## The API registry -/

/-- A key is put together with `+`, which takes strings only. -/
def keyText : Json → Except Exn String
  | .str s => .ok s
  | _ => .error (.exception "can only concatenate str to str")

/-- An object of the other kind under a key does not occur for tables with a name. -/
def wrongObject : Exn := .exception "not a version"

def asVersion : Bool × Object → Except Exn (Bool × String)
  | (found, .text version) => .ok (found, version)
  | (_, .schema _) => .error wrongObject

def asSchema : Object → Except Exn Schema
  | .schema schema => .ok schema
  | .text _ => .error wrongObject

def apiOps (reg : ApiRegistry U) : RegistryOps (State U) where
  getTableVersion table := do
    let name ← ofExcept (keyText table)
    let answer ← Registry.getTableVersion reg name
    ofExcept (asVersion answer)
  getSchema table version := do
    let name ← ofExcept (keyText table)
    let v ← ofExcept (keyText version)
    let obj ← Registry.getSchema reg name v
    ofExcept (asSchema obj)
  setTableVersion table version := do
    let name ← ofExcept (keyText table)
    let v ← ofExcept (keyText version)
    Registry.setTableVersion reg name v

section Api

variable (reg : ApiRegistry U) (catalog : String → String → Schema)

/-- The text can only be read as the schema of the table at the version. -/
def Describes (table version text : String) : Prop :=
  ∀ schema, decodeSchema reg text table version = .ok schema → schema = catalog table version

def Obs.Faithful : Obs → Prop
  | .seeded schema => schema = catalog schema.table schema.modelVersion
  | .stored table version text | .fetched table version text => Describes reg catalog table version text
  | .versionSet _ _ => True

/-- The API answers a table and a version with one schema, which names the table, and the JSON
of a schema is read back as that schema. -/
structure Catalogued : Prop where
  table : ∀ name version, (catalog name version).table = name
  answers : ∀ table version u u' body, Name table →
    reg.request (reg.apiUrl ++ "/v3/schema/" ++ objectName reg table ++ "/" ++ version) u =
      (.ok (200, body), u') → Describes reg catalog table version body
  readsBack : ∀ table version,
    Describes reg catalog table version (reg.stringify (catalog table version))

def apiLaws : Laws (State U) where
  named := Name
  catalog := catalog
  inv s := Coherent reg s ∧ ∀ o ∈ s.trace, o.Faithful reg catalog
  version s table := lastVersion table s.trace

end Api

section Proofs

variable {reg : ApiRegistry U} {catalog : String → String → Schema} {s : State U}
  {table version key : String} {P : Obs → Prop}

theorem Supplied.eq_catalog {t : List Obs} (ht : ∀ o ∈ t, o.Faithful reg catalog) {schema : Schema}
    (h : Supplied reg t table version schema) : schema = catalog table version := by
  rcases h with ⟨hseed, rfl, rfl⟩ | ⟨text, hfrom | hfrom, hdecode⟩
  · exact ht _ hseed
  · exact ht _ hfrom schema hdecode
  · exact ht _ hfrom schema hdecode

theorem pause_adds : Within (Adds P) (pause reg) :=
  (adds_outside _).bind (fun _ s => Adds.refl s) Adds.trans

theorem cacheGet_adds : Within (Adds P) (cacheGet reg key) := by
  refine pause_adds.bind (fun _ => ?_) Adds.trans
  exact fun s => Adds.refl s

theorem cacheSet_adds {val : Object} {expires : Int} :
    Within (Adds P) (cacheSet reg key val expires) :=
  pause_adds.bind (fun _ s => Adds.refl s) Adds.trans

theorem lookupTracker_adds : Within (Adds P) (lookupTracker reg key) := by
  unfold lookupTracker
  split
  · refine pause_adds.bind (fun _ => ?_) Adds.trans
    exact fun s => Adds.refl s
  · exact within_pure Adds.refl none

theorem storeSchema_adds {schema : Schema} (h : P (.stored table version (reg.stringify schema))) :
    Within (Adds P) (storeSchema reg table version schema) := by
  unfold storeSchema
  split
  · refine (adds_note h).bind (fun _ => ?_) Adds.trans
    exact pause_adds.bind (fun _ s => Adds.refl s) Adds.trans
  · exact within_pure Adds.refl ()

theorem fetchSchema_adds (hcat : Catalogued reg catalog) (ht : Name table) :
    Within (Adds (Obs.Faithful reg catalog)) (fetchSchema reg table version) := by
  intro s
  refine wp_state (I := Adds (Obs.Faithful reg catalog) s) ?_
  rw [fetchSchema, wp_bind]
  refine wp_tryExcept (wp_outside (fun response w hw => ?_) (fun e w _ => ?_))
  · obtain ⟨status, body⟩ := response
    dsimp only
    split
    · exact Adds.refl s
    · next hstatus =>
      have hok : status = 200 := not_not.mp hstatus
      subst hok
      have hbody : Describes reg catalog table version body := hcat.answers _ _ _ _ _ ht hw
      rw [wp_bind]
      have hnoted : Adds (Obs.Faithful reg catalog) s
          ((s.inWorld w).push (.fetched table version body)) := Adds.one rfl hbody
      rw [wp_note, wp_bind]
      cases hdecode : decodeSchema reg body table version with
      | error e => exact hnoted
      | ok schema =>
        have hschema := hbody schema hdecode
        rw [wp_ofExcept_ok, wp_bind]
        refine wp_mono (cacheSet_adds.wp _) (fun _ t ht => ?_) (fun _ _ ht => hnoted.trans ht)
        have hstore : Obs.Faithful reg catalog (.stored table version (reg.stringify schema)) := by
          rw [hschema]
          exact hcat.readsBack table version
        rw [wp_bind]
        refine wp_mono ((storeSchema_adds hstore).wp t) (fun _ u hu => ?_) (fun _ u hu => ?_)
        · exact (hnoted.trans ht).trans hu
        · exact (hnoted.trans ht).trans hu
  · exact ⟨fun _ => Adds.refl s, fun _ => Adds.refl s⟩

theorem getSchema_adds (hcat : Catalogued reg catalog) (ht : Name table) :
    Within (Adds (Obs.Faithful reg catalog)) (getSchema reg table version) := by
  refine cacheGet_adds.bind (fun cached => ?_) Adds.trans
  cases cached with
  | some val => exact within_pure Adds.refl val
  | none =>
    refine lookupTracker_adds.bind (fun stored => ?_) Adds.trans
    cases stored with
    | none => exact fetchSchema_adds hcat ht
    | some text =>
      have hdecode : Within (Adds (Obs.Faithful reg catalog))
          (ofExcept (decodeSchema reg text table version) : RegProg U Schema) := by
        cases decodeSchema reg text table version with
        | ok schema => exact within_pure Adds.refl schema
        | error e => exact within_raise Adds.refl e
      refine hdecode.bind (fun schema => ?_) Adds.trans
      exact cacheSet_adds.bind (fun _ => within_pure Adds.refl _) Adds.trans

theorem api_getTableVersion (htracker : reg.hasTracker = true)
    (hs : (apiLaws reg catalog).inv s) {value : Json} (haccepts : (apiLaws reg catalog).Accepts value) :
    wp ((apiOps reg).getTableVersion value)
      (fun a u => (apiLaws reg catalog).Steady s u ∧
        ∃ name, value = .str name ∧ a = found (lastVersion name s.trace))
      (fun _ u => (apiLaws reg catalog).Steady s u) s := by
  show wp (ofExcept (keyText value) >>= _) _ _ s
  rw [wp_bind]
  cases value with
  | str name =>
    rw [keyText, wp_ofExcept_ok, wp_bind]
    refine wp_mono (getTableVersion_spec htracker hs.1 (haccepts name rfl)) (fun a u hu => ?_)
      (fun _ _ h => h.elim)
    obtain ⟨htrace, hcoherent, rfl⟩ := hu
    have hsteady : (apiLaws reg catalog).Steady s u := by
      refine ⟨⟨hcoherent, fun o ho => hs.2 o (htrace ▸ ho)⟩, ?_⟩
      show (fun table => lastVersion table u.trace) = _
      rw [htrace]
      rfl
    cases hlast : lastVersion name s.trace with
    | none => exact ⟨hsteady, name, rfl, by rw [hlast]; rfl⟩
    | some v => exact ⟨hsteady, name, rfl, by rw [hlast]; rfl⟩
  | _ => exact ⟨hs, rfl⟩

theorem api_getSchema (htracker : reg.hasTracker = true) (hcat : Catalogued reg catalog)
    (hs : (apiLaws reg catalog).inv s) {value number : Json}
    (haccepts : (apiLaws reg catalog).Accepts value) :
    wp ((apiOps reg).getSchema value number)
      (fun schema u => (apiLaws reg catalog).Steady s u ∧
        ∃ name v, value = .str name ∧ number = .str v ∧ schema = catalog name v)
      (fun _ u => (apiLaws reg catalog).Steady s u) s := by
  show wp (ofExcept (keyText value) >>= _) _ _ s
  rw [wp_bind]
  cases value with
  | str name =>
    rw [keyText, wp_ofExcept_ok, wp_bind]
    cases number with
    | str v =>
      rw [keyText, wp_ofExcept_ok, wp_bind]
      have hspec : wp (Registry.getSchema reg name v) (Fetches reg s name v)
          (fun _ u => Grown s u ∧ Coherent reg u) s := getSchema_spec htracker hs.1 (haccepts name rfl)
      refine wp_mono (wp_and hspec ((getSchema_adds hcat (haccepts name rfl)).wp s))
        (fun obj u hu => ?_) (fun _ u hu => ?_)
      · obtain ⟨⟨hgrown, hcoherent, schema, rfl, hsupplied⟩, hadds⟩ := hu
        have hfaithful := hadds.all hs.2
        refine ⟨⟨⟨hcoherent, hfaithful⟩, funext hgrown.versions⟩, name, v, rfl, rfl, ?_⟩
        exact hsupplied.eq_catalog hfaithful
      · exact ⟨⟨hu.1.2, hu.2.all hs.2⟩, funext hu.1.1.versions⟩
    | _ => exact ⟨hs, rfl⟩
  | _ => exact ⟨hs, rfl⟩

theorem apiRegistry_lawful (htracker : reg.hasTracker = true) (hcat : Catalogued reg catalog) :
    Lawful (apiOps reg) (apiLaws reg catalog) where
  table := hcat.table
  getTableVersion _ _ haccepts hs := api_getTableVersion htracker hs haccepts
  getSchema _ _ _ haccepts hs := api_getSchema htracker hcat hs haccepts
  setTableVersion name v s hname hs := by
    show wp (ofExcept (keyText (.str name)) >>= _) _ _ s
    rw [keyText, wp_bind, wp_ofExcept_ok, wp_bind, keyText, wp_ofExcept_ok]
    refine wp_mono (setTableVersion_spec htracker hs.1 hname) (fun _ u hu => ?_) (fun _ _ h => h.elim)
    obtain ⟨htrace, hcoherent⟩ := hu
    refine ⟨⟨hcoherent, fun o ho => ?_⟩, funext fun table => ?_⟩
    · rw [htrace] at ho
      rcases List.mem_append.mp ho with ho | ho
      · exact hs.2 o ho
      · rw [List.mem_singleton.mp ho]
        exact trivial
    · show lastVersion table u.trace = _
      rw [htrace, lastVersion_snoc]
      by_cases htable : name = table
      · subst htable
        rw [Function.update_self]
        exact if_pos rfl
      · rw [Function.update_of_ne (Ne.symm htable)]
        exact if_neg htable

/-- The schemas that the registry is opened with are those of the catalog. -/
def Seeded (reg : ApiRegistry U) (catalog : String → String → Schema) : Prop :=
  ∀ entry ∈ reg.schema.items, Name entry.2.table ∧
    entry.2 = catalog entry.2.table entry.2.modelVersion

theorem seed_adds (hcat : Catalogued reg catalog) {schema : Schema}
    (hschema : schema = catalog schema.table schema.modelVersion) :
    Within (Adds (Obs.Faithful reg catalog)) (seed reg schema) := by
  have hstored : Obs.Faithful reg catalog
      (.stored schema.table schema.modelVersion (reg.stringify schema)) := by
    intro decoded hdecode
    rw [congrArg reg.stringify hschema] at hdecode
    exact hcat.readsBack _ _ decoded hdecode
  have hversion : Within (Adds (Obs.Faithful reg catalog))
      (storeVersion reg schema.table schema.modelVersion) := by
    unfold storeVersion
    split
    · exact pause_adds.bind (fun _ s => Adds.refl s) Adds.trans
    · exact within_pure Adds.refl ()
  have hseeded : Within (Adds (Obs.Faithful reg catalog)) (note (.seeded schema) : RegProg U Unit) :=
    adds_note hschema
  refine hseeded.bind (fun _ => ?_) Adds.trans
  refine (storeSchema_adds hstored).bind (fun _ => ?_) Adds.trans
  exact hversion.bind (fun _ => cacheSet_adds) Adds.trans

theorem openRegistry_inv (htracker : reg.hasTracker = true) (hcat : Catalogued reg catalog)
    (hseeded : Seeded reg catalog) (hs : (apiLaws reg catalog).inv s) :
    (apiLaws reg catalog).inv (openRegistry reg s).2 := by
  have hadds : Within (Adds (Obs.Faithful reg catalog)) (openRegistry reg) := by
    refine Within.bind (fun s => Adds.refl s) (fun _ => ?_) Adds.trans
    have hall : ∀ schema ∈ reg.schema.items.map Prod.snd,
        schema = catalog schema.table schema.modelVersion := by
      intro schema hschema
      obtain ⟨entry, hentry, rfl⟩ := List.mem_map.mp hschema
      exact (hseeded entry hentry).2
    generalize reg.schema.items.map Prod.snd = schemas at hall
    induction schemas with
    | nil => exact within_pure Adds.refl ()
    | cons schema rest ih =>
      refine (seed_adds hcat (hall schema List.mem_cons_self)).bind (fun _ => ?_) Adds.trans
      exact ih fun schema' h => hall schema' (List.mem_cons_of_mem _ h)
  have hcoherent := wp_state (I := Coherent reg) (wp_mono
    (openRegistry_spec htracker hs.1 fun entry h => (hseeded entry h).1) (fun _ _ h => h)
    fun _ _ h => h.elim)
  exact ⟨hcoherent, (hadds s).all hs.2⟩

end Proofs

/-! ## A table with two versions -/

theorem nodup_idName : ["id", "name"].Nodup := by decide

/-- Version `v2` of every table has a name beside the key. -/
def userCatalog (table version : String) : Schema where
  properties := if version = "v2"
    then ⟨[("id", ⟨"string", "", false, none⟩), ("name", ⟨"string", "", false, none⟩)], nodup_idName⟩
    else ⟨[("id", ⟨"string", "", false, none⟩)], by decide⟩
  primaryKeys := ["id"]
  table := table
  modelVersion := version

/-- The JSON of the two schemas, in short. -/
def userText : Schema → String := fun schema =>
  if schema = userCatalog "user" "v1" then "v1" else if schema = userCatalog "user" "v2" then "v2" else ""

/-- The registry is opened at `v1`; the API has `v2`. -/
def userRegistry : ApiRegistry Unit where
  apiUrl := "https://api"
  hasTracker := true
  schema := ⟨[("user", userCatalog "user" "v1")], by decide⟩
  objects := Dict.empty
  request url := pure (if url = "https://api/v3/schema/user/v2" then (200, "v2") else (404, ""))
  loads text := if text = "v1" then .ok (.dict (.ok (userCatalog "user" "v1")))
    else if text = "v2" then .ok (.dict (.ok (userCatalog "user" "v2"))) else .error "Expecting value"
  stringify := userText
  elapse u := (⟨0, 0, false⟩, u)

theorem userRegistry_reads {table version text : String} {schema : Schema}
    (h : decodeSchema userRegistry text table version = .ok schema) :
    (text = "v1" ∧ schema = userCatalog "user" "v1") ∨ (text = "v2" ∧ schema = userCatalog "user" "v2") := by
  by_cases h₁ : text = "v1"
  · subst h₁
    exact Or.inl ⟨rfl, (Except.ok.inj h).symm⟩
  · by_cases h₂ : text = "v2"
    · subst h₂
      exact Or.inr ⟨rfl, (Except.ok.inj h).symm⟩
    · simp [decodeSchema, userRegistry, h₁, h₂] at h

/-- A name has no slash. -/
theorem user_of_url {table version : String} (ht : Name table)
    (h : "https://api" ++ "/v3/schema/" ++ table ++ "/" ++ version = "https://api/v3/schema/user/v2") :
    table = "user" ∧ version = "v2" := by
  have hlist : "https://api/v3/schema/".toList ++ (table.toList ++ '/' :: version.toList) =
      "https://api/v3/schema/".toList ++ ("user".toList ++ '/' :: "v2".toList) := by
    have h' := congrArg String.toList h
    simp only [String.toList_append, List.append_assoc] at h'
    exact h'
  obtain ⟨htable, _, hversion⟩ :=
    cut_unique ht (show Name "user" by decide) (by decide) (by decide) (List.append_cancel_left hlist)
  exact ⟨String.toList_inj.mp htable, String.toList_inj.mp hversion⟩

theorem userRegistry_catalogued : Catalogued userRegistry userCatalog where
  table _ _ := rfl
  answers table version u u' body hname h := by
    intro schema hdecode
    have hreply : (if "https://api" ++ "/v3/schema/" ++ table ++ "/" ++ version =
        "https://api/v3/schema/user/v2" then ((200 : Int), "v2") else (404, "")) = (200, body) :=
      Except.ok.inj (Prod.ext_iff.mp h).1
    split at hreply
    · next hurl =>
      obtain ⟨rfl, rfl⟩ := user_of_url hname hurl
      obtain ⟨_, rfl⟩ := Prod.mk.inj hreply
      rcases userRegistry_reads hdecode with ⟨htext, _⟩ | ⟨_, hschema⟩
      · exact absurd htext (by decide)
      · exact hschema
    · exact absurd (Prod.mk.inj hreply).1 (by decide)
  readsBack table version schema hdecode := by
    have htext : userRegistry.stringify (userCatalog table version) =
      if userCatalog table version = userCatalog "user" "v1" then "v1"
      else if userCatalog table version = userCatalog "user" "v2" then "v2" else "" := rfl
    rw [htext] at hdecode
    split at hdecode
    · next heq =>
      rcases userRegistry_reads hdecode with ⟨_, hschema⟩ | ⟨habsurd, _⟩
      · exact hschema.trans heq.symm
      · exact absurd habsurd (by decide)
    · split at hdecode
      · next heq =>
        rcases userRegistry_reads hdecode with ⟨habsurd, _⟩ | ⟨_, hschema⟩
        · exact absurd habsurd (by decide)
        · exact hschema.trans heq.symm
      · rcases userRegistry_reads hdecode with ⟨habsurd, _⟩ | ⟨habsurd, _⟩
        · exact absurd habsurd (by decide)
        · exact absurd habsurd (by decide)

/-- Opened for the first time. -/
def userRegistryOpened : State Unit := (openRegistry userRegistry (start () 0 0)).2

theorem userRegistryOpened_inv : (apiLaws userRegistry userCatalog).inv userRegistryOpened := by
  refine openRegistry_inv rfl userRegistry_catalogued (fun entry hentry => ?_)
    ⟨start_coherent () 0 0, fun o ho => absurd ho List.not_mem_nil⟩
  rw [List.mem_singleton.mp hentry]
  exact ⟨by show Name "user"; decide, rfl⟩

theorem userRegistryOpened_version (table : String) :
    (apiLaws userRegistry userCatalog).version userRegistryOpened table =
      if "user" = table then some "v1" else none := by
  have htrace : userRegistryOpened.trace =
      [.seeded (userCatalog "user" "v1"), .stored "user" "v1" "v1"] := by decide +kernel
  show lastVersion table userRegistryOpened.trace = _
  rw [htrace]
  rfl

end Registry
end Eds
