import Eds.Exceptions
import Eds.Util.SchemaRefs

/-!
# The load of a directory of schemas

`new_schema_validator` registers each file of the directory under three names, and compiles for each
table of `config.json` the schema that is configured for it: an event that fails later because of a
reference would be skipped, so each reference is to be resolved here.  The library of references is
a parameter: `lookup` says what a reference means in a document.

`loads_resolved_iff` says when a load that goes through has resolved all that its schemas reach.
-/

namespace Eds
namespace Util
namespace Schema

open Collections

/-! ## Values compared -/

mutual

/-- Whether two values are written alike. -/
def decEqJson : (v w : Json) → Decidable (v = w)
  | .null, w =>
    match w with
    | .null => isTrue rfl
    | .bool _ | .int _ | .float _ | .str _ | .arr _ | .obj _ => isFalse nofun
  | .bool a, w =>
    match w with
    | .bool b => decidable_of_iff (a = b) ⟨congrArg _, Json.bool.inj⟩
    | .null | .int _ | .float _ | .str _ | .arr _ | .obj _ => isFalse nofun
  | .int a, w =>
    match w with
    | .int b => decidable_of_iff (a = b) ⟨congrArg _, Json.int.inj⟩
    | .null | .bool _ | .float _ | .str _ | .arr _ | .obj _ => isFalse nofun
  | .float a, w =>
    match w with
    | .float b => decidable_of_iff (a = b) ⟨congrArg _, Json.float.inj⟩
    | .null | .bool _ | .int _ | .str _ | .arr _ | .obj _ => isFalse nofun
  | .str a, w =>
    match w with
    | .str b => decidable_of_iff (a = b) ⟨congrArg _, Json.str.inj⟩
    | .null | .bool _ | .int _ | .float _ | .arr _ | .obj _ => isFalse nofun
  | .arr vs, w =>
    match w with
    | .arr ws =>
      have : Decidable (vs = ws) := decEqItems vs ws
      decidable_of_iff (vs = ws) ⟨congrArg _, Json.arr.inj⟩
    | .null | .bool _ | .int _ | .float _ | .str _ | .obj _ => isFalse nofun
  | .obj fields, w =>
    match w with
    | .obj fields' =>
      have : Decidable (fields = fields') := decEqFields fields fields'
      decidable_of_iff (fields = fields') ⟨congrArg _, Json.obj.inj⟩
    | .null | .bool _ | .int _ | .float _ | .str _ | .arr _ => isFalse nofun

def decEqItems : (vs ws : List Json) → Decidable (vs = ws)
  | [], [] => isTrue rfl
  | [], _ :: _ | _ :: _, [] => isFalse nofun
  | v :: vs, w :: ws =>
    have : Decidable (v = w) := decEqJson v w
    have : Decidable (vs = ws) := decEqItems vs ws
    decidable_of_iff (v = w ∧ vs = ws) List.cons_eq_cons.symm

def decEqFields : (fields fields' : List (String × Json)) → Decidable (fields = fields')
  | [], [] => isTrue rfl
  | [], _ :: _ | _ :: _, [] => isFalse nofun
  | (key, v) :: rest, (key', v') :: rest' =>
    have : Decidable (v = v') := decEqJson v v'
    have : Decidable (rest = rest') := decEqFields rest rest'
    decidable_of_iff ((key = key' ∧ v = v') ∧ rest = rest') (by simp)

end

instance : DecidableEq Json := decEqJson

/-! ## The library -/

/-- What is used of the libraries of validators and references.  `Base` is the document in which a
reference stands, and `Cls` the class of validators for a draft. -/
structure SchemaLib (Resource Cls Base : Type) where
  /-- `Resource.from_contents(_, default_specification=DRAFT7)` -/
  fromContents : Json → Except Exn Resource
  contents : Resource → Json
  /-- Where `registry.resolver()` stands. -/
  base : Base
  lookup : List (String × Resource) → Base → String → Except Exn (Json × Base)
  /-- `validator_for(_, default=Draft7Validator)` -/
  validatorFor : Json → Except Exn Cls
  checkSchema : Cls → Json → Except Exn Unit

/-- A part of a document. -/
inductive Part (root : Json) : Json → Prop
  | refl : Part root root
  | item {vs : List Json} {v : Json} (h : Part root (.arr vs)) (hmem : v ∈ vs) : Part root v
  | field {fields : List (String × Json)} {key : String} {v : Json} (h : Part root (.obj fields))
      (hmem : (key, v) ∈ fields) : Part root v

theorem Part.texts_subset {root v : Json} (h : Part root v) : texts v ⊆ texts root := by
  induction h with
  | refl => exact List.Subset.refl _
  | item _ hmem ih => exact List.Subset.trans (texts_item hmem) ih
  | field _ hmem ih => exact List.Subset.trans (texts_field hmem) ih

variable {Resource Cls Base : Type}

/-- A reference resolves to a part of a document that is registered. -/
structure SchemaLib.Documented (lib : SchemaLib Resource Cls Base) : Prop where
  lookup_part : ∀ {registry b ref contents b'}, lib.lookup registry b ref = .ok (contents, b') →
    ∃ entry ∈ registry, Part (lib.contents entry.2) contents

/-! ## The files -/

/-- What is used of the file system: `os.path.abspath(schema_dir)`, what `os.walk` yields there, which
paths exist, and what is in a file. -/
structure SchemaFiles where
  absDir : String
  walked : List (String × List String)
  present : String → Bool
  load : String → Except Exn Json

/-- `os.path.join` -/
def pathJoin (dir name : String) : String :=
  if name.toList.head? = some '/' then name
  else if dir = "" ∨ dir.toList.getLast? = some '/' then dir ++ name
  else dir ++ "/" ++ name

/-- `os.path.relpath`, for a path under `start`. -/
def relpath (path start : String) : String :=
  String.ofList ((path.toList.drop start.toList.length).dropWhile fun c => c = '/')

/-- `_list_files` -/
def listFiles (files : SchemaFiles) : List String :=
  files.walked.flatMap fun dir =>
    (dir.2.filter fun name => name ≠ ".DS_Store").map fun name => pathJoin dir.1 name

def typeName : Json → String
  | .null => "NoneType"
  | .bool _ => "bool"
  | .int _ => "int"
  | .float _ => "float"
  | .str _ => "str"
  | .arr _ => "list"
  | .obj _ => "dict"

/-- `rule["schema"]` -/
def ruleSchema : Json → Except Exn Json
  | .obj fields =>
    match fields.lookup "schema" with
    | some v => .ok v
    | none => .error (.exception "'schema'")
  | .arr _ => .error (.exception "list indices must be integers or slices, not str")
  | .str _ => .error (.exception "string indices must be integers, not 'str'")
  | v => .error (.exception s!"'{typeName v}' object is not subscriptable")

/-- `rule.get("path", "")`, of a rule that has a schema. -/
def rulePath : Json → Json
  | .obj fields => (fields.lookup "path").getD (.str "")
  | _ => .str ""

/-- `os.path.join(abs_dir, rule["schema"])` -/
def schemaPath (files : SchemaFiles) (rule : Json) : Except Exn String := do
  let schema ← ruleSchema rule
  match schema with
  | .str name => .ok (pathJoin files.absDir name)
  | v => .error (.exception s!"join() argument must be str, bytes, or os.PathLike object, not '{typeName v}'")

/-- `rules_cfg.items()` -/
def configItems : Json → Except Exn (List (String × Json))
  | .obj fields => .ok fields
  | v => .error (.exception s!"'{typeName v}' object has no attribute 'items'")

/-! ## The load -/

section Load

variable (lib : SchemaLib Resource Cls Base) (files : SchemaFiles)

/-- The names of a file in the registry. -/
def registered (filename : String) : Except Exn (List (String × Resource)) :=
  let rel := relpath filename files.absDir
  if rel = "config.json" then pure []
  else do
    let contents ← files.load filename
    let resource ← lib.fromContents contents
    pure [(s!"file://{rel}", resource), (s!"file:///{rel}", resource),
      ("file://" ++ filename, resource)]

/-- `Registry().with_resources(resources)` -/
def registryOf : Except Exn (List (String × Resource)) := do
  let resources ← (listFiles files).mapM (registered lib files)
  pure resources.flatten

/-- A validator with its registry, and the template of its path. -/
structure Rule (Resource Cls : Type) where
  cls : Cls
  root : Json
  registry : List (String × Resource)
  path : Json
  deriving DecidableEq

def raised {α : Type} : Except Exn α → Except Stop α
  | .ok a => .ok a
  | .error e => .error (.raised e)

variable (fuel : Nat) (registry : List (String × Resource))

/-- The schema is checked and its references are resolved. -/
def compile (cls : Cls) (root : Json) : Except Stop Unit := do
  raised (lib.checkSchema cls root)
  resolveAllRefs (lib.lookup registry) fuel lib.base root

/-- `except Exception as e`, around what compiles a schema. -/
def compiling (schemaPath table : String) : Except Stop Unit → Except Stop Unit
  | .error (.raised e) =>
    if e.isException then
      .error (.raised (.exception s!"error compiling schema: {schemaPath} for table: {table}: {e.str}"))
    else .error (.raised e)
  | r => r

def loadRule (entry : String × Json) : Except Stop (String × Rule Resource Cls) := do
  let path ← raised (schemaPath files entry.2)
  if files.present path then do
    let root ← raised (files.load path)
    let cls ← raised (lib.validatorFor root)
    compiling path entry.1 (compile lib fuel registry cls root)
    pure (entry.1, ⟨cls, root, registry, rulePath entry.2⟩)
  else .error (.raised (.exception s!"schema file not found: {path} for table: {entry.1}"))

/-- `new_schema_validator` -/
def newSchemaValidator : Except Stop (List (String × Rule Resource Cls)) := do
  let config := pathJoin files.absDir "config.json"
  if files.present config then do
    let rulesCfg ← raised (files.load config)
    let registry ← raised (registryOf lib files)
    let items ← raised (configItems rulesCfg)
    items.mapM (loadRule lib files fuel registry)
  else
    .error (.raised (.exception s!"config.json not found in schema directory: {files.absDir}"))

/-- The schema of a table that `config.json` names. -/
def Configured (root : Json) : Prop :=
  ∃ fields table rule path, files.load (pathJoin files.absDir "config.json") = .ok (.obj fields) ∧
    (table, rule) ∈ fields ∧ schemaPath files rule = .ok path ∧ files.load path = .ok root

end Load

/-! ## A load that goes through -/

section Loaded

variable {lib : SchemaLib Resource Cls Base} {files : SchemaFiles} {fuel : Nat}
  {registry : List (String × Resource)}

theorem raised_eq_ok {α : Type} {r : Except Exn α} {a : α} : raised r = .ok a ↔ r = .ok a := by
  cases r with
  | ok a' => simp only [raised, Except.ok.injEq]
  | error e => simp only [raised, reduceCtorEq]

theorem raised_ne_fuel {α : Type} {r : Except Exn α} : raised r ≠ .error .fuel := by
  cases r with
  | ok a => exact nofun
  | error e => exact nofun

theorem compiling_eq_ok {schemaPath table : String} {r : Except Stop Unit}
    (h : compiling schemaPath table r = .ok ()) : r = .ok () := by
  unfold compiling at h
  split at h
  · split at h
    · cases h
    · cases h
  · exact h

theorem loadRule_resolves {entry : String × Json} {rule : String × Rule Resource Cls}
    (h : loadRule lib files fuel registry entry = .ok rule) :
    ∃ path root, schemaPath files entry.2 = .ok path ∧ files.load path = .ok root ∧
      resolveAllRefs (lib.lookup registry) fuel lib.base root = .ok () := by
  obtain ⟨path, hpath, h⟩ := bind_eq_ok.mp h
  split at h
  · obtain ⟨root, hroot, h⟩ := bind_eq_ok.mp h
    obtain ⟨cls, -, h⟩ := bind_eq_ok.mp h
    obtain ⟨⟨⟩, hcompile, -⟩ := bind_eq_ok.mp h
    obtain ⟨⟨⟩, -, hrefs⟩ := bind_eq_ok.mp (compiling_eq_ok hcompile)
    exact ⟨path, root, raised_eq_ok.mp hpath, raised_eq_ok.mp hroot, hrefs⟩
  · cases h

theorem newSchemaValidator_resolves {rules : List (String × Rule Resource Cls)}
    (h : newSchemaValidator lib files fuel = .ok rules) (hregistry : registryOf lib files = .ok registry)
    {root : Json} (hroot : Configured files root) :
    resolveAllRefs (lib.lookup registry) fuel lib.base root = .ok () := by
  obtain ⟨fields, table, rule, path, hconfig, hmem, hpath, hload⟩ := hroot
  unfold newSchemaValidator at h
  dsimp only at h
  split at h
  · obtain ⟨rulesCfg, hcfg, h⟩ := bind_eq_ok.mp h
    obtain ⟨registry', hregistry', h⟩ := bind_eq_ok.mp h
    obtain ⟨items, hitems, h⟩ := bind_eq_ok.mp h
    rw [raised_eq_ok, hconfig] at hcfg
    rw [raised_eq_ok, hregistry] at hregistry'
    cases hcfg
    cases hregistry'
    cases raised_eq_ok.mp hitems
    obtain ⟨loaded, hloaded⟩ := exists_of_mapM h hmem
    obtain ⟨path', root', hpath', hload', hrefs⟩ := loadRule_resolves hloaded
    rw [hpath] at hpath'
    cases hpath'
    rw [hload] at hload'
    cases hload'
    exact hrefs
  · cases h

end Loaded

/-! ## Every load ends -/

section Ended

variable {lib : SchemaLib Resource Cls Base} {files : SchemaFiles} {fuel : Nat}
  {registry : List (String × Resource)}

/-- A walk has the texts of the schema and of the registry to meet. -/
theorem resolveAllRefs_ends (hlib : lib.Documented) (registry : List (String × Resource))
    (root : Json) :
    ∃ n, ∀ m, n ≤ m → resolveAllRefs (lib.lookup registry) m lib.base root ≠ .error .fuel := by
  let every := texts root ++ textsItems (registry.map fun entry => lib.contents entry.2)
  have hlookup : ∀ b ref contents b', lib.lookup registry b ref = .ok (contents, b') →
      texts contents ⊆ every := by
    intro b ref contents b' hfound
    obtain ⟨entry, hentry, hpart⟩ := hlib.lookup_part hfound
    have hmem := List.mem_map_of_mem (f := fun entry => lib.contents entry.2) hentry
    have hdocument := List.Subset.trans hpart.texts_subset (texts_item hmem)
    exact List.Subset.trans hdocument (List.subset_append_right _ _)
  refine ⟨unseen every [], fun m hm h => ?_⟩
  have hends := walk_ends hlookup m (b := lib.base) (List.subset_append_left (texts root) _) hm
  rcases bind_eq_error.mp h with hwalk | ⟨seen, -, hpure⟩
  · rw [hwalk] at hends
    exact hends
  · cases hpure

theorem compiling_eq_fuel {schemaPath table : String} {r : Except Stop Unit}
    (h : compiling schemaPath table r = .error .fuel) : r = .error .fuel := by
  unfold compiling at h
  split at h
  · split at h
    · cases h
    · cases h
  · exact h

theorem loadRule_fuel {entry : String × Json}
    (h : loadRule lib files fuel registry entry = .error .fuel) :
    ∃ path root, schemaPath files entry.2 = .ok path ∧ files.load path = .ok root ∧
      resolveAllRefs (lib.lookup registry) fuel lib.base root = .error .fuel := by
  rcases bind_eq_error.mp h with h | ⟨path, hpath, h⟩
  · exact absurd h raised_ne_fuel
  · split at h
    · rcases bind_eq_error.mp h with h | ⟨root, hroot, h⟩
      · exact absurd h raised_ne_fuel
      · rcases bind_eq_error.mp h with h | ⟨cls, -, h⟩
        · exact absurd h raised_ne_fuel
        · rcases bind_eq_error.mp h with h | ⟨_, -, h⟩
          · rcases bind_eq_error.mp (compiling_eq_fuel h) with h | ⟨_, -, hrefs⟩
            · exact absurd h raised_ne_fuel
            · exact ⟨path, root, raised_eq_ok.mp hpath, raised_eq_ok.mp hroot, hrefs⟩
          · cases h
    · cases h

theorem loadRule_ends (hlib : lib.Documented) (files : SchemaFiles)
    (registry : List (String × Resource)) (entry : String × Json) :
    ∃ n, ∀ m, n ≤ m → loadRule lib files m registry entry ≠ .error .fuel := by
  by_cases hread : ∃ path root, schemaPath files entry.2 = .ok path ∧ files.load path = .ok root
  · obtain ⟨path, root, hpath, hroot⟩ := hread
    obtain ⟨n, hn⟩ := resolveAllRefs_ends hlib registry root
    refine ⟨n, fun m hm h => hn m hm ?_⟩
    obtain ⟨path', root', hpath', hroot', hrefs⟩ := loadRule_fuel h
    cases hpath.symm.trans hpath'
    cases hroot.symm.trans hroot'
    exact hrefs
  · refine ⟨0, fun m _ h => hread ?_⟩
    obtain ⟨path, root, hpath, hroot, -⟩ := loadRule_fuel h
    exact ⟨path, root, hpath, hroot⟩

theorem newSchemaValidator_fuel (h : newSchemaValidator lib files fuel = .error .fuel) :
    ∃ rulesCfg registry items, files.load (pathJoin files.absDir "config.json") = .ok rulesCfg ∧
      registryOf lib files = .ok registry ∧ configItems rulesCfg = .ok items ∧
      ∃ entry ∈ items, loadRule lib files fuel registry entry = .error .fuel := by
  unfold newSchemaValidator at h
  dsimp only at h
  split at h
  · rcases bind_eq_error.mp h with h | ⟨rulesCfg, hcfg, h⟩
    · exact absurd h raised_ne_fuel
    · rcases bind_eq_error.mp h with h | ⟨registry, hregistry, h⟩
      · exact absurd h raised_ne_fuel
      · rcases bind_eq_error.mp h with h | ⟨items, hitems, h⟩
        · exact absurd h raised_ne_fuel
        · exact ⟨rulesCfg, registry, items, raised_eq_ok.mp hcfg, raised_eq_ok.mp hregistry,
            raised_eq_ok.mp hitems, exists_of_mapM_error h⟩
  · cases h

theorem newSchemaValidator_ends (hlib : lib.Documented) (files : SchemaFiles) :
    ∃ n, ∀ m, n ≤ m → newSchemaValidator lib files m ≠ .error .fuel := by
  by_cases hread : ∃ rulesCfg registry items,
      files.load (pathJoin files.absDir "config.json") = .ok rulesCfg ∧
        registryOf lib files = .ok registry ∧ configItems rulesCfg = .ok items
  · obtain ⟨rulesCfg, registry, items, hcfg, hregistry, hitems⟩ := hread
    obtain ⟨n, hn⟩ := exists_bound (P := fun m entry =>
      loadRule lib files m registry entry ≠ .error .fuel) (l := items)
      fun entry _ => loadRule_ends hlib files registry entry
    refine ⟨n, fun m hm h => ?_⟩
    obtain ⟨rulesCfg', registry', items', hcfg', hregistry', hitems', entry, hentry, hfuel⟩ :=
      newSchemaValidator_fuel h
    cases hcfg.symm.trans hcfg'
    cases hregistry.symm.trans hregistry'
    cases hitems.symm.trans hitems'
    exact hn m hm entry hentry hfuel
  · refine ⟨0, fun m _ h => hread ?_⟩
    obtain ⟨rulesCfg, registry, items, hcfg, hregistry, hitems, -⟩ := newSchemaValidator_fuel h
    exact ⟨rulesCfg, registry, items, hcfg, hregistry, hitems⟩

end Ended

/-- Every walk and every load ends.  A load that goes through has resolved what its schemas reach if
and only if they are clear: the walk takes a reference for one that it met elsewhere by its text. -/
theorem loads_resolved_iff (lib : SchemaLib Resource Cls Base) (hlib : lib.Documented)
    (files : SchemaFiles) :
    (∀ registry root, ∃ n, ∀ m, n ≤ m →
      resolveAllRefs (lib.lookup registry) m lib.base root ≠ .error .fuel) ∧
    (∃ n, ∀ m, n ≤ m → newSchemaValidator lib files m ≠ .error .fuel) ∧
    ∀ fuel rules registry, newSchemaValidator lib files fuel = .ok rules →
      registryOf lib files = .ok registry →
        ((∀ root, Configured files root → Resolved (lib.lookup registry) (lib.base, root)) ↔
          ∀ root, Configured files root → Clear (lib.lookup registry) (lib.base, root)) := by
  refine ⟨resolveAllRefs_ends hlib, newSchemaValidator_ends hlib files,
    fun fuel rules registry hload hregistry => ?_⟩
  have hiff : ∀ root, Configured files root →
      (Resolved (lib.lookup registry) (lib.base, root) ↔
        Clear (lib.lookup registry) (lib.base, root)) := fun root hroot =>
    resolved_iff_clear (newSchemaValidator_resolves hload hregistry hroot)
  exact ⟨fun h root hroot => (hiff root hroot).mp (h root hroot),
    fun h root hroot => (hiff root hroot).mpr (h root hroot)⟩

/-! ### Definitions of one name -/

/-- The part that a pointer names, by its steps. -/
def pointed : List (List Char) → Json → Option Json
  | [], v => some v
  | step :: steps, .obj fields =>
    match fields.lookup (String.ofList step) with
    | some v => pointed steps v
    | none => none
  | _ :: _, _ => none

theorem part_of_pointed {root v part : Json} {steps : List (List Char)} (hv : Part root v)
    (h : pointed steps v = some part) : Part root part := by
  induction steps generalizing v with
  | nil =>
    cases h
    exact hv
  | cons step steps ih =>
    cases v with
    | obj fields =>
      rw [pointed] at h
      split at h
      · next found hfound => exact ih (hv.field (mem_of_lookup hfound)) h
      · cases h
    | _ => cases h

/-- A reference is an address, a `#` and a pointer; without the address it stays in its document. -/
def pointerLib : SchemaLib Json Unit String where
  fromContents := .ok
  contents := id
  base := ""
  lookup registry base ref :=
    let address := ref.toList.takeWhile fun c => c ≠ '#'
    let uri := if address = [] then base else String.ofList address
    let pointer := (ref.toList.dropWhile fun c => c ≠ '#').drop 2
    match registry.lookup uri with
    | none => .error (.exception s!"Unresolvable: {ref}")
    | some contents =>
      match pointed (if pointer = [] then [] else pointer.splitOn '/') contents with
      | none => .error (.exception s!"PointerToNowhere: {ref}")
      | some v => .ok (v, uri)
  validatorFor _ := .ok ()
  checkSchema _ _ := .ok ()

theorem pointerLib_documented : pointerLib.Documented where
  lookup_part {registry b ref contents b'} h := by
    simp only [pointerLib] at h
    split at h
    · cases h
    · next document hdocument =>
      split at h
      · cases h
      · next v hv =>
        cases h
        obtain ⟨front, back, rfl, -⟩ := List.lookup_eq_some_iff.mp hdocument
        exact ⟨_, List.mem_append_right _ List.mem_cons_self, part_of_pointed .refl hv⟩

def refTo (ref : String) : Json := .obj [("$ref", .str ref)]

/-- A schema of two files that refer to a definition of one name. -/
def ordersRoot : Json := .obj [("allOf", .arr [refTo "file:///a.json", refTo "file:///b.json"])]

def withDefinition (definitions : List (String × Json)) : Json :=
  .obj [("items", refTo "#/definitions/x"), ("definitions", .obj definitions)]

/-- The files `a.json`, which defines the name, and `b.json`. -/
def ordersFiles (b : List (String × Json)) : SchemaFiles where
  absDir := "/s"
  walked := [("/s", ["config.json", "orders.json", "a.json", "b.json"])]
  present _ := true
  load path :=
    match [("/s/config.json", .obj [("orders", .obj [("schema", .str "orders.json")])]),
        ("/s/orders.json", ordersRoot), ("/s/a.json", withDefinition [("x", .obj [])]),
        ("/s/b.json", withDefinition b)].lookup path with
    | some contents => .ok contents
    | none => .error (.osError (some 2) path)

def ordersRegistry (b : List (String × Json)) : List (String × Json) :=
  [("orders.json", ordersRoot), ("a.json", withDefinition [("x", .obj [])]),
    ("b.json", withDefinition b)].flatMap fun file =>
      [("file://" ++ file.1, file.2), ("file:///" ++ file.1, file.2), ("file:///s/" ++ file.1, file.2)]

theorem orders_meets : Meets (pointerLib.lookup (ordersRegistry [])) ("", ordersRoot)
    "file:///b.json" "#/definitions/x" := by
  have hroot : Reached (pointerLib.lookup (ordersRegistry [])) ("", ordersRoot)
      ("", refTo "file:///b.json") :=
    .part (.part (.refl _) (.field (by decide) List.mem_cons_self))
      (.item (List.mem_cons_of_mem _ List.mem_cons_self))
  have hlookup : pointerLib.lookup (ordersRegistry []) "" "file:///b.json" =
      .ok (withDefinition [], "file:///b.json") := by decide +kernel
  have hfile := Reached.ref hroot (by decide) hlookup
  exact ⟨_, .part hfile (.field (by decide) List.mem_cons_self), by decide⟩

theorem loads_resolved_iff_orders :
    newSchemaValidator pointerLib (ordersFiles [("x", .obj [])]) 4 =
      .ok [("orders", ⟨(), ordersRoot, ordersRegistry [("x", .obj [])], .str ""⟩)] ∧
    ((∀ root, Configured (ordersFiles [("x", .obj [])]) root →
        Resolved (pointerLib.lookup (ordersRegistry [("x", .obj [])])) ("", root)) ↔
      ∀ root, Configured (ordersFiles [("x", .obj [])]) root →
        Clear (pointerLib.lookup (ordersRegistry [("x", .obj [])])) ("", root)) := by
  have hload : newSchemaValidator pointerLib (ordersFiles [("x", .obj [])]) 4 =
      .ok [("orders", ⟨(), ordersRoot, ordersRegistry [("x", .obj [])], .str ""⟩)] := by
    decide +kernel
  have hregistry : registryOf pointerLib (ordersFiles [("x", .obj [])]) =
      .ok (ordersRegistry [("x", .obj [])]) := by decide +kernel
  have hends := loads_resolved_iff pointerLib pointerLib_documented (ordersFiles [("x", .obj [])])
  exact ⟨hload, hends.2.2 4 _ _ hload hregistry⟩

/-- `b.json` does not define the name, but the walk has met the reference in `a.json`. -/
theorem orders_load_unresolved :
    pointerLib.Documented ∧ ∃ rules registry,
      newSchemaValidator pointerLib (ordersFiles []) 4 = .ok rules ∧
      registryOf pointerLib (ordersFiles []) = .ok registry ∧
      ∃ root, Configured (ordersFiles []) root ∧
        ¬ Resolved (pointerLib.lookup registry) (pointerLib.base, root) := by
  have hload : newSchemaValidator pointerLib (ordersFiles []) 4 =
      .ok [("orders", ⟨(), ordersRoot, ordersRegistry [], .str ""⟩)] := by decide +kernel
  have hregistry : registryOf pointerLib (ordersFiles []) = .ok (ordersRegistry []) := by
    decide +kernel
  have hroot : Configured (ordersFiles []) ordersRoot :=
    ⟨[("orders", .obj [("schema", .str "orders.json")])], "orders", _, "/s/orders.json",
      by decide +kernel, List.mem_singleton_self _, by decide +kernel, by decide +kernel⟩
  have hmissing : pointerLib.lookup (ordersRegistry []) "file:///b.json" "#/definitions/x" =
      .error (.exception "PointerToNowhere: #/definitions/x") := by decide +kernel
  refine ⟨pointerLib_documented, _, _, hload, hregistry, ordersRoot, hroot, fun hresolved => ?_⟩
  obtain ⟨found, hfound⟩ := hresolved _ _ orders_meets
  cases hmissing.symm.trans hfound

end Schema
end Util
end Eds
