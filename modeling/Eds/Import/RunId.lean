import Eds.Collections.Ranked
import Eds.Importer.Run
import Eds.Lexing.Percent
import Eds.Util.Numbers
import Mathlib.Data.String.Basic

/-!
# The identity of an import run

`compute_run_id` is a hash of the URL of the driver, three sorted lists of names and the time
offset, with `|` between them and a comma between names.  The URL may hold both, but it stands in
front: from the right end the last four bars are the separators, since neither a name nor an offset
has one.

The keys of the progress markers start with this identity, and so the markers of a run are its own
(`computeRunId_eq_iff`).
-/

namespace Eds
namespace Import

open Collections Importer Lexing Lexing.Percent Util

/-! ## The hash -/

/-- `hash` of one string; `xxh64` is the hexadecimal digest of bytes. -/
def edsHash (xxh64 : List UInt8 → String) (text : String) : String := xxh64 (utf8 text.toList)

/-- The digest is taken as injective; its characters are hexadecimal digits, which a colon is not. -/
structure Digest (xxh64 : List UInt8 → String) : Prop where
  injective : Function.Injective xxh64
  colon : ∀ bytes, ':' ∉ (xxh64 bytes).toList

/-! ## The identity -/

/-- `sorted(names)` -/
def sortedNames (names : List String) : List String := names.mergeSort fun a b => decide (a ≤ b)

/-- `str(time_offset_ms)` -/
def offsetText : Option Int → String
  | none => "None"
  | some ms => toString ms

def computeRunId (xxh64 : List UInt8 → String) (driverUrl : String)
    (only companyIds locationIds : List String) (timeOffsetMs : Option Int) : String :=
  edsHash xxh64 ("|".intercalate [driverUrl, ",".intercalate (sortedNames only),
    ",".intercalate (sortedNames companyIds), ",".intercalate (sortedNames locationIds),
    offsetText timeOffsetMs])

/-- Not empty, and without the separators. -/
def IsName (name : String) : Prop := name.toList ≠ [] ∧ ',' ∉ name.toList ∧ '|' ∉ name.toList

instance (name : String) : Decidable (IsName name) :=
  inferInstanceAs (Decidable (name.toList ≠ [] ∧ ',' ∉ name.toList ∧ '|' ∉ name.toList))

/-- The destination and the scope of a run. -/
structure Scope where
  driverUrl : String
  only : List String
  companyIds : List String
  locationIds : List String
  timeOffsetMs : Option Int
  only_names : ∀ name ∈ only, IsName name
  company_names : ∀ name ∈ companyIds, IsName name
  location_names : ∀ name ∈ locationIds, IsName name

def Scope.runId (xxh64 : List UInt8 → String) (s : Scope) : String :=
  computeRunId xxh64 s.driverUrl s.only s.companyIds s.locationIds s.timeOffsetMs

/-- The lists are the same but for their order. -/
def Scope.Same (s t : Scope) : Prop :=
  (s.driverUrl = t.driverUrl ∧ s.timeOffsetMs = t.timeOffsetMs) ∧
    s.only.Perm t.only ∧ s.companyIds.Perm t.companyIds ∧ s.locationIds.Perm t.locationIds

/-- `getKey` is `tracker.get_key`: whether the key was found, and its value. -/
def progressMarkerPresent (getKey : String → Bool × String) (runId table : String) : Bool :=
  (getKey (progressKey runId table)).1

/-! ## Joined names -/

theorem sortedNames_eq_iff {names names' : List String} :
    sortedNames names = sortedNames names' ↔ names.Perm names' := by
  constructor
  · intro h
    have hperm := List.mergeSort_perm names fun a b => decide (a ≤ b)
    have hperm' := List.mergeSort_perm names' fun a b => decide (a ≤ b)
    rw [sortedNames, sortedNames] at h
    rw [h] at hperm
    exact hperm.symm.trans hperm'
  · exact mergeSort_eq_of_perm fun a b => decide_eq_true_iff

theorem isName_sortedNames {names : List String} (h : ∀ name ∈ names, IsName name) :
    ∀ name ∈ sortedNames names, IsName name :=
  fun name hname => h name ((List.mergeSort_perm names _).mem_iff.mp hname)

theorem notMem_joined {names : List String} (h : ∀ name ∈ names, IsName name) :
    '|' ∉ (",".intercalate names).toList := by
  rw [String.toList_intercalate]
  refine notMem_intercalate (by decide) fun part hpart => ?_
  obtain ⟨name, hname, rfl⟩ := List.mem_map.mp hpart
  exact (h name hname).2.2

theorem joined_injective {names names' : List String} (h : ∀ name ∈ names, IsName name)
    (h' : ∀ name ∈ names', IsName name) (heq : ",".intercalate names = ",".intercalate names') :
    names = names' := by
  have hparts : ∀ {names : List String}, (∀ name ∈ names, IsName name) →
      ∀ part ∈ names.map String.toList, part ≠ [] ∧ ',' ∉ part := by
    intro names h part hpart
    obtain ⟨name, hname, rfl⟩ := List.mem_map.mp hpart
    exact ⟨(h name hname).1, (h name hname).2.1⟩
  have hlists := congrArg String.toList heq
  rw [String.toList_intercalate, String.toList_intercalate] at hlists
  have hnames := intercalate_injective (hparts h) (hparts h') hlists
  exact List.map_injective_iff.mpr (fun _ _ => String.toList_inj.mp) hnames

/-! ## The offset -/

theorem notMem_offsetText (offset : Option Int) : '|' ∉ (offsetText offset).toList := by
  cases offset with
  | none => decide
  | some ms => exact notMem_toString (by decide) rfl ms

theorem toString_ne_none (ms : Int) : toString ms ≠ "None" := by
  intro h
  have hnone : 'N' ∈ (toString ms).toList := by
    rw [h]
    decide
  exact notMem_toString (by decide) rfl ms hnone

theorem offsetText_injective : Function.Injective offsetText := by
  intro offset offset' h
  match offset, offset' with
  | none, none => rfl
  | none, some ms => exact absurd h.symm (toString_ne_none ms)
  | some ms, none => exact absurd h (toString_ne_none ms)
  | some ms, some ms' =>
    have hread := congrArg (fun text => readInt (String.toList text)) h
    exact congrArg some ((readInt_toString ms).symm.trans (hread.trans (readInt_toString ms')))

/-! ## The identity, read back -/

/-- From the right end the separators are the last four bars. -/
theorem runText_cut {url only companies locations offset : String} :
    ("|".intercalate [url, only, companies, locations, offset]).toList =
      (((url.toList ++ '|' :: only.toList) ++ '|' :: companies.toList) ++ '|' :: locations.toList) ++
        '|' :: offset.toList := by
  rw [String.toList_intercalate]
  simp [List.intercalate]

variable {xxh64 : List UInt8 → String}

theorem edsHash_injective (hdigest : Digest xxh64) : Function.Injective (edsHash xxh64) :=
  fun _ _ h => String.toList_inj.mp (utf8_injective (hdigest.injective h))

theorem Scope.runId_eq_iff (hdigest : Digest xxh64) (s t : Scope) :
    s.runId xxh64 = t.runId xxh64 ↔ s.Same t := by
  constructor
  · intro h
    have htext := congrArg String.toList (edsHash_injective hdigest h)
    rw [runText_cut, runText_cut] at htext
    obtain ⟨htext, hoffset⟩ := rcut_unique (notMem_offsetText _) (notMem_offsetText _) htext
    obtain ⟨htext, hlocations⟩ := rcut_unique (notMem_joined (isName_sortedNames s.location_names))
      (notMem_joined (isName_sortedNames t.location_names)) htext
    obtain ⟨htext, hcompanies⟩ := rcut_unique (notMem_joined (isName_sortedNames s.company_names))
      (notMem_joined (isName_sortedNames t.company_names)) htext
    obtain ⟨hurl, honly⟩ := rcut_unique (notMem_joined (isName_sortedNames s.only_names))
      (notMem_joined (isName_sortedNames t.only_names)) htext
    have hperm : ∀ {names names' : List String}, (∀ name ∈ names, IsName name) →
        (∀ name ∈ names', IsName name) → (",".intercalate (sortedNames names)).toList =
          (",".intercalate (sortedNames names')).toList → names.Perm names' :=
      fun hnames hnames' hjoined => sortedNames_eq_iff.mp
        (joined_injective (isName_sortedNames hnames) (isName_sortedNames hnames')
          (String.toList_inj.mp hjoined))
    exact ⟨⟨String.toList_inj.mp hurl, offsetText_injective (String.toList_inj.mp hoffset)⟩,
      hperm s.only_names t.only_names honly, hperm s.company_names t.company_names hcompanies,
      hperm s.location_names t.location_names hlocations⟩
  · rintro ⟨⟨hurl, hoffset⟩, honly, hcompanies, hlocations⟩
    rw [Scope.runId, Scope.runId, computeRunId, computeRunId, hurl, hoffset,
      sortedNames_eq_iff.mpr honly, sortedNames_eq_iff.mpr hcompanies,
      sortedNames_eq_iff.mpr hlocations]

theorem progressKey_toList (runId table : String) :
    (progressKey runId table).toList = "import-progress:".toList ++ (runId.toList ++ ':' :: table.toList) := by
  have hkey : progressKey runId table = "import-progress:" ++ runId ++ ":" ++ table := rfl
  rw [hkey, String.toList_append, String.toList_append, String.toList_append, List.append_assoc,
    List.append_assoc]
  rfl

/-- The first colon behind `import-progress:` ends the identity. -/
theorem runId_of_progressKey (hdigest : Digest xxh64) {s t : Scope} {table table' : String}
    (h : progressKey (s.runId xxh64) table = progressKey (t.runId xxh64) table') :
    s.runId xxh64 = t.runId xxh64 ∧ table = table' := by
  have hlist := congrArg String.toList h
  rw [progressKey_toList, progressKey_toList] at hlist
  obtain ⟨hid, htable⟩ := cut_unique (hdigest.colon _) (hdigest.colon _) (List.append_cancel_left hlist)
  exact ⟨String.toList_inj.mp hid, String.toList_inj.mp htable⟩

/-- Two runs have one identity if and only if they have the same destination and scope.  So if
every marker in the tracker was written by some run, the markers that a run finds were written by
runs with its destination and scope. -/
theorem computeRunId_eq_iff (xxh64 : List UInt8 → String) (hdigest : Digest xxh64) (s t : Scope) :
    (computeRunId xxh64 s.driverUrl s.only s.companyIds s.locationIds s.timeOffsetMs =
        computeRunId xxh64 t.driverUrl t.only t.companyIds t.locationIds t.timeOffsetMs ↔
      s.Same t) ∧
    ∀ (getKey : String → Bool × String) (Wrote : Scope → String → Prop),
      (∀ key, (getKey key).1 = true → "import-progress:".toList <+: key.toList →
        ∃ t table, key = progressKey (t.runId xxh64) table ∧ Wrote t table) →
      ∀ table, progressMarkerPresent getKey (s.runId xxh64) table = true →
        ∃ t, s.Same t ∧ Wrote t table := by
  refine ⟨Scope.runId_eq_iff hdigest s t, fun getKey Wrote hwritten table hpresent => ?_⟩
  obtain ⟨t, table', hkey, hwrote⟩ := hwritten _ hpresent ⟨_, (progressKey_toList _ _).symm⟩
  obtain ⟨hid, rfl⟩ := runId_of_progressKey hdigest hkey
  exact ⟨t, (Scope.runId_eq_iff hdigest s t).mp hid, hwrote⟩

/-! ## A digest -/

def goldenText : String := "postgres://db|t1,t2|c1,c2|l1|1700000000000"

/-- The digest of one text is the real one; the bytes of the others are moved behind the
hexadecimal digits. -/
def goldenDigest (bytes : List UInt8) : String :=
  if bytes = utf8 goldenText.toList then "bc99597532f1d755"
  else String.ofList (bytes.map fun b => Char.ofNat (b.toNat + 256))

theorem toNat_moved (b : UInt8) : (Char.ofNat (b.toNat + 256)).toNat = b.toNat + 256 := by
  have hlt : b.toNat < 256 := b.toNat_lt
  have hvalid : (b.toNat + 256).isValidChar := Or.inl (by omega)
  rw [Char.ofNat, dif_pos hvalid]
  rfl

theorem moved_injective {b b' : UInt8} (h : Char.ofNat (b.toNat + 256) = Char.ofNat (b'.toNat + 256)) :
    b = b' := by
  have hnat := congrArg Char.toNat h
  rw [toNat_moved, toNat_moved] at hnat
  exact UInt8.toNat_inj.mp (Nat.add_right_cancel hnat)

theorem notMem_moved {c : Char} (hc : c.toNat < 256) (bytes : List UInt8) :
    c ∉ (String.ofList (bytes.map fun b => Char.ofNat (b.toNat + 256))).toList := by
  rw [String.toList_ofList]
  intro hmem
  obtain ⟨b, -, hb⟩ := List.mem_map.mp hmem
  have hcode := toNat_moved b
  rw [hb] at hcode
  omega

theorem digest_golden : Digest goldenDigest where
  injective bytes bytes' h := by
    have hgolden : 'b' ∈ "bc99597532f1d755".toList := by decide
    unfold goldenDigest at h
    split at h <;> split at h
    · next hbytes hbytes' => rw [hbytes, hbytes']
    · rw [h] at hgolden
      exact absurd hgolden (notMem_moved (by decide) bytes')
    · rw [← h] at hgolden
      exact absurd hgolden (notMem_moved (by decide) bytes)
    · have hlists := congrArg String.toList h
      rw [String.toList_ofList, String.toList_ofList] at hlists
      exact List.map_injective_iff.mpr (fun _ _ => moved_injective) hlists
  colon bytes := by
    unfold goldenDigest
    split
    · decide
    · exact notMem_moved (by decide) bytes

theorem computeRunId_golden :
    computeRunId goldenDigest "postgres://db" ["t2", "t1"] ["c2", "c1"] ["l1"] (some 1700000000000) =
      computeRunId goldenDigest "postgres://db" ["t1", "t2"] ["c1", "c2"] ["l1"] (some 1700000000000) :=
  (computeRunId_eq_iff goldenDigest digest_golden
    ⟨"postgres://db", ["t2", "t1"], ["c2", "c1"], ["l1"], some 1700000000000,
      by decide, by decide, by decide⟩
    ⟨"postgres://db", ["t1", "t2"], ["c1", "c2"], ["l1"], some 1700000000000,
      by decide, by decide, by decide⟩).1.mpr
    ⟨⟨rfl, rfl⟩, .swap _ _ _, .swap _ _ _, .refl _⟩

end Import
end Eds
