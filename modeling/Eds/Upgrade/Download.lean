import Eds.Upgrade.Apply

/-!
# The download of a release

`upgrade` fetches an archive and its detached signature, checks the one against the other and copies
the binary out of the archive.  The transport, the signature library and the two archive libraries
are parameters.

`downloaded_verified` says that nothing but bytes of a verified archive ever gets into the file.
-/

namespace Eds
namespace Upgrade

open Effects Effects.Prog Effects.Traced Effects.Stored Util

variable {W D : Type}

abbrev Bytes := List UInt8

/-- What a member of an archive is read as: its pieces, and the exception that the reading ends with,
if it does. -/
structure Stream where
  pieces : List Bytes
  failure : Option Exn

/-- A member, and what opening it gives. -/
structure Member (B : Type) where
  name : String
  body : Except Exn B

/-- The libraries: the `get` of a URL with its retries, `tempfile.mkstemp`, `pgpy` and the two archive
formats.  A tar file is read while it is walked, so that the walk itself may fail, and a member of it
that is not a regular file has no stream. -/
structure Libraries (W : Type) where
  get : String → Prog Exn W Bytes
  mkstemp : Prog Exn W String
  keyFromBlob : String → Except Exn Unit
  signatureFromBlob : Bytes → Except Exn Unit
  keyVerify : String → Bytes → Bytes → Except Exn Bool
  zipMembers : Bytes → Except Exn (List (Member Stream))
  tarMembers : Bytes → Except Exn (List (Except Exn (Member (Option Stream))))

structure UpgradeConfig where
  binaryUrl : String
  signatureUrl : String
  filename : String
  publicKey : String

/-! ## The names of a release -/

/-- `_ARCH_MAP` -/
def archMap : List (String × String) :=
  [("amd64", "x86_64"), ("x86_64", "x86_64"), ("386", "i386"), ("i386", "i386"), ("arm64", "arm64"),
    ("aarch64", "arm64")]

/-- `machine` is `platform.machine().lower()`. -/
def releaseFile (osName machine : String) : String :=
  let arch := (archMap.lookup machine).getD machine
  let ext := if osName = "Windows" then ".zip" else ".tar.gz"
  "eds_" ++ osName ++ "_" ++ arch ++ ext

/-- `build_release_urls` -/
def buildReleaseUrls (osName machine version : String) : String × String :=
  let version := if version.toList.head? = some 'v' then version else "v" ++ version
  let binaryUrl := "https://github.com/shopmonkeyus/eds/releases/download/" ++ version ++ "/" ++
    releaseFile osName machine
  (binaryUrl, binaryUrl ++ ".sig")

def isZipName (name : List Char) : Bool :=
  ['.', 'z', 'i', 'p'].isSuffixOf name && (name.take (name.length - 4)).any (· ≠ '.')

/-- `os.path.splitext(url)[1] == ".zip"`: the ending counts where something other than dots stands
before it in the last part. -/
def isZip (url : String) : Bool := isZipName (basename url.toList)

theorem isZipName_zip {front : List Char} (h : front.any (· ≠ '.') = true) :
    isZipName (front ++ ['.', 'z', 'i', 'p']) = true := by
  have hsuffix : ['.', 'z', 'i', 'p'].isSuffixOf (front ++ ['.', 'z', 'i', 'p']) = true :=
    List.isSuffixOf_iff_suffix.mpr (List.suffix_append front _)
  rw [isZipName, hsuffix, List.length_append, Bool.true_and, List.length_cons, List.length_cons,
    List.length_cons, List.length_singleton, Nat.add_sub_cancel, List.take_left]
  exact h

theorem isZipName_other {front : List Char} {c : Char} (h : c ≠ 'p') : isZipName (front ++ [c]) = false := by
  have hsuffix : ['.', 'z', 'i', 'p'].isSuffixOf (front ++ [c]) = false := by
    refine Bool.eq_false_iff.mpr fun hsuffix => ?_
    obtain ⟨rest, hrest⟩ := List.isSuffixOf_iff_suffix.mp hsuffix
    have hlast := congrArg List.getLast? hrest
    simp at hlast
    exact h hlast.symm
  rw [isZipName, hsuffix, Bool.false_and]

theorem slash_notMem_arch {machine : String} (h : '/' ∉ machine.toList) :
    '/' ∉ ((archMap.lookup machine).getD machine).toList := by
  cases hlookup : archMap.lookup machine with
  | none => exact h
  | some arch =>
    obtain ⟨before, after, heq, _⟩ := List.lookup_eq_some_iff.mp hlookup
    have hall : ∀ p ∈ archMap, '/' ∉ p.2.toList := by decide
    have hmem : (machine, arch) ∈ archMap := heq ▸ List.mem_append_right _ List.mem_cons_self
    exact hall _ hmem

/-- The archive of a release is read as what it is packed as. -/
theorem isZip_release {osName machine : String} (version : String) (hos : '/' ∉ osName.toList)
    (hmachine : '/' ∉ machine.toList) :
    isZip (buildReleaseUrls osName machine version).1 = decide (osName = "Windows") := by
  have harch := slash_notMem_arch hmachine
  have hname : '/' ∉ (releaseFile osName machine).toList := by
    unfold releaseFile
    by_cases hwindows : osName = "Windows"
    · simp [hwindows, harch]
    · simp [hwindows, hos, harch]
  have hbase : isZip (buildReleaseUrls osName machine version).1 =
      isZipName (releaseFile osName machine).toList := by
    have hslash : "/".toList = ['/'] := by simp
    obtain ⟨front, hfront⟩ : ∃ front : String,
        (buildReleaseUrls osName machine version).1 = front ++ "/" ++ releaseFile osName machine := ⟨_, rfl⟩
    rw [isZip, hfront, String.toList_append, String.toList_append, hslash,
      basename_append (.inr ⟨front.toList, rfl⟩) hname]
  rw [hbase, releaseFile, String.toList_append]
  by_cases hwindows : osName = "Windows"
  · rw [if_pos hwindows, decide_eq_true hwindows]
    exact isZipName_zip (by simp)
  · rw [if_neg hwindows, decide_eq_false hwindows]
    have hcut : ".tar.gz".toList = ".tar.g".toList ++ ['z'] := by decide
    rw [hcut, ← List.append_assoc]
    exact isZipName_other (by decide)

/-! ## The upgrade -/

section

variable (lib : Libraries W)

/-- `verify_detached_signature` -/
def verifyDetachedSignature (data signature : Bytes) (publicKey : String) : Except Exn Unit :=
  match (do lib.keyFromBlob publicKey; lib.signatureFromBlob signature : Except Exn Unit) with
  | .error e => .error (if e.isException then .exception s!"error verifying signature data: {e.str}" else e)
  | .ok () =>
    match lib.keyVerify publicKey data signature with
    | .error e => .error (if e.isException then .exception s!"error verifying signature: {e.str}" else e)
    | .ok false => .error (.exception "error in signature verification: signature does not match")
    | .ok true => .ok ()

end

def raised {W D α : Type} (e : Exn) : UpgradeProg W D α := raise (.raised e)

section

variable [DecidableEq D] (os : Os W D)

/-- `with open(path, "wb") as out: shutil.copyfileobj(src, out)` -/
def saveStream (path : String) (stream : Stream) : UpgradeProg W D Unit := do
  openWrite os path
  ensure
    (do
      each (write os path) stream.pieces
      match stream.failure with
      | some e => raised e
      | none => pure ())
    (close os path)

def saveBytes (path : String) (bytes : Bytes) : UpgradeProg W D Unit :=
  saveStream os path ⟨[bytes], none⟩

/-- The loop over the members of a zip file. -/
def extractZip (path : String) : List (Member Stream) → UpgradeProg W D Unit
  | [] => raised (.exception "no .exe found in archive")
  | info :: rest =>
    if ".exe".toList.isSuffixOf info.name.toList then
      match info.body with
      | .ok stream => saveStream os path stream
      | .error e => raised e
    else extractZip path rest

/-- The loop over the members of a tar file. -/
def extractTar (path : String) :
    List (Except Exn (Member (Option Stream))) → UpgradeProg W D Unit
  | [] => raised (.exception "no eds binary found in archive")
  | .error e :: _ => raised e
  | .ok member :: rest =>
    if member.name = "eds" then
      match member.body with
      | .ok (some stream) => saveStream os path stream
      | .ok none => raised (.exception "eds entry is not a regular file")
      | .error e => raised e
    else extractTar path rest

variable (lib : Libraries W)

/-- `_extract`: the archive is read back from its file. -/
def extract (config : UpgradeConfig) (archive : String) : UpgradeProg W D Unit := do
  let bytes ← read fun files : Files D => ((files (os.entry archive)).map File.content).getD []
  if isZip config.binaryUrl then
    match lib.zipMembers bytes with
    | .error e => raised e
    | .ok members => extractZip os config.filename members
  else
    match lib.tarMembers bytes with
    | .error e => raised e
    | .ok members => do
      extractTar os config.filename members
      chmod os config.filename 0o755

def verified (data signature : Bytes) (publicKey : String) : UpgradeProg W D Unit :=
  match verifyDetachedSignature lib data signature publicKey with
  | .ok () => pure ()
  | .error e => raised e

def upgrade (config : UpgradeConfig) : UpgradeProg W D Unit := do
  let tmp ← outside (lift lib.mkstemp)
  attempt (pure ()) fun files => Function.update files (os.entry tmp) (some ⟨[], 0o600, false⟩)
  ensure
    (do
      let binary ← outside (lift (lib.get config.binaryUrl))
      saveBytes os tmp binary
      let signature ← outside (lift (lib.get config.signatureUrl))
      verified lib binary signature config.publicKey
      extract os lib config tmp)
    (exceptOs (remove os tmp) fun _ => pure ())

end

/-! ## What gets into the file -/

section Verified

variable (os : Os W D) (lib : Libraries W) (config : UpgradeConfig) (start : Files D)

/-- An answer of the server. -/
def Got (url : String) (bytes : Bytes) : Prop := ∃ w w', lib.get url w = (.ok bytes, w')

/-- The bytes of the archive, with a signature of them by the key. -/
def Vouched (binary : Bytes) : Prop :=
  Got lib config.binaryUrl binary ∧ ∃ signature, Got lib config.signatureUrl signature ∧
    lib.keyVerify config.publicKey binary signature = .ok true

/-- The first member with the name of a binary. -/
def Picks (binary : Bytes) (stream : Stream) : Prop :=
  if isZip config.binaryUrl then ∃ before info after,
    lib.zipMembers binary = .ok (before ++ info :: after) ∧
      (∀ m ∈ before, ".exe".toList.isSuffixOf m.name.toList = false) ∧
      ".exe".toList.isSuffixOf info.name.toList = true ∧ info.body = .ok stream
  else ∃ before member after, lib.tarMembers binary = .ok (before ++ .ok member :: after) ∧
    (∀ m ∈ before, ∃ other : Member (Option Stream), m = .ok other ∧ other.name ≠ "eds") ∧
    member.name = "eds" ∧ member.body = .ok (some stream)

/-- Files other than the target and the temporary ones are as they were. -/
def RestKept (files : Files D) : Prop :=
  ∀ e, e ≠ os.entry config.filename →
    (∀ tmp w w', lib.mkstemp w = (.ok tmp, w') → e ≠ os.entry tmp) → files e = start e

/-- The target is as it was, or it holds bytes from the start of a verified binary. -/
def FromVerified (files : Files D) : Prop :=
  RestKept os lib config start files ∧
    (files (os.entry config.filename) = start (os.entry config.filename) ∨
      ∃ binary stream f, Vouched lib config binary ∧ Picks lib config binary stream ∧
        files (os.entry config.filename) = some f ∧ f.content <+: stream.pieces.flatten)

/-- The target holds the whole of a verified binary. -/
def Saved (files : Files D) : Prop :=
  RestKept os lib config start files ∧
    ∃ binary stream f, Vouched lib config binary ∧ Picks lib config binary stream ∧
      stream.failure = none ∧ files (os.entry config.filename) = some f ∧
      f.content = stream.pieces.flatten ∧ (isZip config.binaryUrl = false → f.mode = 0o755)

end Verified

section Saving

variable [DecidableEq D] {os : Os W D} {files : Files D} {path : String} {stream : Stream}
  {C : Files D → Prop}

/-- A file saved from a stream holds what has come of it. -/
theorem keeps_saveStream (hC : ∀ f : File, f.content <+: stream.pieces.flatten →
      C (Function.update files (os.entry path) (some f))) :
    Keeps C (saveStream os path stream)
      (fun _ t => stream.failure = none ∧ ∃ f : File, f.content = stream.pieces.flatten ∧
        t = Function.update files (os.entry path) (some f))
      (fun e t => (∃ err, e = .raised err) ∧ (t = files ∨ ∃ f : File, f.content <+: stream.pieces.flatten ∧
        t = Function.update files (os.entry path) (some f))) files := by
  have hopened : (truncated os.newMode (files (os.entry path))).content = [] := by
    cases files (os.entry path) <;> rfl
  have hraised : ∀ (f : File) (err : Exn), f.content <+: stream.pieces.flatten →
      (∃ err', Raised.raised err = .raised err') ∧
        (Function.update files (os.entry path) (some f) = files ∨
          ∃ g : File, g.content <+: stream.pieces.flatten ∧
            Function.update files (os.entry path) (some f) = Function.update files (os.entry path) (some g)) :=
    fun f err hf => ⟨⟨err, rfl⟩, .inr ⟨f, hf, rfl⟩⟩
  unfold saveStream
  refine (keeps_change (Q := fun _ t => ∃ f : File, f.content = [] ∧
    t = Function.update files (os.entry path) (some f)) ⟨_, hopened, rfl⟩
    (hC _ (hopened ▸ List.nil_prefix)) fun err => ⟨⟨err, rfl⟩, .inl rfl⟩).bind fun _ t ht => ?_
  obtain ⟨f, hf, rfl⟩ := ht
  refine Keeps.ensure (Q := fun _ t => stream.failure = none ∧ ∃ g : File,
      g.content = stream.pieces.flatten ∧ t = Function.update files (os.entry path) (some g))
    (F := fun e t => (∃ err, e = .raised err) ∧ ∃ g : File, g.content <+: stream.pieces.flatten ∧
      t = Function.update files (os.entry path) (some g)) ?_ ?_ ?_
  · -- what is in the file and what is still to come make up the stream
    refine (keeps_each (fun rest u => ∃ g : File, g.content ++ rest.flatten = stream.pieces.flatten ∧
      u = Function.update files (os.entry path) (some g)) (fun chunk rest u hu => ?_) stream.pieces _
      ⟨f, by rw [hf, List.nil_append], rfl⟩).bind fun _ u hu => ?_
    · obtain ⟨g, hg, rfl⟩ := hu
      have hextended : ∀ bytes, extended (os.entry path) bytes (Function.update files (os.entry path) (some g)) =
          Function.update files (os.entry path) (some { g with content := g.content ++ bytes }) := by
        intro bytes
        rw [extended, Function.update_self, Function.update_idem]
        rfl
      have hbegins : ∀ n, g.content ++ chunk.take n <+: stream.pieces.flatten := by
        intro n
        rw [← hg, List.flatten_cons, List.prefix_append_right_inj]
        exact (List.take_prefix n chunk).trans (List.prefix_append _ _)
      refine keeps_write (fun n => ?_) ⟨{ g with content := g.content ++ chunk }, ?_, hextended chunk⟩
        fun n err => ⟨⟨err, rfl⟩, _, hbegins n, hextended _⟩
      · rw [hextended]
        exact hC _ (hbegins n)
      · rw [← hg, List.flatten_cons, List.append_assoc]
    · obtain ⟨g, hg, rfl⟩ := hu
      rw [List.flatten_nil, List.append_nil] at hg
      cases hfailure : stream.failure with
      | none => exact keeps_pure ⟨rfl, g, hg, rfl⟩
      | some e => exact keeps_raise ⟨⟨e, rfl⟩, g, hg ▸ List.prefix_refl _, rfl⟩
  · intro _ u hu
    obtain ⟨hfailure, g, hg, rfl⟩ := hu
    exact keeps_call (fun _ => ⟨hfailure, g, hg, rfl⟩) fun err => hraised g err (hg ▸ List.prefix_refl _)
  · intro e u hu
    obtain ⟨he, g, hg, rfl⟩ := hu
    exact keeps_call (fun _ => ⟨he, .inr ⟨g, hg, rfl⟩⟩) fun err => hraised g err hg

end Saving

section Extraction

variable {os : Os W D} {lib : Libraries W} {config : UpgradeConfig} {start files : Files D}
  {binary : Bytes} {tmp : String}

/-- The target has not been opened yet. -/
def Untouched (os : Os W D) (lib : Libraries W) (config : UpgradeConfig) (start files : Files D) : Prop :=
  RestKept os lib config start files ∧ files (os.entry config.filename) = start (os.entry config.filename)

/-- What an exception of the upgrade leaves. -/
def Broken (os : Os W D) (lib : Libraries W) (config : UpgradeConfig) (start : Files D) (e : Raised)
    (files : Files D) : Prop :=
  (∃ err, e = .raised err) ∧ FromVerified os lib config start files

theorem Untouched.fromVerified (h : Untouched os lib config start files) :
    FromVerified os lib config start files := ⟨h.1, .inl h.2⟩

theorem Untouched.broken (h : Untouched os lib config start files) (err : Exn) :
    Broken os lib config start (.raised err) files := ⟨⟨err, rfl⟩, h.fromVerified⟩

theorem Saved.fromVerified (h : Saved os lib config start files) :
    FromVerified os lib config start files := by
  obtain ⟨hrest, binary, stream, f, hvouched, hpicks, _, hf, hcontent, _⟩ := h
  exact ⟨hrest, .inr ⟨binary, stream, f, hvouched, hpicks, hf, hcontent ▸ List.prefix_refl _⟩⟩

theorem verify_ok {signature : Bytes} {publicKey : String}
    (h : verifyDetachedSignature lib binary signature publicKey = .ok ()) :
    lib.keyVerify publicKey binary signature = .ok true := by
  unfold verifyDetachedSignature at h
  split at h
  · cases h
  · split at h
    · cases h
    · cases h
    · next hverify => exact hverify

variable [DecidableEq D]

theorem RestKept.update_target (h : RestKept os lib config start files) (f : Option File) :
    RestKept os lib config start (Function.update files (os.entry config.filename) f) := by
  intro e he htmp
  rw [Function.update_of_ne he]
  exact h e he htmp

theorem RestKept.update_tmp (h : RestKept os lib config start files) {w w' : W}
    (hmade : lib.mkstemp w = (.ok tmp, w')) (f : Option File) :
    RestKept os lib config start (Function.update files (os.entry tmp) f) := by
  intro e he htmp
  rw [Function.update_of_ne (htmp tmp w w' hmade)]
  exact h e he htmp

theorem FromVerified.removed (h : FromVerified os lib config start files) {w w' : W}
    (hmade : lib.mkstemp w = (.ok tmp, w')) (hne : os.entry tmp ≠ os.entry config.filename) :
    FromVerified os lib config start (Function.update files (os.entry tmp) none) := by
  refine ⟨h.1.update_tmp hmade none, ?_⟩
  rw [Function.update_of_ne hne.symm]
  exact h.2

theorem Saved.removed (h : Saved os lib config start files) {w w' : W}
    (hmade : lib.mkstemp w = (.ok tmp, w')) (hne : os.entry tmp ≠ os.entry config.filename) :
    Saved os lib config start (Function.update files (os.entry tmp) none) := by
  refine ⟨h.1.update_tmp hmade none, ?_⟩
  rw [Function.update_of_ne hne.symm]
  exact h.2

/-- The target, saved from the member that was picked. -/
theorem keeps_picked {stream : Stream} (h : Untouched os lib config start files)
    (hvouched : Vouched lib config binary) (hpicks : Picks lib config binary stream) :
    Keeps (FromVerified os lib config start) (saveStream os config.filename stream)
      (fun _ t => RestKept os lib config start t ∧ stream.failure = none ∧
        ∃ f, t (os.entry config.filename) = some f ∧ f.content = stream.pieces.flatten)
      (Broken os lib config start) files := by
  have hfrom : ∀ f : File, f.content <+: stream.pieces.flatten →
      FromVerified os lib config start (Function.update files (os.entry config.filename) (some f)) :=
    fun f hf => ⟨h.1.update_target _, .inr ⟨binary, stream, f, hvouched, hpicks, Function.update_self ..,
      hf⟩⟩
  refine (keeps_saveStream hfrom).mono (fun _ t ht => ?_) (fun e t ht => ?_)
  · obtain ⟨hfailure, f, hf, rfl⟩ := ht
    exact ⟨h.1.update_target _, hfailure, f, Function.update_self .., hf⟩
  · obtain ⟨he, rfl | ⟨f, hf, rfl⟩⟩ := ht
    · exact ⟨he, h.fromVerified⟩
    · exact ⟨he, hfrom f hf⟩

theorem keeps_extractZip (h : Untouched os lib config start files) (hvouched : Vouched lib config binary)
    (hzip : isZip config.binaryUrl = true) :
    ∀ (rest before : List (Member Stream)), lib.zipMembers binary = .ok (before ++ rest) →
      (∀ m ∈ before, ".exe".toList.isSuffixOf m.name.toList = false) →
      Keeps (FromVerified os lib config start) (extractZip os config.filename rest)
        (fun _ => Saved os lib config start) (Broken os lib config start) files := by
  intro rest
  induction rest with
  | nil => exact fun _ _ _ => keeps_raise (h.broken _)
  | cons info rest ih =>
    intro before hmembers hbefore
    unfold extractZip
    cases hname : ".exe".toList.isSuffixOf info.name.toList with
    | true =>
      rw [if_pos rfl]
      cases hbody : info.body with
      | error e => exact keeps_raise (h.broken e)
      | ok stream =>
        have hpicks : Picks lib config binary stream := by
          unfold Picks
          rw [if_pos hzip]
          exact ⟨before, info, rest, hmembers, hbefore, hname, hbody⟩
        refine (keeps_picked h hvouched hpicks).mono (fun _ t ht => ?_) fun _ _ he => he
        obtain ⟨hrest, hfailure, f, hf, hcontent⟩ := ht
        refine ⟨hrest, binary, stream, f, hvouched, hpicks, hfailure, hf, hcontent, fun hnot => ?_⟩
        rw [hzip] at hnot
        cases hnot
    | false =>
      rw [if_neg (by decide)]
      refine ih (before ++ [info]) (by rw [hmembers, List.append_cons]) fun m hm => ?_
      rcases List.mem_append.mp hm with hm | hm
      · exact hbefore m hm
      · exact List.mem_singleton.mp hm ▸ hname

theorem keeps_extractTar (h : Untouched os lib config start files) (hvouched : Vouched lib config binary)
    (htar : isZip config.binaryUrl = false) :
    ∀ (rest before : List (Except Exn (Member (Option Stream)))),
      lib.tarMembers binary = .ok (before ++ rest) →
      (∀ m ∈ before, ∃ other : Member (Option Stream), m = .ok other ∧ other.name ≠ "eds") →
      Keeps (FromVerified os lib config start) (extractTar os config.filename rest)
        (fun _ t => RestKept os lib config start t ∧ ∃ stream f, Picks lib config binary stream ∧
          stream.failure = none ∧ t (os.entry config.filename) = some f ∧
          f.content = stream.pieces.flatten) (Broken os lib config start) files := by
  intro rest
  induction rest with
  | nil => exact fun _ _ _ => keeps_raise (h.broken _)
  | cons entry rest ih =>
    intro before hmembers hbefore
    unfold extractTar
    cases entry with
    | error e => exact keeps_raise (h.broken e)
    | ok member =>
      simp only
      by_cases hname : member.name = "eds"
      · rw [if_pos hname]
        cases hbody : member.body with
        | error e => exact keeps_raise (h.broken e)
        | ok body =>
          cases body with
          | none => exact keeps_raise (h.broken _)
          | some stream =>
            have hpicks : Picks lib config binary stream := by
              unfold Picks
              rw [htar, if_neg (by decide)]
              exact ⟨before, member, rest, hmembers, hbefore, hname, hbody⟩
            refine (keeps_picked h hvouched hpicks).mono (fun _ t ht => ?_) fun _ _ he => he
            obtain ⟨hrest, hfailure, f, hf, hcontent⟩ := ht
            exact ⟨hrest, stream, f, hpicks, hfailure, hf, hcontent⟩
      · rw [if_neg hname]
        refine ih (before ++ [.ok member]) (by rw [hmembers, List.append_cons]) fun m hm => ?_
        rcases List.mem_append.mp hm with hm | hm
        · exact hbefore m hm
        · exact ⟨member, List.mem_singleton.mp hm, hname⟩

theorem keeps_extract (h : Untouched os lib config start files) (hvouched : Vouched lib config binary)
    (harchive : ((files (os.entry tmp)).map File.content).getD [] = binary) :
    Keeps (FromVerified os lib config start) (extract os lib config tmp)
      (fun _ => Saved os lib config start) (Broken os lib config start) files := by
  unfold extract
  refine (keeps_read (Q := fun bytes t => bytes = binary ∧ t = files) ⟨harchive, rfl⟩).bind
    fun bytes t ht => ?_
  obtain ⟨rfl, rfl⟩ := ht
  cases hzip : isZip config.binaryUrl with
  | true =>
    rw [if_pos rfl]
    cases hmembers : lib.zipMembers bytes with
    | error e => exact keeps_raise (h.broken e)
    | ok members => exact keeps_extractZip h hvouched hzip members [] hmembers fun _ hm => nomatch hm
  | false =>
    rw [if_neg (by decide)]
    cases hmembers : lib.tarMembers bytes with
    | error e => exact keeps_raise (h.broken e)
    | ok members =>
      refine (keeps_extractTar h hvouched hzip members [] hmembers fun _ hm => nomatch hm).bind
        fun _ u hu => ?_
      obtain ⟨hrest, stream, f, hpicks, hfailure, hf, hcontent⟩ := hu
      have hsaved : Saved os lib config start (Function.update u (os.entry config.filename)
          ((u (os.entry config.filename)).map fun g => { g with mode := 0o755 })) := by
        refine ⟨hrest.update_target _, bytes, stream, { f with mode := 0o755 }, hvouched, hpicks, hfailure,
          ?_, hcontent, fun _ => rfl⟩
        rw [Function.update_self, hf]
        rfl
      have hbroken : ∀ err, Broken os lib config start (.raised err) u :=
        fun err => ⟨⟨err, rfl⟩, hrest, .inr ⟨bytes, stream, f, hvouched, hpicks, hf,
          hcontent ▸ List.prefix_refl _⟩⟩
      exact keeps_withFile (fun _ _ => keeps_change hsaved hsaved.fromVerified hbroken) hbroken

/-- The removal of the archive, whatever becomes of it. -/
theorem keeps_cleanup {I : Files D → Prop} {E : Raised → Files D → Prop} (h : I files)
    (hI : ∀ t, I t → FromVerified os lib config start t ∧ I (Function.update t (os.entry tmp) none))
    (hE : ∀ err t, I t → E (.raised err) t) :
    Keeps (FromVerified os lib config start) (exceptOs (remove os tmp) fun _ => pure ()) (fun _ => I) E
      files := by
  refine keeps_exceptOs (F := fun _ => I) ?_ (fun _ _ ht _ => keeps_pure ht) (fun err t ht _ => hE err t ht)
  refine keeps_withFile (fun _ _ => keeps_change (hI files h).2 ?_ fun err => ⟨err, rfl, h⟩)
    fun err => ⟨err, rfl, h⟩
  exact (hI _ (hI files h).2).1

end Extraction

section Upgraded

variable [DecidableEq D]

/-- Whatever the server sends and whatever fails, the target and the archive's own file are the only
files that change, and what is in the target is the start of the binary out of an archive whose signature
was verified; an upgrade that returns leaves all of that binary, ready to run. -/
theorem downloaded_verified (os : Os W D) (lib : Libraries W) (config : UpgradeConfig) (start : Files D)
    (w : W) (hfresh : ∀ tmp w w', lib.mkstemp w = (.ok tmp, w') → os.entry tmp ≠ os.entry config.filename) :
    let run := upgrade os lib config ⟨start, w, []⟩
    (∀ files ∈ run.2.trace, FromVerified os lib config start files) ∧
      (∀ u, run.1 = .ok u → Saved os lib config start run.2.vars) ∧
      ∀ e, run.1 = .error e → FromVerified os lib config start run.2.vars := by
  intro run
  have hstart : Untouched os lib config start start := ⟨fun _ _ _ => rfl, rfl⟩
  have hkeeps : Keeps (FromVerified os lib config start) (upgrade os lib config)
      (fun _ => Saved os lib config start) (Broken os lib config start) start := by
    unfold upgrade
    refine (keeps_answer (Q := fun tmp t => t = start ∧ ∃ w w', lib.mkstemp w = (.ok tmp, w'))
      (fun tmp w w' h => ⟨rfl, w, w', h⟩) hstart.broken).bind fun tmp t ht => ?_
    obtain ⟨ht, v, v', hmade⟩ := ht
    have hne := hfresh tmp v v' hmade
    have htmp : ∀ (t : Files D) (f : Option File), Untouched os lib config start t →
        Untouched os lib config start (Function.update t (os.entry tmp) f) := by
      intro t f ht
      refine ⟨ht.1.update_tmp hmade f, ?_⟩
      rw [Function.update_of_ne hne.symm]
      exact ht.2
    have hcreated := htmp start (some ⟨[], 0o600, false⟩) hstart
    rw [ht]
    refine (keeps_attempt (Q := fun _ => Untouched os lib config start) hcreated hcreated.fromVerified
      fun e w w' h => by cases h).bind fun _ u hu => ?_
    refine Keeps.ensure (Q := fun _ => Saved os lib config start) (F := Broken os lib config start) ?_ ?_ ?_
    · refine (keeps_answer (Q := fun binary x => Got lib config.binaryUrl binary ∧
        Untouched os lib config start x) (fun binary w w' h => ⟨⟨w, w', h⟩, hu⟩) hu.broken).bind
        fun binary x hx => ?_
      obtain ⟨hbinary, hx⟩ := hx
      refine Keeps.bind (Q := fun _ y => Untouched os lib config start y ∧
        ((y (os.entry tmp)).map File.content).getD [] = binary) ?_ fun _ y hy => ?_
      · refine (keeps_saveStream fun f _ => (htmp x (some f) hx).fromVerified).mono (fun _ y hy => ?_)
          fun e y hy => ?_
        · obtain ⟨_, f, hf, rfl⟩ := hy
          refine ⟨htmp x _ hx, ?_⟩
          rw [Function.update_self, Option.map_some, Option.getD_some, hf, List.flatten_singleton]
        · obtain ⟨he, rfl | ⟨f, _, rfl⟩⟩ := hy
          · exact ⟨he, hx.fromVerified⟩
          · exact ⟨he, (htmp x _ hx).fromVerified⟩
      · refine (keeps_answer (Q := fun signature z => Got lib config.signatureUrl signature ∧ z = y)
          (fun signature w w' h => ⟨⟨w, w', h⟩, rfl⟩) hy.1.broken).bind fun signature z hz => ?_
        obtain ⟨hsignature, hz⟩ := hz
        rw [hz]
        refine Keeps.bind (Q := fun _ z => z = y ∧ Vouched lib config binary) ?_ fun _ z hz => ?_
        · unfold verified
          cases hverify : verifyDetachedSignature lib binary signature config.publicKey with
          | ok _ => exact keeps_pure ⟨rfl, hbinary, signature, hsignature, verify_ok hverify⟩
          | error e => exact keeps_raise (hy.1.broken e)
        · rw [hz.1]
          exact keeps_extract hy.1 hz.2 hy.2
    · exact fun _ x hx => keeps_cleanup hx (fun y hy => ⟨hy.fromVerified, hy.removed hmade hne⟩)
        fun err y hy => ⟨⟨err, rfl⟩, hy.fromVerified⟩
    · intro e x hx
      refine keeps_cleanup (I := Broken os lib config start e) hx (fun y hy => ⟨hy.2, hy.1, ?_⟩)
        fun err y hy => ⟨⟨err, rfl⟩, hy.2⟩
      exact hy.2.removed hmade hne
  refine ⟨hkeeps.passed w, fun u hu => ?_, fun e he => ?_⟩
  · exact (wp_ok (hkeeps w []) (Prod.ext hu rfl)).1
  · exact (wp_error (hkeeps w []) (Prod.ext he rfl)).1.2

end Upgraded

theorem chunkSize_pos : 0 < 65536 := Nat.succ_pos 65535

/-- A system where nothing fails, a server with one release, and a key that signs it. -/
def calm : Os Unit String :=
  ⟨id, false, 0o644, 65536, chunkSize_pos, fun _ => pure (), fun _ chunk => pure chunk.length⟩

def oneRelease : Libraries Unit where
  get url := pure (if url = "https://eds/eds.tar.gz" then [31, 139] else [4])
  mkstemp := pure "/tmp/eds1"
  keyFromBlob _ := .ok ()
  signatureFromBlob _ := .ok ()
  keyVerify _ data signature := .ok (data == [31, 139] && signature == [4])
  zipMembers _ := .error (.exception "File is not a zip file")
  tarMembers _ := .ok [.ok ⟨"README.md", .ok none⟩, .ok ⟨"eds", .ok (some ⟨[[7], [8, 9]], none⟩)⟩]

def oneConfig : UpgradeConfig := ⟨"https://eds/eds.tar.gz", "https://eds/eds.tar.gz.sig", "eds-new", "key"⟩

theorem downloaded_verified_release :
    calm.entry "/tmp/eds1" ≠ calm.entry oneConfig.filename ∧
      (upgrade calm oneRelease oneConfig ⟨fun _ => none, (), []⟩).1 = .ok () ∧
        Saved calm oneRelease oneConfig (fun _ => none)
          (upgrade calm oneRelease oneConfig ⟨fun _ => none, (), []⟩).2.vars := by
  have hne : calm.entry "/tmp/eds1" ≠ calm.entry oneConfig.filename := by decide +kernel
  have hok : (upgrade calm oneRelease oneConfig ⟨fun _ => none, (), []⟩).1 = .ok () := by rfl
  refine ⟨hne, hok, (downloaded_verified calm oneRelease oneConfig (fun _ => none) () ?_).2.1 () hok⟩
  intro tmp w w' h
  cases h
  exact hne

end Upgrade
end Eds
