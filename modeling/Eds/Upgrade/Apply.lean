import Eds.Effects.Interrupted
import Eds.Importer.Run
import Eds.Util.Paths

/-!
# The swap of the binary

`apply` copies the new binary beside the old one, moves the old one out of the way, moves the new one
to its place and removes the old one.  Each call of the system can fail, and the process can be
killed between any two of them.

`apply_survives` says what is left then: a complete binary at the target, or, where the two moves
that take it away and put it back both went wrong, complete copies of both beside it.
-/

namespace Eds
namespace Upgrade

open Effects Effects.Prog Effects.Traced Effects.Stored Util

variable {W D : Type}

structure File where
  content : List UInt8
  mode : Nat
  hidden : Bool
  deriving DecidableEq, Repr

/-- A file is found in the directory that its path names, under its last part. -/
abbrev Entry (D : Type) := D × String

abbrev Files (D : Type) := Entry D → Option File

/-- The calls of the system that can fail although the file is there. -/
inductive Call where
  | openRead (path : String)
  | openWrite (path : String)
  | read (path : String)
  | write (path : String)
  | close (path : String)
  | chmod (path : String)
  | remove (path : String)
  | replace (src dst : String)
  | hide (path : String)
  deriving DecidableEq, Repr

/-- The system: which directory a path names, the mode of a new file, the size of a copied chunk,
and what goes wrong.  `reaches` is how much of a chunk is in the file before the call that writes it
ends. -/
structure Os (W D : Type) where
  directory : String → D
  windows : Bool
  newMode : Nat
  bufferSize : Nat
  buffered : 0 < bufferSize
  permits : Call → Prog Exn W Unit
  reaches : String → List UInt8 → Prog Exn W Nat

/-- `RollbackError`, and every other exception. -/
inductive Raised where
  | raised (e : Exn)
  | rollback (original rollback : Exn)

/-- `rollback_error` -/
def rollbackError : Option Raised → Option Exn
  | some (.rollback _ rerr) => some rerr
  | _ => none

abbrev UpgradeProg (W D α : Type) := Prog Raised (Stored (Files D) W) α

def lift {α : Type} (p : Prog Exn W α) : Prog Raised W α := fun w =>
  match p w with
  | (.ok a, w') => (.ok a, w')
  | (.error e, w') => (.error (.raised e), w')

/-- `except OSError as err` -/
def exceptOs (p : UpgradeProg W D Unit) (h : Exn → UpgradeProg W D Unit) : UpgradeProg W D Unit :=
  handle p fun e =>
    match e with
    | .raised err => if Importer.isOsError err then h err else raise (.raised err)
    | .rollback err rerr => raise (.rollback err rerr)

/-! ## Calls of the system -/

def truncated (newMode : Nat) : Option File → File
  | some f => { f with content := [] }
  | none => ⟨[], newMode, false⟩

section Changes

variable [DecidableEq D]

/-- Write at the end of a file. -/
def extended (entry : Entry D) (bytes : List UInt8) (files : Files D) : Files D :=
  Function.update files entry ((files entry).map fun f => { f with content := f.content ++ bytes })

def moved (src dst : Entry D) (files : Files D) : Files D :=
  if src = dst then files else Function.update (Function.update files dst (files src)) src none

end Changes

/-- The pieces that a file is read in. -/
def chunks (size : Nat) : Nat → List UInt8 → List (List UInt8)
  | 0, _ => []
  | fuel + 1, bytes =>
    if bytes = [] then [] else bytes.take size :: chunks size fuel (bytes.drop size)

section

variable [DecidableEq D] (os : Os W D)

def Os.entry (path : String) : Entry D := (os.directory (dirname path), fileName path)

/-- A call on a file that must be there. -/
def withFile (path : String) (p : UpgradeProg W D Unit) : UpgradeProg W D Unit := do
  let found ← read fun files : Files D => (files (os.entry path)).isSome
  if found then p else raise (.raised (.osError (some 2) path))

def openRead (path : String) : UpgradeProg W D Unit :=
  withFile os path (outside (lift (os.permits (.openRead path))))

def openWrite (path : String) : UpgradeProg W D Unit :=
  attempt (lift (os.permits (.openWrite path))) fun files =>
    Function.update files (os.entry path) (some (truncated os.newMode (files (os.entry path))))

def close (path : String) : UpgradeProg W D Unit := outside (lift (os.permits (.close path)))

/-- `dst.write(chunk)`: a call that fails may have written a part. -/
def write (path : String) (chunk : List UInt8) : UpgradeProg W D Unit := do
  let n ← outside (lift (os.reaches path chunk))
  attempt (pure ()) (extended (os.entry path) (chunk.take n))
  attempt (lift (os.permits (.write path))) (extended (os.entry path) (chunk.drop n))

/-- `shutil.copyfileobj`; the last read is the one that finds the end. -/
def copyfileobj (src dst : String) : UpgradeProg W D Unit := do
  let content ← read fun files : Files D => ((files (os.entry src)).map File.content).getD []
  each (fun chunk => do outside (lift (os.permits (.read src))); write os dst chunk)
    (chunks os.bufferSize content.length content)
  outside (lift (os.permits (.read src)))

def chmod (path : String) (mode : Nat) : UpgradeProg W D Unit :=
  withFile os path (attempt (lift (os.permits (.chmod path))) fun files =>
    Function.update files (os.entry path)
      ((files (os.entry path)).map fun f => { f with mode := mode }))

def remove (path : String) : UpgradeProg W D Unit :=
  withFile os path (attempt (lift (os.permits (.remove path))) fun files =>
    Function.update files (os.entry path) none)

def replace (src dst : String) : UpgradeProg W D Unit :=
  withFile os src (attempt (lift (os.permits (.replace src dst)))
    (moved (os.entry src) (os.entry dst)))

/-- `_hide_file` -/
def hideFile (path : String) : UpgradeProg W D Unit :=
  if os.windows then
    attempt (lift (os.permits (.hide path))) fun files =>
      Function.update files (os.entry path)
        ((files (os.entry path)).map fun f => { f with hidden := true })
  else pure ()

/-! ## The swap -/

def newPath (target : String) : String :=
  Schema.pathJoin (dirname target) ("." ++ fileName target ++ ".new")

def oldPath (target : String) : String :=
  Schema.pathJoin (dirname target) ("." ++ fileName target ++ ".old")

/-- `_prepare_and_check_binary` -/
def prepareAndCheckBinary (target source : String) : UpgradeProg W D Unit := do
  openRead os source
  ensure
    (do
      openWrite os (newPath target)
      ensure (copyfileobj os source (newPath target)) (close os (newPath target)))
    (close os source)
  chmod os (newPath target) 0o755

/-- The way back, after `err` kept the new binary from its place. -/
def rollBack (target : String) (err : Exn) : UpgradeProg W D Unit := do
  exceptOs (replace os (oldPath target) target) fun rerr => raise (.rollback err rerr)
  raise (.raised err)

/-- `_commit_binary` -/
def commitBinary (target : String) : UpgradeProg W D Unit := do
  exceptOs (remove os (oldPath target)) fun _ => pure ()
  replace os target (oldPath target)
  exceptOs (replace os (newPath target) target) (rollBack os target)
  exceptOs (remove os (oldPath target)) fun _ =>
    exceptOs (hideFile os (oldPath target)) fun _ => pure ()

def apply (target source : String) : UpgradeProg W D Unit := do
  prepareAndCheckBinary os target source
  commitBinary os target

end

/-! ## What a call does -/

section Calls

variable {os : Os W D} {C : Files D → Prop} {Q : Unit → Files D → Prop} {E : Raised → Files D → Prop}
  {files : Files D} {path : String}

theorem lift_error {α : Type} {p : Prog Exn W α} {w w' : W} {e : Raised}
    (h : lift p w = (.error e, w')) : ∃ err, e = .raised err := by
  unfold lift at h
  split at h
  · cases h
  · cases h
    exact ⟨_, rfl⟩

theorem lift_ok {α : Type} {p : Prog Exn W α} {w w' : W} {a : α} (h : lift p w = (.ok a, w')) :
    p w = (.ok a, w') := by
  unfold lift at h
  split at h
  · next hp =>
    cases h
    exact hp
  · cases h

/-- A call whose answer is used: it is one that the call gives in some state of the world. -/
theorem keeps_answer {α : Type} {p : Prog Exn W α} {Q : α → Files D → Prop}
    (hQ : ∀ a w w', p w = (.ok a, w') → Q a files) (hE : ∀ err, E (.raised err) files) :
    Keeps C (outside (lift p)) Q E files := by
  refine keeps_outside (fun a w w' h => hQ a w w' (lift_ok h)) fun e w w' h => ?_
  obtain ⟨err, rfl⟩ := lift_error h
  exact hE err

theorem keeps_call {α : Type} {p : Prog Exn W α} {Q : α → Files D → Prop} (hQ : ∀ a, Q a files)
    (hE : ∀ err, E (.raised err) files) : Keeps C (outside (lift p)) Q E files :=
  keeps_answer (fun a _ _ _ => hQ a) hE

theorem keeps_change {p : Prog Exn W Unit} {change : Files D → Files D} (hQ : Q () (change files))
    (hC : C (change files)) (hE : ∀ err, E (.raised err) files) :
    Keeps C (attempt (lift p) change) Q E files := by
  refine keeps_attempt hQ hC fun e w w' h => ?_
  obtain ⟨err, rfl⟩ := lift_error h
  exact hE err

theorem keeps_withFile {p : UpgradeProg W D Unit}
    (hp : ∀ f, files (os.entry path) = some f → Keeps C p Q E files)
    (hE : ∀ err, E (.raised err) files) : Keeps C (withFile os path p) Q E files := by
  unfold withFile
  refine (keeps_read (Q := fun found t => found = (t (os.entry path)).isSome ∧ t = files)
    ⟨rfl, rfl⟩).bind fun found t ht => ?_
  obtain ⟨rfl, rfl⟩ := ht
  cases hfile : t (os.entry path) with
  | none => exact keeps_raise (hE _)
  | some f => exact hp f hfile

theorem keeps_exceptOs {p : UpgradeProg W D Unit} {h : Exn → UpgradeProg W D Unit}
    {F : Exn → Files D → Prop}
    (hp : Keeps C p Q (fun e t => ∃ err, e = .raised err ∧ F err t) files)
    (hos : ∀ err t, F err t → Importer.isOsError err = true → Keeps C (h err) Q E t)
    (hother : ∀ err t, F err t → Importer.isOsError err = false → E (.raised err) t) :
    Keeps C (exceptOs p h) Q E files := by
  unfold exceptOs
  refine hp.handle fun e t ht => ?_
  obtain ⟨err, rfl, hF⟩ := ht
  simp only
  cases hclass : Importer.isOsError err with
  | true => exact hos err t hF hclass
  | false => exact keeps_raise (hother err t hF hclass)

/-- A write puts the whole chunk at the end, in two steps. -/
theorem keeps_write [DecidableEq D] {chunk : List UInt8}
    (hC : ∀ n, C (extended (os.entry path) (chunk.take n) files))
    (hQ : Q () (extended (os.entry path) chunk files))
    (hE : ∀ n err, E (.raised err) (extended (os.entry path) (chunk.take n) files)) :
    Keeps C (write os path chunk) Q E files := by
  have htwice : ∀ n, extended (os.entry path) (chunk.drop n)
      (extended (os.entry path) (chunk.take n) files) = extended (os.entry path) chunk files := by
    intro n
    unfold extended
    rw [Function.update_self, Function.update_idem, Option.map_map]
    congr 2
    funext f
    simp only [Function.comp_apply, List.append_assoc, List.take_append_drop]
  have hsame : extended (os.entry path) (chunk.take 0) files = files := by
    unfold extended
    rw [Function.update_eq_self_iff, List.take_zero]
    cases files (os.entry path) with
    | none => rfl
    | some f => rw [Option.map_some, List.append_nil]
  refine (keeps_call (Q := fun _ t => t = files) (fun _ => rfl)
    (fun err => hsame ▸ hE 0 err)).bind fun n t ht => ?_
  rw [ht]
  refine (keeps_attempt (Q := fun _ t => t = extended (os.entry path) (chunk.take n) files) rfl (hC n)
    fun e w w' h => by cases h).bind fun _ u hu => ?_
  rw [hu]
  refine keeps_change ?_ ?_ (hE n)
  · rw [htwice]
    exact hQ
  · rw [htwice]
    have hwhole := hC chunk.length
    rwa [List.take_length] at hwhole

end Calls

/-! ## What is left -/

/-- The new binary, ready to run. -/
def Installed (content : List UInt8) (f : Option File) : Prop :=
  ∃ g, f = some g ∧ g.content = content ∧ g.mode = 0o755

section Swap

variable (os : Os W D) (target : String) (content : List UInt8) (start : Files D)

/-- Files other than the three of the swap are as they were. -/
def OthersKept (files : Files D) : Prop :=
  ∀ e, e ≠ os.entry target → e ≠ os.entry (newPath target) → e ≠ os.entry (oldPath target) →
    files e = start e

/-- Both binaries stand beside the target, where neither is. -/
def Stranded (files : Files D) : Prop :=
  files (os.entry target) = none ∧ (start (os.entry target)).isSome = true ∧
    files (os.entry (oldPath target)) = start (os.entry target) ∧
    Installed content (files (os.entry (newPath target)))

/-- There is a complete binary. -/
def Survives (files : Files D) : Prop :=
  OthersKept os target start files ∧
    (files (os.entry target) = start (os.entry target) ∨ Stranded os target content start files ∨
      Installed content (files (os.entry target)))

/-- What an exception says about the files. -/
def Explained (e : Raised) (files : Files D) : Prop :=
  ((rollbackError (some e)).isSome = true → Stranded os target content start files) ∧
    ∀ err, e = .raised err → Importer.isOsError err = true →
      files (os.entry target) = start (os.entry target)

end Swap

section Proofs

variable {os : Os W D} {target source : String} {content : List UInt8} {start files : Files D}

theorem entry_beside (name : String) (h : '/' ∉ name.toList) :
    os.entry (Schema.pathJoin (dirname target) name) = (os.directory (dirname target), name) := by
  rw [Os.entry, dirname_pathJoin (plain_dirname target) h, fileName_pathJoin h]

theorem slash_notMem_staged {ending : String} (h : '/' ∉ ending.toList) :
    '/' ∉ ("." ++ fileName target ++ ending).toList := by
  simp [slash_notMem_fileName, h]

theorem newPath_entry :
    os.entry (newPath target) = (os.directory (dirname target), "." ++ fileName target ++ ".new") :=
  entry_beside _ (slash_notMem_staged (by decide))

theorem oldPath_entry :
    os.entry (oldPath target) = (os.directory (dirname target), "." ++ fileName target ++ ".old") :=
  entry_beside _ (slash_notMem_staged (by decide))

theorem length_ne {name ending : String} : name ≠ "." ++ name ++ ending := by
  intro h
  have hlen := congrArg (fun s => s.toList.length) h
  simp at hlen
  omega

/-- The three paths of the swap are three files. -/
theorem entries_ne : os.entry target ≠ os.entry (newPath target) ∧
    os.entry target ≠ os.entry (oldPath target) ∧
    os.entry (newPath target) ≠ os.entry (oldPath target) := by
  rw [newPath_entry, oldPath_entry]
  refine ⟨fun h => ?_, fun h => ?_, fun h => ?_⟩
  · exact length_ne (congrArg Prod.snd h)
  · exact length_ne (congrArg Prod.snd h)
  · have hends := congrArg (fun s => s.toList) (congrArg Prod.snd h)
    simp at hends

theorem chunks_flatten {size : Nat} (hsize : 0 < size) :
    ∀ (fuel : Nat) (bytes : List UInt8), bytes.length ≤ fuel → (chunks size fuel bytes).flatten = bytes := by
  intro fuel
  induction fuel with
  | zero =>
    intro bytes h
    exact (List.eq_nil_of_length_eq_zero (Nat.le_zero.mp h)).symm
  | succ fuel ih =>
    intro bytes h
    rw [chunks]
    by_cases hnil : bytes = []
    · rw [if_pos hnil, hnil]
      rfl
    · have hpos := List.length_pos_iff.mpr hnil
      have hrest : (bytes.drop size).length ≤ fuel := by
        rw [List.length_drop]
        omega
      rw [if_neg hnil, List.flatten_cons, ih _ hrest, List.take_append_drop]

/-- Only the file that is being staged has changed. -/
def Staging (os : Os W D) (target : String) (start files : Files D) : Prop :=
  ∀ e, e ≠ os.entry (newPath target) → files e = start e

theorem Staging.survives (h : Staging os target start files) : Survives os target content start files := by
  refine ⟨fun e _ hnew _ => h e hnew, .inl (h _ entries_ne.1)⟩

/-- An exception of the staging leaves the target alone. -/
def Failing (os : Os W D) (target : String) (start : Files D) (e : Raised) (files : Files D) : Prop :=
  Staging os target start files ∧ ∃ err, e = .raised err

theorem Staging.failing (h : Staging os target start files) (err : Exn) :
    Failing os target start (.raised err) files := ⟨h, err, rfl⟩

theorem Failing.explained {e : Raised} (h : Failing os target start e files) :
    OthersKept os target start files ∧ Explained os target content start e files := by
  obtain ⟨hkept, err, rfl⟩ := h
  exact ⟨fun e _ hnew _ => hkept e hnew, (fun h => by cases h), fun _ _ _ => hkept _ entries_ne.1⟩

/-- The file being staged, with `bytes` in it. -/
def Holds (os : Os W D) (target : String) (bytes : List UInt8) (files : Files D) : Prop :=
  ∃ f, files (os.entry (newPath target)) = some f ∧ f.content = bytes

/-- The new binary is staged, the old one in its place. -/
def Ready (os : Os W D) (target : String) (content : List UInt8) (start files : Files D) : Prop :=
  OthersKept os target start files ∧ files (os.entry target) = start (os.entry target) ∧
    Installed content (files (os.entry (newPath target)))

/-- Neither binary is in its place. -/
def Away (os : Os W D) (target : String) (content : List UInt8) (start files : Files D) : Prop :=
  OthersKept os target start files ∧ Stranded os target content start files

/-- The new binary is in its place. -/
def Done (os : Os W D) (target : String) (content : List UInt8) (start files : Files D) : Prop :=
  OthersKept os target start files ∧ Installed content (files (os.entry target)) ∧
    files (os.entry (newPath target)) = none

theorem Ready.survives (h : Ready os target content start files) : Survives os target content start files :=
  ⟨h.1, .inl h.2.1⟩

theorem Away.survives (h : Away os target content start files) : Survives os target content start files :=
  ⟨h.1, .inr (.inl h.2)⟩

theorem Done.survives (h : Done os target content start files) : Survives os target content start files :=
  ⟨h.1, .inr (.inr h.2.1)⟩

/-- What an exception leaves, with the reason that it leaves it. -/
def Left (os : Os W D) (target : String) (content : List UInt8) (start : Files D) (e : Raised)
    (files : Files D) : Prop :=
  OthersKept os target start files ∧ Explained os target content start e files

theorem left_of_target {err : Exn} (hothers : OthersKept os target start files)
    (h : files (os.entry target) = start (os.entry target)) :
    Left os target content start (.raised err) files :=
  ⟨hothers, (fun h => by cases h), fun _ _ _ => h⟩

theorem left_of_other {err : Exn} (hothers : OthersKept os target start files)
    (h : Importer.isOsError err = false) : Left os target content start (.raised err) files := by
  refine ⟨hothers, (fun h => by cases h), fun err' heq hos => ?_⟩
  cases heq
  rw [h] at hos
  cases hos

theorem left_of_away {err rerr : Exn} (h : Away os target content start files) :
    Left os target content start (.rollback err rerr) files :=
  ⟨h.1, fun _ => h.2, fun _ heq => by cases heq⟩

/-- One of the three files of the swap. -/
def Swapped (os : Os W D) (target : String) (e : Entry D) : Prop :=
  e = os.entry target ∨ e = os.entry (newPath target) ∨ e = os.entry (oldPath target)

variable [DecidableEq D]

theorem Staging.update (h : Staging os target start files) (f : Option File) :
    Staging os target start (Function.update files (os.entry (newPath target)) f) := by
  intro e he
  rw [Function.update_of_ne he]
  exact h e he

theorem keeps_copy (hsource : os.entry source ≠ os.entry (newPath target))
    (hstaging : Staging os target start files) (hempty : Holds os target [] files)
    (hcontent : ((start (os.entry source)).map File.content).getD [] = content) :
    Keeps (Survives os target content start) (copyfileobj os source (newPath target))
      (fun _ t => Staging os target start t ∧ Holds os target content t)
      (Failing os target start) files := by
  unfold copyfileobj
  have hread : ((files (os.entry source)).map File.content).getD [] = content := by
    rw [hstaging _ hsource, hcontent]
  refine (keeps_read (Q := fun read t => read = content ∧ t = files) ⟨hread, rfl⟩).bind fun read t ht => ?_
  obtain ⟨rfl, rfl⟩ := ht
  -- what is in the file and what is still to come make up the content
  have hloop := keeps_each (C := Survives os target read start) (E := Failing os target start)
    (f := fun chunk => do outside (lift (os.permits (.read source))); write os (newPath target) chunk)
    (fun rest u => Staging os target start u ∧ ∃ front, Holds os target front u ∧ front ++ rest.flatten = read)
    (fun chunk rest u hu => ?_) (chunks os.bufferSize read.length read) t
    ⟨hstaging, [], hempty, chunks_flatten os.buffered _ _ (Nat.le_refl _)⟩
  · refine hloop.bind fun _ u hu => ?_
    obtain ⟨hu, front, hholds, hfront⟩ := hu
    rw [List.flatten_nil, List.append_nil] at hfront
    exact keeps_call (fun _ => ⟨hu, hfront ▸ hholds⟩) hu.failing
  · obtain ⟨hu, front, ⟨f, hf, rfl⟩, hfront⟩ := hu
    refine (keeps_call (Q := fun _ v => v = u) (fun _ => rfl) hu.failing).bind fun _ v hv => ?_
    rw [hv]
    refine keeps_write (fun bytes => (hu.update _).survives) ⟨hu.update _, f.content ++ chunk, ?_, ?_⟩
      fun bytes err => (hu.update _).failing err
    · refine ⟨{ f with content := f.content ++ chunk }, ?_, rfl⟩
      rw [extended, Function.update_self, hf]
      rfl
    · rw [← hfront, List.flatten_cons, List.append_assoc]

theorem keeps_openWrite (h : Staging os target start files) :
    Keeps (Survives os target content start) (openWrite os (newPath target))
      (fun _ t => Staging os target start t ∧ Holds os target [] t) (Failing os target start) files := by
  unfold openWrite
  refine keeps_change ⟨h.update _, truncated os.newMode (files (os.entry (newPath target))), ?_, ?_⟩
    (h.update _).survives h.failing
  · exact Function.update_self ..
  · cases files (os.entry (newPath target)) <;> rfl

theorem keeps_prepare (hsource : os.entry source ≠ os.entry (newPath target))
    (hcontent : ((start (os.entry source)).map File.content).getD [] = content) :
    Keeps (Survives os target content start) (prepareAndCheckBinary os target source)
      (fun _ t => Staging os target start t ∧ Installed content (t (os.entry (newPath target))))
      (Failing os target start) start := by
  have hstart : Staging os target start start := fun _ _ => rfl
  unfold prepareAndCheckBinary
  refine (keeps_withFile (Q := fun _ t => t = start) (fun f _ => keeps_call (fun _ => rfl)
    hstart.failing) hstart.failing).bind fun _ t ht => ?_
  rw [ht]
  have hclose : ∀ (path : String) (P : Files D → Prop) (u : Files D), Staging os target start u → P u →
      Keeps (Survives os target content start) (close os path) (fun _ v => Staging os target start v ∧ P v)
        (Failing os target start) u :=
    fun path P u hu hP => keeps_call (fun _ => ⟨hu, hP⟩) hu.failing
  have hraise : ∀ (path : String) (e : Raised) (u : Files D), Failing os target start e u →
      Keeps (Survives os target content start) (close os path) (fun _ v => Failing os target start e v)
        (Failing os target start) u :=
    fun path e u hu => keeps_call (fun _ => hu) hu.1.failing
  have hcopied : Keeps (Survives os target content start)
      (do
        openWrite os (newPath target)
        ensure (copyfileobj os source (newPath target)) (close os (newPath target)))
      (fun _ t => Staging os target start t ∧ Holds os target content t) (Failing os target start) start := by
    refine (keeps_openWrite hstart).bind fun _ u hu => ?_
    refine (keeps_copy hsource hu.1 hu.2 hcontent).ensure ?_ ?_
    · exact fun _ v hv => hclose _ (Holds os target content) v hv.1 hv.2
    · exact fun e v hv => hraise _ e v hv
  refine (hcopied.ensure (P := fun _ t => Staging os target start t ∧ Holds os target content t)
    (fun _ u hu => hclose _ (Holds os target content) u hu.1 hu.2)
    fun e u hu => hraise _ e u hu).bind fun _ u hu => ?_
  obtain ⟨hu, f, hf, rfl⟩ := hu
  refine keeps_withFile (fun _ _ => keeps_change ⟨hu.update _, { f with mode := 0o755 }, ?_, rfl, rfl⟩
    (hu.update _).survives hu.failing) hu.failing
  rw [Function.update_self, hf]
  rfl

theorem OthersKept.update {e : Entry D} (h : OthersKept os target start files) (he : Swapped os target e)
    (f : Option File) : OthersKept os target start (Function.update files e f) := by
  intro e' ht hn ho
  rw [Function.update_of_ne]
  · exact h e' ht hn ho
  · rintro rfl
    rcases he with rfl | rfl | rfl
    · exact ht rfl
    · exact hn rfl
    · exact ho rfl

theorem OthersKept.moved {a b : Entry D} (h : OthersKept os target start files)
    (ha : Swapped os target a) (hb : Swapped os target b) :
    OthersKept os target start (moved a b files) := by
  unfold Upgrade.moved
  split
  · exact h
  · exact (h.update hb _).update ha _

theorem moved_src {a b : Entry D} (h : a ≠ b) : moved a b files a = none := by
  rw [moved, if_neg h, Function.update_self]

theorem moved_dst {a b : Entry D} (h : a ≠ b) : moved a b files b = files a := by
  rw [moved, if_neg h, Function.update_of_ne (Ne.symm h), Function.update_self]

theorem moved_other {a b e : Entry D} (h : a ≠ b) (ha : e ≠ a) (hb : e ≠ b) :
    moved a b files e = files e := by
  rw [moved, if_neg h, Function.update_of_ne ha, Function.update_of_ne hb]

/-- The old binary is not at its second place before it has been moved there. -/
theorem Ready.removed (h : Ready os target content start files) :
    Ready os target content start (Function.update files (os.entry (oldPath target)) none) := by
  obtain ⟨hothers, htarget, hnew⟩ := h
  refine ⟨hothers.update (.inr (.inr rfl)) _, ?_, ?_⟩
  · rw [Function.update_of_ne entries_ne.2.1, htarget]
  · rw [Function.update_of_ne entries_ne.2.2]
    exact hnew

theorem Ready.away (h : Ready os target content start files) {f : File}
    (hf : files (os.entry target) = some f) :
    Away os target content start (moved (os.entry target) (os.entry (oldPath target)) files) := by
  obtain ⟨hothers, htarget, hnew⟩ := h
  refine ⟨hothers.moved (.inl rfl) (.inr (.inr rfl)), moved_src entries_ne.2.1, ?_, ?_, ?_⟩
  · rw [← htarget, hf]
    rfl
  · rw [moved_dst entries_ne.2.1, htarget]
  · rw [moved_other entries_ne.2.1 entries_ne.1.symm entries_ne.2.2]
    exact hnew

theorem Away.done (h : Away os target content start files) :
    Done os target content start (moved (os.entry (newPath target)) (os.entry target) files) := by
  obtain ⟨hothers, _, _, _, hnew⟩ := h
  refine ⟨hothers.moved (.inr (.inl rfl)) (.inl rfl), ?_, moved_src entries_ne.1.symm⟩
  rw [moved_dst entries_ne.1.symm]
  exact hnew

theorem Away.back (h : Away os target content start files) :
    OthersKept os target start (moved (os.entry (oldPath target)) (os.entry target) files) ∧
      moved (os.entry (oldPath target)) (os.entry target) files (os.entry target) =
        start (os.entry target) := by
  obtain ⟨hothers, _, _, hold, _⟩ := h
  refine ⟨hothers.moved (.inr (.inr rfl)) (.inl rfl), ?_⟩
  rw [moved_dst entries_ne.2.1.symm, hold]

theorem Done.update (h : Done os target content start files) (f : Option File) :
    Done os target content start (Function.update files (os.entry (oldPath target)) f) := by
  obtain ⟨hothers, htarget, hnew⟩ := h
  refine ⟨hothers.update (.inr (.inr rfl)) _, ?_, ?_⟩
  · rw [Function.update_of_ne entries_ne.2.1]
    exact htarget
  · rw [Function.update_of_ne entries_ne.2.2, hnew]

/-- The way back, after the new binary could not be moved to its place. -/
theorem keeps_rollBack (h : Away os target content start files) (err : Exn) :
    Keeps (Survives os target content start) (rollBack os target err)
      (fun _ => Done os target content start) (Left os target content start) files := by
  unfold rollBack
  refine (keeps_exceptOs (Q := fun _ t => OthersKept os target start t ∧
      t (os.entry target) = start (os.entry target)) (F := fun _ t => Away os target content start t)
    ?_ (fun _ _ ht _ => keeps_raise (left_of_away ht)) (fun _ _ ht hclass => left_of_other ht.1 hclass)).bind
    fun _ t ht => keeps_raise (left_of_target ht.1 ht.2)
  refine keeps_withFile (fun f _ => keeps_change h.back ⟨h.back.1, .inl h.back.2⟩ ?_) ?_
  · exact fun e => ⟨e, rfl, h⟩
  · exact fun e => ⟨e, rfl, h⟩

theorem keeps_commit (h : Ready os target content start files) :
    Keeps (Survives os target content start) (commitBinary os target)
      (fun _ => Done os target content start) (Left os target content start) files := by
  unfold commitBinary
  -- the old binary of an earlier swap
  refine (keeps_exceptOs (Q := fun _ => Ready os target content start)
    (F := fun _ => Ready os target content start) ?_ (fun _ _ ht _ => keeps_pure ht)
    (fun _ _ ht _ => left_of_target ht.1 ht.2.1)).bind fun _ t ht => ?_
  · exact keeps_withFile (fun _ _ => keeps_change h.removed h.removed.survives fun e => ⟨e, rfl, h⟩)
      fun e => ⟨e, rfl, h⟩
  refine (keeps_withFile (Q := fun _ => Away os target content start)
    (fun f hf => keeps_change (ht.away hf) (ht.away hf).survives fun _ => left_of_target ht.1 ht.2.1)
    fun _ => left_of_target ht.1 ht.2.1).bind fun _ u hu => ?_
  refine (keeps_exceptOs (Q := fun _ => Done os target content start)
    (F := fun _ => Away os target content start) ?_ (fun err _ hv _ => keeps_rollBack hv err)
    (fun _ _ hv hclass => left_of_other hv.1 hclass)).bind fun _ v hv => ?_
  · exact keeps_withFile (fun _ _ => keeps_change hu.done hu.done.survives fun e => ⟨e, rfl, hu⟩)
      fun e => ⟨e, rfl, hu⟩
  -- what is left of the old binary, whatever happens to it
  refine keeps_exceptOs (F := fun _ => Done os target content start) ?_ (fun _ x hx _ => ?_)
    fun _ _ hx hclass => left_of_other hx.1 hclass
  · exact keeps_withFile (fun _ _ => keeps_change (hv.update _) (hv.update _).survives
      fun e => ⟨e, rfl, hv⟩) fun e => ⟨e, rfl, hv⟩
  · refine keeps_exceptOs (F := fun _ => Done os target content start) ?_ (fun _ _ hy _ => keeps_pure hy)
      fun _ _ hy hclass => left_of_other hy.1 hclass
    unfold hideFile
    split
    · exact keeps_change (hx.update _) (hx.update _).survives fun e => ⟨e, rfl, hx⟩
    · exact keeps_pure hx

end Proofs

section Result

variable [DecidableEq D]

/-- Whatever fails and whenever the process is killed, the files other than the three of the swap are
untouched and a complete binary is left; a swap that returns has put the new one in its place, and one
that fails in the system has put the old one back or says with its exception that it could not. -/
theorem apply_survives (os : Os W D) (start : Files D) (target source : String) (w : W)
    (hsource : os.entry source ≠ os.entry (newPath target)) :
    let content := ((start (os.entry source)).map File.content).getD []
    let run := apply os target source ⟨start, w, []⟩
    (∀ files ∈ run.2.trace, Survives os target content start files) ∧
      (∀ u, run.1 = .ok u → Done os target content start run.2.vars) ∧
      ∀ e, run.1 = .error e → Left os target content start e run.2.vars := by
  intro content run
  have hkeeps : Keeps (Survives os target content start) (apply os target source)
      (fun _ => Done os target content start) (Left os target content start) start := by
    refine ((keeps_prepare hsource rfl).mono (fun _ _ ht => ht) fun _ _ he => he.explained).bind
      fun _ t ht => keeps_commit ⟨fun e _ hn _ => ht.1 e hn, ht.1 _ entries_ne.1, ht.2⟩
  refine ⟨hkeeps.passed w, fun u hu => ?_, fun e he => ?_⟩
  · exact (wp_ok (hkeeps w []) (Prod.ext hu rfl)).1
  · exact (wp_error (hkeeps w []) (Prod.ext he rfl)).1

end Result

/-- A system that lets nothing be moved to the target. -/
def stuck : Os Unit String :=
  ⟨id, false, 0o644, 65536, Nat.succ_pos 65535,
    fun call => match call with
      | .replace _ "eds" => raise (.osError (some 13) "Permission denied")
      | _ => pure (),
    fun _ chunk => pure chunk.length⟩

def installation : Files String := fun e =>
  if e = ("", "eds") then some ⟨[1], 0o755, false⟩
  else if e = ("", "eds-new") then some ⟨[2, 3], 0o644, false⟩
  else none

theorem apply_survives_stuck :
    stuck.entry "eds-new" ≠ stuck.entry (newPath "eds") ∧
      ∃ err rerr, (apply stuck "eds" "eds-new" ⟨installation, (), []⟩).1 = .error (.rollback err rerr) ∧
        Stranded stuck "eds" [2, 3] installation
          (apply stuck "eds" "eds-new" ⟨installation, (), []⟩).2.vars := by
  have hsource : stuck.entry "eds-new" ≠ stuck.entry (newPath "eds") := by decide +kernel
  have hraised : (apply stuck "eds" "eds-new" ⟨installation, (), []⟩).1 =
      .error (.rollback (.osError (some 13) "Permission denied") (.osError (some 13) "Permission denied")) :=
    by rfl
  exact ⟨hsource, _, _, hraised,
    ((apply_survives stuck installation "eds" "eds-new" () hsource).2.2 _ hraised).2.1 rfl⟩

end Upgrade
end Eds
