import Eds.Collections.Dict
import Eds.Exceptions
import Eds.Lexing.Percent
import Eds.Lexing.Toml
import Eds.Util.Loads
import Eds.Util.Numbers

/-!
# The configuration file

The configuration is a file of one entry on a line.  The server writes it with an encoder of its own
and reads it with a TOML parser; a value is set by reading the file, changing the entry and writing
all of it again (`config_round_trip`).
-/

namespace Eds
namespace Server

open Collections Lexing Lexing.Toml Lexing.Percent Util

/-! ## Writing -/

/-- A value of the configuration.  A float is its `repr` and any other value its `str`. -/
inductive ConfigValue where
  | str (s : String)
  | bool (b : Bool)
  | int (n : Int)
  | float (text : String)
  | other (text : String)
  deriving DecidableEq

def tomlEscapes : List (Char × List Char) :=
  [('\\', ['\\', '\\']), ('"', ['\\', '"']), (Char.ofNat 8, ['\\', 'b']), ('\t', ['\\', 't']),
    ('\n', ['\\', 'n']), (Char.ofNat 12, ['\\', 'f']), ('\r', ['\\', 'r'])]

/-- `f"{n:04X}"` -/
def upperHex (n : Nat) : List Char :=
  List.replicate (4 - (Nat.toDigits 16 n).length) '0' ++ (Nat.toDigits 16 n).map Char.toUpper

def escapeTomlChar (c : Char) : List Char :=
  match tomlEscapes.lookup c with
  | some esc => esc
  | none => if c.toNat < 0x20 ∨ c.toNat = 0x7F then '\\' :: 'u' :: upperHex c.toNat else [c]

def escapeTomlBasic (s : String) : List Char := s.toList.flatMap escapeTomlChar

def valueText : ConfigValue → List Char
  | .bool b => if b then ['t', 'r', 'u', 'e'] else ['f', 'a', 'l', 's', 'e']
  | .int n => (toString n).toList
  | .float text => text.toList
  | .str s => '"' :: (escapeTomlBasic s ++ ['"'])
  | .other text => '"' :: (escapeTomlBasic text ++ ['"'])

def configLine (entry : String × ConfigValue) : List Char :=
  entry.1.toList ++ ' ' :: '=' :: ' ' :: valueText entry.2

/-- `_dump_toml` -/
def dumpToml (values : Dict String ConfigValue) : List Char :=
  match values.items.map configLine with
  | [] => []
  | line :: lines => List.intercalate ['\n'] (line :: lines) ++ ['\n']

/-! ## The file -/

/-- The files by their paths. -/
abbrev Files := String → Option (List UInt8)

/-- `os.path.join(data_dir, "config.toml")` -/
def configPath (dataDir : String) : String :=
  if dataDir = "" ∨ dataDir.endsWith "/" then dataDir ++ "config.toml" else dataDir ++ "/config.toml"

section

variable (tomli : List UInt8 → Except Exn (Dict String ConfigValue))

/-- Without a directory there is no configuration.  `tomli` is `tomli.load`, of the bytes of the
file. -/
def loadConfig (dataDir : String) (files : Files) : Except Exn (Dict String ConfigValue) :=
  if dataDir = "" then .ok Dict.empty
  else
    match files (configPath dataDir) with
    | none => .ok Dict.empty
    | some bytes =>
      match tomli bytes with
      | .ok values => .ok values
      | .error e => .error (if e.isException then .exception e.str else e)

def writeConfig (dataDir : String) (values : Dict String ConfigValue) (files : Files) : Files :=
  Function.update files (configPath dataDir) (some (utf8 (dumpToml values)))

def setConfigValue (dataDir key : String) (value : ConfigValue) (files : Files) : Except Exn Files := do
  let values ← loadConfig tomli dataDir files
  pure (writeConfig dataDir (values.insert key value) files)

end

/-! ## What the parser reads -/

def ConfigValue.ofScalar : Scalar → ConfigValue
  | .str s => .str (String.ofList s)
  | .bool b => .bool b
  | .int n => .int n

/-- A string, a boolean or an integer. -/
def ConfigValue.Plain (v : ConfigValue) : Prop := ∃ x, ConfigValue.ofScalar x = v

/-- A flat configuration with bare keys. -/
def Flat (values : Dict String ConfigValue) : Prop :=
  ∀ entry ∈ values.items, BareKey entry.1.toList ∧ entry.2.Plain

def configEntry (entry : List Char × Scalar) : String × ConfigValue :=
  (String.ofList entry.1, ConfigValue.ofScalar entry.2)

/-- A TOML parser finds the entries of a flat document with distinct keys. -/
def Conforms (tomli : List UInt8 → Except Exn (Dict String ConfigValue)) : Prop :=
  ∀ entries text, Document entries text → ((entries.map configEntry).map Prod.fst).Nodup →
    ∃ values, tomli (utf8 text) = .ok values ∧
      ∀ key, values.get? key = (Dict.ofList (entries.map configEntry)).get? key

/-! ## What is written -/

theorem spelledChar_escapes : ∀ entry ∈ tomlEscapes, SpelledChar entry.1 entry.2 := by
  simp only [tomlEscapes, List.forall_mem_cons]
  exact ⟨.escape rfl, .escape rfl, .escape rfl, .escape rfl, .escape rfl, .escape rfl, .escape rfl, nofun⟩

theorem hexText_upperHex {n : Nat} (h : n < 0x20 ∨ n = 0x7F) : hexText (upperHex n) = some n := by
  have hall : ∀ n < 0x20, hexText (upperHex n) = some n := by decide
  rcases h with h | rfl
  · exact hall n h
  · decide

theorem spelledChar_escapeTomlChar (c : Char) : SpelledChar c (escapeTomlChar c) := by
  unfold escapeTomlChar
  split
  · next esc hesc =>
    obtain ⟨front, back, htable, -⟩ := List.lookup_eq_some_iff.mp hesc
    exact spelledChar_escapes (c, esc) (by rw [htable]; simp)
  · next hnone =>
    split
    · next hcontrol =>
      have hhex := hexText_upperHex hcontrol
      match htext : upperHex c.toNat with
      | [a, b, d, e] =>
        rw [htext] at hhex
        exact .unicode hhex
      | [] | [_] | [_, _] | [_, _, _] | _ :: _ :: _ :: _ :: _ :: _ =>
        rw [htext] at hhex
        cases hhex
    · next hcontrol =>
      have hne := List.lookup_eq_none_iff.mp hnone
      have hquote : c ≠ '"' := by simpa using hne ('"', ['\\', '"']) (by simp [tomlEscapes])
      have hslash : c ≠ '\\' := by simpa using hne ('\\', ['\\', '\\']) (by simp [tomlEscapes])
      refine .plain ?_
      rw [isPlain, Bool.or_eq_true, decide_eq_true_iff]
      exact Or.inr ⟨by omega, hquote, hslash, by omega⟩

theorem spelledString_escapeTomlBasic (s : String) : SpelledString s.toList (escapeTomlBasic s) := by
  rw [escapeTomlBasic]
  induction s.toList with
  | nil => exact .nil
  | cons c text ih => exact .cons (spelledChar_escapeTomlChar c) ih

theorem isWhole_toDigits (n : Nat) : Json.IsWhole (Nat.toDigits 10 n) := by
  obtain ⟨ds, htext, -, hds⟩ := toDigits_digits n
  rw [htext]
  exact NumberText.isWhole ⟨false, ds, [], [], hds, Or.inl rfl⟩

theorem spelled_int (n : Int) : Spelled (.int n) (toString n).toList := by
  cases n with
  | ofNat m =>
    have hspelled := Spelled.int (isWhole_toDigits m)
    rw [Nat.ofDigitChars_ten_toDigits] at hspelled
    have htext : (toString (Int.ofNat m)).toList = Nat.toDigits 10 m := String.toList_ofList
    rw [htext]
    exact hspelled
  | negSucc m =>
    have hspelled := Spelled.negative (isWhole_toDigits (m + 1))
    rw [Nat.ofDigitChars_ten_toDigits] at hspelled
    have htext : (toString (Int.negSucc m)).toList = '-' :: Nat.toDigits 10 (m + 1) := by
      show ("-" ++ String.ofList (Nat.toDigits 10 (m + 1))).toList = _
      rw [String.toList_append]
      exact congrArg (List.cons '-') String.toList_ofList
    rw [htext]
    exact hspelled

/-- A plain value is written as TOML for itself. -/
theorem exists_spelled {v : ConfigValue} (h : v.Plain) :
    ∃ x, ConfigValue.ofScalar x = v ∧ Spelled x (valueText v) := by
  obtain ⟨x, rfl⟩ := h
  cases x with
  | str s =>
    refine ⟨.str s, rfl, .str ?_⟩
    have hspelled := spelledString_escapeTomlBasic (String.ofList s)
    rwa [String.toList_ofList] at hspelled
  | bool b =>
    cases b with
    | true => exact ⟨.bool true, rfl, .true⟩
    | false => exact ⟨.bool false, rfl, .false⟩
  | int n => exact ⟨.int n, rfl, spelled_int n⟩

/-- The lines, each with its end. -/
def ended (items : List (String × ConfigValue)) : List Char :=
  items.flatMap fun entry => configLine entry ++ ['\n']

theorem dumpToml_eq (values : Dict String ConfigValue) : dumpToml values = ended values.items := by
  have hlines : ∀ line lines, List.intercalate ['\n'] (line :: lines) ++ ['\n'] =
      (line :: lines).flatMap fun line => line ++ ['\n'] := by
    intro line lines
    induction lines generalizing line with
    | nil => rw [List.intercalate_singleton, List.flatMap_singleton]
    | cons next lines ih =>
      rw [List.intercalate_cons_cons, List.append_assoc, List.append_assoc, ih]
      simp only [List.flatMap_cons, List.append_assoc]
  rw [dumpToml, ended]
  cases values.items with
  | nil => rfl
  | cons entry items =>
    rw [List.map_cons]
    dsimp only
    rw [hlines, ← List.map_cons, List.flatMap_map]

/-- What is written is a document of the entries. -/
theorem exists_document {items : List (String × ConfigValue)}
    (h : ∀ entry ∈ items, BareKey entry.1.toList ∧ entry.2.Plain) :
    ∃ entries, Document entries (ended items) ∧ entries.map configEntry = items := by
  induction items with
  | nil => exact ⟨[], .nil, rfl⟩
  | cons entry items ih =>
    obtain ⟨⟨hkey, hplain⟩, hitems⟩ := List.forall_mem_cons.mp h
    obtain ⟨entries, hdocument, hentries⟩ := ih hitems
    obtain ⟨x, hx, hspelled⟩ := exists_spelled hplain
    refine ⟨(entry.1.toList, x) :: entries, ?_, ?_⟩
    · have hline : ended (entry :: items) = entry.1.toList ++ ' ' :: '=' :: ' ' ::
          (valueText entry.2 ++ '\n' :: ended items) := by
        simp only [ended, configLine, List.flatMap_cons, List.append_assoc, List.cons_append,
          List.nil_append]
      rw [hline]
      exact .cons hkey hspelled hdocument
    · rw [List.map_cons, hentries, configEntry, String.ofList_toList, hx]

/-! ## What is read back -/

section

variable {tomli : List UInt8 → Except Exn (Dict String ConfigValue)} {values : Dict String ConfigValue}

/-- Both have the same entries. -/
def SameEntries (values values' : Dict String ConfigValue) : Prop := ∀ key, values.get? key = values'.get? key

theorem tomli_dumpToml (hconforms : Conforms tomli) (hflat : Flat values) :
    ∃ values', tomli (utf8 (dumpToml values)) = .ok values' ∧ SameEntries values' values := by
  obtain ⟨entries, hdocument, hentries⟩ := exists_document hflat
  obtain ⟨values', hload, hget⟩ := hconforms entries _ hdocument (by rw [hentries]; exact values.nodup)
  refine ⟨values', by rw [dumpToml_eq]; exact hload, fun key => ?_⟩
  have hitems : (Dict.ofList values.items).items = values.items := Dict.items_ofList values.nodup
  rw [hget, hentries, Dict.get?, hitems]
  rfl

theorem Flat.insert (hflat : Flat values) {key : String} {value : ConfigValue}
    (hkey : BareKey key.toList) (hvalue : value.Plain) : Flat (values.insert key value) := by
  intro entry hentry
  rcases Dict.mem_insertItem hentry with rfl | h
  · exact ⟨hkey, hvalue⟩
  · exact hflat entry h

end

/-- Setting a value succeeds, changes no other file, and from then on the configuration is what it
was, with the one key changed. -/
def ChangesOnly (tomli : List UInt8 → Except Exn (Dict String ConfigValue)) (dataDir key : String)
    (value : ConfigValue) (files : Files) (values : Dict String ConfigValue) : Prop :=
  ∃ files', setConfigValue tomli dataDir key value files = .ok files' ∧
    (∀ path, path ≠ configPath dataDir → files' path = files path) ∧
    ∃ values', loadConfig tomli dataDir files' = .ok values' ∧
      ∀ key', values'.get? key' = if key' = key then some value else values.get? key'

/-- What is written is read back, and in a directory setting a value changes one key. -/
theorem config_round_trip (tomli : List UInt8 → Except Exn (Dict String ConfigValue))
    (hconforms : Conforms tomli) :
    (∀ values, Flat values →
      ∃ values', tomli (utf8 (dumpToml values)) = .ok values' ∧ SameEntries values' values) ∧
    ∀ dataDir key value files values, dataDir ≠ "" → loadConfig tomli dataDir files = .ok values →
      Flat values → BareKey key.toList → value.Plain →
      ChangesOnly tomli dataDir key value files values := by
  refine ⟨fun values hflat => tomli_dumpToml hconforms hflat, ?_⟩
  intro dataDir key value files values hdir hload hflat hkey hvalue
  obtain ⟨values', hread, hsame⟩ := tomli_dumpToml hconforms (hflat.insert hkey hvalue)
  refine ⟨writeConfig dataDir (values.insert key value) files, ?_, ?_, values', ?_, fun key' => ?_⟩
  · rw [setConfigValue, hload]
    rfl
  · intro path hpath
    exact Function.update_of_ne hpath _ _
  · have hfile : writeConfig dataDir (values.insert key value) files (configPath dataDir) =
        some (utf8 (dumpToml (values.insert key value))) := Function.update_self _ _ _
    rw [loadConfig, if_neg hdir, hfile]
    dsimp only
    rw [hread]
  · rw [hsame, Dict.get?_insert]

/-! ## A parser of flat documents -/

def readFlat (bytes : List UInt8) : Except Exn (Dict String ConfigValue) :=
  match (ofUtf8 bytes).bind Toml.read with
  | some entries => .ok (Dict.ofList (entries.map configEntry))
  | none => .error (.valueError "Invalid statement")

theorem conforms_readFlat : Conforms readFlat := by
  intro entries text hdocument _
  refine ⟨Dict.ofList (entries.map configEntry), ?_, fun _ => rfl⟩
  rw [readFlat, ofUtf8_utf8, Option.bind_some, read_document hdocument]

theorem readFlat_dumpToml {values : Dict String ConfigValue} (hflat : Flat values) :
    readFlat (utf8 (dumpToml values)) = .ok values := by
  obtain ⟨entries, hdocument, hentries⟩ := exists_document hflat
  rw [readFlat, ofUtf8_utf8, Option.bind_some, dumpToml_eq, read_document hdocument]
  dsimp only
  rw [hentries, Dict.ofList_items]

/-- A server that has been enrolled. -/
def enrolled : Dict String ConfigValue :=
  ⟨[("server_id", .str "s-1"), ("token", .str "old"), ("keep_logs", .bool true)], by decide⟩

def enrolledFiles : Files := writeConfig "data" enrolled fun _ => none

theorem enrolled_flat : Flat enrolled := by
  intro entry hentry
  simp only [enrolled, List.mem_cons, List.not_mem_nil, or_false] at hentry
  rcases hentry with rfl | rfl | rfl
  · exact ⟨by decide, .str "s-1".toList, rfl⟩
  · exact ⟨by decide, .str "old".toList, rfl⟩
  · exact ⟨by decide, .bool true, rfl⟩

/-- The token is another one, and the other keys are as they were. -/
theorem config_round_trip_token :
    loadConfig readFlat "data" enrolledFiles = .ok enrolled ∧
      ChangesOnly readFlat "data" "token" (.str "a\n\"b\\") enrolledFiles enrolled := by
  have hload : loadConfig readFlat "data" enrolledFiles = .ok enrolled := by
    have hfile : enrolledFiles (configPath "data") = some (utf8 (dumpToml enrolled)) := by
      rw [enrolledFiles, writeConfig, Function.update_self]
    rw [loadConfig, if_neg (by decide), hfile]
    dsimp only
    rw [readFlat_dumpToml enrolled_flat]
  refine ⟨hload, ?_⟩
  exact (config_round_trip readFlat conforms_readFlat).2 "data" "token" (.str "a\n\"b\\") enrolledFiles
    enrolled (by decide) hload enrolled_flat (by decide) ⟨.str ['a', '\n', '"', 'b', '\\'], rfl⟩

/-- Without a directory the value is written, and nothing is read. -/
theorem not_changesOnly_nowhere :
    ¬ ChangesOnly readFlat "" "mode" (.str "append") (fun _ => none) Dict.empty := by
  rintro ⟨files, -, -, values, hload, hget⟩
  have hempty : values = Dict.empty := (Except.ok.inj hload).symm
  have hmode := hget "mode"
  rw [hempty, if_pos rfl] at hmode
  cases hmode

end Server
end Eds
