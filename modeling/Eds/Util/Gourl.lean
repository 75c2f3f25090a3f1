import Eds.Collections.Dict
import Eds.Lexing.Cut
import Eds.Lexing.Percent

/-!
# URLs, as Go reads them

A port of the part of `net/url` that the drivers use: parsing, printing, and the escapes of the
seven parts of a URL.  Texts are lists of characters; an escape is about the bytes of their
UTF-8 form.

`rawPath` and `rawFragment` keep the text that was read where printing the decoded one would
give another.
-/

namespace Eds
namespace Util
namespace Gourl

open Collections Lexing

/-- All are a `ValueError`.  `escape` is the subclass for a bad escape, with the text at it, and
`unicode` is for bytes that are no UTF-8. -/
inductive Error where
  | escape (text : List Char)
  | value (message : List Char)
  | unicode (bytes : List UInt8)
  deriving DecidableEq

/-! ## Escapes -/

inductive Mode where
  | path
  | pathSegment
  | host
  | zone
  | userPassword
  | queryComponent
  | fragment
  deriving DecidableEq

def Mode.isHost : Mode → Bool
  | host | zone => true
  | _ => false

def reserved : List Char := ['$', '&', '+', ',', '/', ':', ';', '=', '?', '@']

def hostKeep : List Char :=
  ['!', '$', '&', '\'', '(', ')', '*', '+', ',', ';', '=', ':', '[', ']', '<', '>', '"']

def isHex (b : UInt8) : Bool :=
  (0x30 ≤ b && b ≤ 0x39) || (0x41 ≤ b && b ≤ 0x46) || (0x61 ≤ b && b ≤ 0x66)

def unhex (b : UInt8) : UInt8 :=
  if b ≤ 0x39 then b - 0x30 else if b ≤ 0x46 then b - 0x41 + 10 else b - 0x61 + 10

def isLetter (c : Char) : Bool := ('a' ≤ c && c ≤ 'z') || ('A' ≤ c && c ≤ 'Z')

def isDigit (c : Char) : Bool := '0' ≤ c && c ≤ '9'

/-- A reserved character that a host does not keep is escaped in it. -/
def shouldEscape (c : UInt8) (mode : Mode) : Bool :=
  let ch := Char.ofNat c.toNat
  if isLetter ch || isDigit ch then false
  else if mode.isHost && hostKeep.contains ch then false
  else if ['-', '_', '.', '~'].contains ch then false
  else if reserved.contains ch then
    match mode with
    | .path => ch == '?'
    | .pathSegment => ['/', ';', ',', '?'].contains ch
    | .userPassword => ['@', '/', '?', ':'].contains ch
    | .queryComponent => true
    | .fragment => false
    | .host | .zone => true
  else if mode == .fragment && ['!', '(', ')', '*'].contains ch then false
  else true

/-- In upper case. -/
def hexDigit (n : Nat) : Char := Char.ofNat (if n < 10 then 0x30 + n else 0x41 + (n - 10))

def escapeByte (mode : Mode) (b : UInt8) : List Char :=
  if mode = .queryComponent ∧ b = 0x20 then ['+']
  else if shouldEscape b mode then ['%', hexDigit (b.toNat / 16), hexDigit (b.toNat % 16)]
  else [Char.ofNat b.toNat]

def escape (s : List Char) (mode : Mode) : List Char := (Percent.utf8 s).flatMap (escapeByte mode)

/-- `s[i : i + n]`; the index is one of bytes, the text is cut by characters. -/
def slice (s : List Char) (i n : Nat) : List Char := (s.drop i).take n

/-- From the byte at `i` on.  In a host only `%25` and bytes outside ASCII are escaped. -/
def unescapeBytes (s : List Char) (mode : Mode) (i : Nat) : List UInt8 → Except Error (List UInt8)
  | [] => .ok []
  | c :: rest =>
    if c = 0x25 then
      match rest with
      | x :: y :: rest =>
        if !isHex x || !isHex y then .error (.escape (slice s i 3))
        else if mode = .host ∧ unhex x < 8 ∧ ¬ (x = 0x32 ∧ y = 0x35) then
          .error (.escape (slice s i 3))
        else ((unhex x <<< 4 ||| unhex y) :: ·) <$> unescapeBytes s mode (i + 3) rest
      | _ => .error (.escape (slice s i 3))
    else if c = 0x2B then
      ((if mode = .queryComponent then 0x20 else 0x2B) :: ·) <$> unescapeBytes s mode (i + 1) rest
    else if mode.isHost && c < 0x80 && shouldEscape c mode then .error (.escape (slice s i 1))
    else (c :: ·) <$> unescapeBytes s mode (i + 1) rest

def unescape (s : List Char) (mode : Mode) : Except Error (List Char) := do
  let bytes ← unescapeBytes s mode 0 (Percent.utf8 s)
  match Percent.ofUtf8 bytes with
  | some text => .ok text
  | none => .error (.unicode bytes)

def queryEscape (s : List Char) : List Char := escape s .queryComponent

def queryUnescape (s : List Char) : Except Error (List Char) := unescape s .queryComponent

/-- The text that was read, as long as it stands for the decoded one. -/
def escaped (raw decoded : List Char) (mode : Mode) : Except Error (List Char) :=
  if raw ≠ [] then do
    let text ← unescape raw mode
    pure (if text = decoded then raw else escape decoded mode)
  else pure (escape decoded mode)

/-- The text to keep beside the decoded one. -/
def rawText (text decoded : List Char) (mode : Mode) : List Char :=
  if escape decoded mode ≠ text then text else []

/-! ## The parts -/

structure Userinfo where
  username : List Char
  password : List Char
  passwordSet : Bool
  deriving DecidableEq

def Userinfo.str (u : Userinfo) : List Char :=
  escape u.username .userPassword ++
    if u.passwordSet then ':' :: escape u.password .userPassword else []

/-- An ordered multimap. -/
abbrev Values := Dict (List Char) (List (List Char))

namespace Values

def has (m : Values) (key : List Char) : Bool := m.keys.contains key

def get (m : Values) (key : List Char) : List Char := ((m.get? key).getD []).headD []

def set (m : Values) (key value : List Char) : Values := m.insert key [value]

def add (m : Values) (key value : List Char) : Values :=
  m.insert key ((m.get? key).getD [] ++ [value])

/-- The keys are sorted by code point. -/
def sorted (m : Values) : List (List Char × List (List Char)) :=
  m.items.mergeSort fun a b => decide (String.ofList a.1 ≤ String.ofList b.1)

def encode (m : Values) : List Char :=
  List.intercalate ['&'] (m.sorted.flatMap fun entry =>
    entry.2.map fun v => queryEscape entry.1 ++ '=' :: queryEscape v)

end Values

/-- The empty text or a colon and digits. -/
def validOptionalPort : List Char → Bool
  | [] => true
  | c :: digits => c == ':' && digits.all isDigit

def splitHostPort (hp : List Char) : List Char × List Char :=
  let (host, port) := match rpartition ':' hp with
    | (host, true, port) => if validOptionalPort (':' :: port) then (host, port) else (hp, [])
    | (_, false, _) => (hp, [])
  if host.head? = some '[' ∧ host.getLast? = some ']' then ((host.drop 1).dropLast, port)
  else (host, port)

structure GoUrl where
  scheme : List Char
  opaquePart : List Char
  user : Option Userinfo
  host : List Char
  path : List Char
  rawPath : List Char
  forceQuery : Bool
  rawQuery : List Char
  fragment : List Char
  rawFragment : List Char
  deriving DecidableEq

namespace GoUrl

/-- `GoUrl()` -/
def blank : GoUrl := ⟨[], [], none, [], [], [], false, [], [], []⟩

def username (u : GoUrl) : List Char := (u.user.map Userinfo.username).getD []

def password (u : GoUrl) : List Char := (u.user.map Userinfo.password).getD []

def hostname (u : GoUrl) : List Char := (splitHostPort u.host).1

def port (u : GoUrl) : List Char := (splitHostPort u.host).2

/-- One segment of a query; a segment with a semicolon or a bad escape is dropped. -/
def addSegment (v : Values) (seg : List Char) : Except Error Values :=
  if ';' ∈ seg then .ok v
  else if seg = [] then .ok v
  else
    let (key, _, val) := partition '=' seg
    match (do
      let key ← queryUnescape key
      let val ← queryUnescape val
      pure (key, val) : Except Error (List Char × List Char)) with
    | .ok (key, val) => .ok (Values.add v key val)
    | .error (.escape _) => .ok v
    | .error e => .error e

def query (u : GoUrl) : Except Error Values := (u.rawQuery.splitOn '&').foldlM addSegment Dict.empty

def escapedPath (u : GoUrl) : Except Error (List Char) := escaped u.rawPath u.path .path

def escapedFragment (u : GoUrl) : Except Error (List Char) :=
  escaped u.rawFragment u.fragment .fragment

/-- From the slashes to the end of the host. -/
def authority (u : GoUrl) : List Char :=
  if u.scheme ≠ [] ∨ u.host ≠ [] ∨ u.user.isSome then
    (if u.host ≠ [] ∨ u.path ≠ [] ∨ u.user.isSome then ['/', '/'] else []) ++
      (match u.user with
        | some user => user.str ++ ['@']
        | none => []) ++
      escape u.host .host
  else []

def hierarchy (u : GoUrl) : Except Error (List Char) := do
  let path ← u.escapedPath
  let slash := if path ≠ [] ∧ path.head? ≠ some '/' ∧ u.host ≠ [] then ['/'] else []
  pure (u.authority ++ slash ++ path)

def schemeText (u : GoUrl) : List Char := if u.scheme ≠ [] then u.scheme ++ [':'] else []

def queryText (u : GoUrl) : List Char :=
  if u.forceQuery ∨ u.rawQuery ≠ [] then '?' :: u.rawQuery else []

/-- `str(u)` -/
def str (u : GoUrl) : Except Error (List Char) := do
  let body ← if u.opaquePart ≠ [] then pure u.opaquePart else u.hierarchy
  let fragment ← if u.fragment ≠ [] then do
      let fragment ← u.escapedFragment
      pure ('#' :: fragment)
    else pure []
  pure (u.schemeText ++ body ++ u.queryText ++ fragment)

end GoUrl

/-! ## Parsing -/

/-- `seen` is what has been read of the text `raw`. -/
def schemeFrom (raw seen : List Char) : List Char → Except Error (List Char × List Char)
  | [] => .ok ([], raw)
  | c :: rest =>
    if isLetter c then schemeFrom raw (seen ++ [c]) rest
    else if isDigit c || ['+', '-', '.'].contains c then
      if seen = [] then .ok ([], raw) else schemeFrom raw (seen ++ [c]) rest
    else if c = ':' then
      if seen = [] then .error (.value "missing protocol scheme".toList)
      else .ok (seen.map Char.toLower, rest)
    else .ok ([], raw)

def getScheme (raw : List Char) : Except Error (List Char × List Char) := schemeFrom raw [] raw

def invalidPort (colonPort : List Char) : Error :=
  .value ("invalid port ".toList ++ colonPort ++ " after host".toList)

def parseHost (host : List Char) : Except Error (List Char) :=
  if host.head? = some '[' then
    match rpartition ']' host with
    | (_, false, _) => .error (.value "missing ']' in host".toList)
    | (_, true, colonPort) =>
      if validOptionalPort colonPort then unescape host .host else .error (invalidPort colonPort)
  else
    match rpartition ':' host with
    | (_, true, port) =>
      if validOptionalPort (':' :: port) then unescape host .host
      else .error (invalidPort (':' :: port))
    | (_, false, _) => unescape host .host

/-- The last `@` ends the user info, the first colon in it the user name. -/
def parseAuthority (authority : List Char) : Except Error (Option Userinfo × List Char) :=
  match rpartition '@' authority with
  | (_, false, _) => do
    let host ← parseHost authority
    pure (none, host)
  | (userinfo, true, host) => do
    let host ← parseHost host
    match partition ':' userinfo with
    | (_, false, _) => do
      let username ← unescape userinfo .userPassword
      pure (some ⟨username, [], false⟩, host)
    | (uname, true, pword) => do
      let username ← unescape uname .userPassword
      let password ← unescape pword .userPassword
      pure (some ⟨username, password, true⟩, host)

/-- The text in front of the query, whether there is nothing behind its `?`, and the query. -/
def cutQuery (rest : List Char) : List Char × Bool × List Char :=
  if rest.getLast? = some '?' ∧ rest.count '?' = 1 then (rest.dropLast, true, [])
  else ((partition '?' rest).1, false, (partition '?' rest).2.2)

def setPath (u : GoUrl) (rest : List Char) : Except Error GoUrl := do
  let path ← unescape rest .path
  pure { u with path := path, rawPath := rawText rest path .path }

/-- What stands between the scheme and the query. -/
def parseBody (u : GoUrl) (rest : List Char) : Except Error GoUrl :=
  if rest.head? ≠ some '/' ∧ u.scheme ≠ [] then pure { u with opaquePart := rest }
  else if rest.head? ≠ some '/' ∧ ':' ∈ rest.takeWhile (· ≠ '/') then
    .error (.value "first path segment in URL cannot contain colon".toList)
  else if (u.scheme ≠ [] ∨ ¬ ['/', '/', '/'] <+: rest) ∧ ['/', '/'] <+: rest then do
    let (user, host) ← parseAuthority ((rest.drop 2).takeWhile (· ≠ '/'))
    setPath { u with user := user, host := host } ((rest.drop 2).dropWhile (· ≠ '/'))
  else setPath u rest

/-- `_parse` -/
def parseRest (raw : List Char) : Except Error GoUrl := do
  let (scheme, rest) ← getScheme raw
  let (rest, forceQuery, rawQuery) := cutQuery rest
  parseBody
    { GoUrl.blank with scheme := scheme, forceQuery := forceQuery, rawQuery := rawQuery } rest

def isControl (c : Char) : Bool := c.toNat < 0x20 || c.toNat == 0x7F

def parse (rawUrl : List Char) : Except Error GoUrl :=
  if rawUrl.any isControl then
    .error (.value "net/url: invalid control character in URL".toList)
  else
    match partition '#' rawUrl with
    | (rest, false, _) => parseRest rest
    | (rest, true, frag) => do
      let u ← parseRest rest
      let fragment ← unescape frag .fragment
      pure { u with fragment := fragment, rawFragment := rawText frag fragment .fragment }

end Gourl
end Util
end Eds
