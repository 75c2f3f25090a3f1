import Eds.Drivers.S3.Config
import Eds.Util.Gourl.Ports
import Eds.Util.Gourl.Segments

/-!
# The connection string of the PostgreSQL driver

The URL is read, three things are put in that it lacks (the port, the name of the application and,
for a local host, the mode of encryption), and it is printed again.  The result is stable unless
the host ends in an empty port (`connectionString_stable_iff`).
-/

namespace Eds
namespace Drivers
namespace Postgresql

open Util Gourl Lexing Collections

def urlScheme : List Char := "postgresql".toList

def defaultPort : List Char := "5432".toList

/-- `raised` is what is not caught; the other is wrapped as `error parsing postgres db url`. -/
inductive UrlError where
  | parsing (cause : Gourl.Error)
  | raised (cause : Gourl.Error)
  deriving DecidableEq

def nameMissing (q : Gourl.Values) : Bool := !q.has "application_name".toList

def modeMissing (host : List Char) (q : Gourl.Values) : Bool :=
  S3.isLocalhost host && !q.has "sslmode".toList

def withDefaults (host : List Char) (q : Gourl.Values) : Gourl.Values :=
  let named := if nameMissing q then q.set "application_name".toList "eds".toList else q
  if modeMissing host q then named.set "sslmode".toList "disable".toList else named

def withPort (u : GoUrl) : List Char := if u.port = [] then u.host ++ ':' :: defaultPort else u.host

/-- The query is written again only if something was put in. -/
def connectionUrl (u : GoUrl) : Except Gourl.Error GoUrl := do
  let host := withPort u
  let q ← u.query
  pure
    { u with
      scheme := urlScheme
      host := host
      rawQuery :=
        if nameMissing q || modeMissing host q then (withDefaults host q).encode else u.rawQuery }

def getConnectionStringFromUrl (urlstr : List Char) : Except UrlError (List Char) := do
  let u ← (parse urlstr).mapError .parsing
  (connectionUrl u >>= GoUrl.str).mapError .raised

/-! ## What is put in -/

/-- The values of a key that has none. -/
def default? (host key : List Char) : Option (List (List Char)) :=
  if key = "application_name".toList then some ["eds".toList]
  else if key = "sslmode".toList ∧ S3.isLocalhost host = true then some ["disable".toList]
  else none

theorem has_eq_false {q : Gourl.Values} {key : List Char} (h : q.has key = false) :
    q.get? key = none := by
  rw [Option.eq_none_iff_forall_ne_some]
  intro values hvalues
  rw [Values.has_iff.mpr ⟨values, hvalues⟩] at h
  cases h

theorem get?_ite_set (missing : Bool) (q : Gourl.Values) (key value k : List Char) :
    (if missing then q.set key value else q).get? k =
      if missing = true ∧ k = key then some [value] else q.get? k := by
  cases missing with
  | false => rw [if_neg Bool.false_ne_true, if_neg fun h => Bool.false_ne_true h.1]
  | true =>
    rw [if_pos rfl, Values.set, Dict.get?_insert]
    simp only [true_and]

/-- Nothing that was given is changed. -/
theorem get?_withDefaults (host : List Char) (q : Gourl.Values) (k : List Char) :
    (withDefaults host q).get? k = (q.get? k <|> default? host k) := by
  have hkeys : "application_name".toList ≠ "sslmode".toList := by decide
  rw [withDefaults, get?_ite_set, get?_ite_set, default?, nameMissing, modeMissing]
  by_cases hname : k = "application_name".toList
  · rw [if_neg fun h => hkeys (hname.symm.trans h.2), if_pos hname]
    cases hhas : q.has "application_name".toList with
    | false =>
      rw [if_pos ⟨rfl, hname⟩, hname, has_eq_false hhas]
      rfl
    | true =>
      obtain ⟨values, hvalues⟩ := Values.has_iff.mp hhas
      rw [if_neg fun h => Bool.false_ne_true h.1, hname, hvalues]
      rfl
  · have hunnamed : ∀ missing : Bool, ¬ (missing = true ∧ k = "application_name".toList) :=
      fun _ h => hname h.2
    rw [if_neg (hunnamed _), if_neg hname]
    by_cases hmode : k = "sslmode".toList ∧ S3.isLocalhost host = true
    · rw [if_pos hmode]
      cases hhas : q.has "sslmode".toList with
      | false =>
        rw [if_pos ⟨by rw [hmode.2]; rfl, hmode.1⟩, hmode.1, has_eq_false hhas]
        rfl
      | true =>
        obtain ⟨values, hvalues⟩ := Values.has_iff.mp hhas
        rw [if_neg (by simp), hmode.1, hvalues]
        rfl
    · have hskip : ¬ ((S3.isLocalhost host && !q.has "sslmode".toList) = true ∧
          k = "sslmode".toList) := by
        intro h
        exact hmode ⟨h.2, (Bool.and_eq_true _ _ ▸ h.1).1⟩
      rw [if_neg hskip, if_neg hmode]
      cases q.get? k with
      | none => rfl
      | some values => rfl

theorem exists_built_ite_set (missing : Bool) (key value : List Char) (edits : List Edit) :
    ∃ edits', (if missing then (Values.built edits).set key value else Values.built edits) =
      Values.built edits' := by
  cases missing with
  | false => exact ⟨edits, rfl⟩
  | true =>
    refine ⟨edits ++ [.set key value], ?_⟩
    rw [if_pos rfl, Values.built, Values.built, List.foldl_append]
    rfl

theorem exists_built_withDefaults (host : List Char) (edits : List Edit) :
    ∃ edits', withDefaults host (Values.built edits) = Values.built edits' := by
  obtain ⟨named, hnamed⟩ := exists_built_ite_set (nameMissing (Values.built edits))
    "application_name".toList "eds".toList edits
  rw [withDefaults, hnamed]
  exact exists_built_ite_set _ _ _ named

/-- The query that is put in the URL has every key as it was, or with its default. -/
theorem query_connectionUrl {u v : GoUrl} (h : connectionUrl u = .ok v) :
    ∃ q q', u.query = .ok q ∧ v.query = .ok q' ∧
      ∀ key, q'.get? key = (q.get? key <|> default? (withPort u) key) := by
  obtain ⟨q, hq, hv⟩ := bind_eq_ok.mp h
  have hv := Except.ok.inj hv
  by_cases hmissing : (nameMissing q || modeMissing (withPort u) q) = true
  · obtain ⟨edits, rfl⟩ := exists_built hq
    obtain ⟨edits', hbuilt⟩ := exists_built_withDefaults (withPort u) edits
    have hraw : v.rawQuery = (Values.built edits').encode := by
      rw [← hv, if_pos hmissing, hbuilt]
    obtain ⟨q', hq', hkeys⟩ := query_encode_built hraw
    refine ⟨_, q', hq, hq', fun key => ?_⟩
    rw [hkeys, ← hbuilt, get?_withDefaults]
  · have hquery : v.query = u.query := by
      rw [← hv, if_neg hmissing]
      rfl
    rw [Bool.or_eq_true, not_or] at hmissing
    refine ⟨q, q, hq, hquery.trans hq, fun key => ?_⟩
    rw [← get?_withDefaults, withDefaults]
    simp only [if_neg hmissing.1, if_neg hmissing.2]

theorem isLocalhost_append_port (host : List Char) :
    S3.isLocalhost (host ++ ':' :: defaultPort) = S3.isLocalhost host := by
  have hword : ∀ word : List Char, ':' ∉ word → defaultPort.length < word.length →
      decide (word <:+: host ++ ':' :: defaultPort) = decide (word <:+: host) := by
    intro word hcolon hlong
    refine decide_eq_decide.mpr ((infix_append_cons_iff hcolon).trans (or_iff_left fun hport => ?_))
    exact absurd hport.length_le (Nat.not_le_of_lt hlong)
  have hname := hword "localhost".toList (by decide) (by decide)
  have hloopback := hword "127.0.0.1".toList (by decide) (by decide)
  have hany := hword "0.0.0.0".toList (by decide) (by decide)
  unfold S3.isLocalhost
  rw [hname, hloopback, hany]

theorem isLocalhost_withPort (u : GoUrl) :
    S3.isLocalhost (withPort u) = S3.isLocalhost u.host := by
  rw [withPort]
  split
  · exact isLocalhost_append_port u.host
  · rfl

/-- After the defaults nothing is missing. -/
theorem missing_withDefaults {q q' : Gourl.Values} {host : List Char}
    (h : ∀ key, q'.get? key = (q.get? key <|> default? host key)) :
    nameMissing q' = false ∧ modeMissing host q' = false := by
  have hhas : ∀ {key values}, default? host key = some values → q'.has key = true := by
    intro key values hdefault
    rw [Values.has_iff, h, hdefault]
    cases q.get? key with
    | none => exact ⟨values, rfl⟩
    | some given => exact ⟨given, rfl⟩
  constructor
  · have hdefault : default? host "application_name".toList = some ["eds".toList] := if_pos rfl
    rw [nameMissing, hhas hdefault]
    rfl
  · rw [modeMissing]
    cases hlocal : S3.isLocalhost host with
    | false => rfl
    | true =>
      have hdefault : default? host "sslmode".toList = some ["disable".toList] := by
        rw [default?, if_neg (by decide), if_pos ⟨rfl, hlocal⟩]
      rw [hhas hdefault]
      rfl

/-! ## The result -/

theorem urlScheme_ok :
    urlScheme ≠ [] ∧ isSchemeName urlScheme = true ∧ urlScheme.map Char.toLower = urlScheme := by
  decide

/-- What `connectionUrl` makes of a URL, with `raw` as its query. -/
structure Edited (u v : GoUrl) (raw : List Char) : Prop where
  url : v = { u with scheme := urlScheme, host := withPort u, rawQuery := raw }
  nonempty : raw ≠ []
  chars : ∀ c ∈ raw, c ≠ '#' ∧ isControl c = false

variable {u v : GoUrl} {p f raw : List Char}

theorem edited_of_connectionUrl (hu : Printable u p f) (h : connectionUrl u = .ok v) :
    Edited u v v.rawQuery := by
  obtain ⟨q, q', -, hq', hkeys⟩ := query_connectionUrl h
  obtain ⟨q₀, -, hv⟩ := bind_eq_ok.mp h
  have hv := Except.ok.inj hv
  refine ⟨?_, ?_, ?_⟩
  · rw [← hv]
  · intro hnil
    have hempty : v.query = .ok Dict.empty := by
      rw [GoUrl.query, hnil]
      rfl
    have hmissing := (missing_withDefaults hkeys).1
    rw [← Except.ok.inj (hempty.symm.trans hq')] at hmissing
    cases hmissing
  · rw [← hv]
    dsimp only
    split
    · rw [encode_eq]
      exact pairs_chars _
    · exact hu.queryChars

theorem rooted_of_host (hu : Printable u p f) (hhost : u.host ≠ []) :
    u.opaquePart = [] ∧ (p = [] ∨ p.head? = some '/') := by
  cases hu.shape with
  | unslashed _ _ _ _ hnone => exact absurd hnone hhost
  | rooted hbody _ hpath => exact ⟨hbody, hpath⟩
  | relative _ _ _ hnone => exact absurd hnone hhost

theorem withPort_ne_nil (hhost : u.host ≠ []) : withPort u ≠ [] := by
  rw [withPort]
  split
  · simp
  · exact hhost

theorem Edited.shape (h : Edited u v raw) (hu : Printable u p f) (hhost : u.host ≠ []) :
    Shape v p := by
  obtain ⟨hbody, hpath⟩ := rooted_of_host hu hhost
  rw [h.url]
  exact .rooted hbody (Or.inl urlScheme_ok.1) hpath

/-- The URL that is read from the result: a query that is written is not forced. -/
def unforced (v : GoUrl) : GoUrl := { v with forceQuery := false }

theorem Edited.str (h : Edited u v raw) (hu : Printable u p f) (hhost : u.host ≠ []) :
    v.str = .ok ((unforced v).schemeText ++ bodyText (unforced v) p ++ (unforced v).queryText ++
      fragmentText (unforced v) f) := by
  have hquery : (unforced v).queryText = v.queryText := by
    rw [GoUrl.queryText, GoUrl.queryText, unforced, h.url]
    dsimp only
    rw [if_pos (Or.inr h.nonempty), if_pos (Or.inr h.nonempty)]
  have hpath : TextOf .path v.rawPath v.path p := by
    rw [h.url]
    exact hu.path
  have hfragment : TextOf .fragment v.rawFragment v.fragment f := by
    rw [h.url]
    exact hu.fragment
  rw [(h.shape hu hhost).str hpath hfragment, hquery]
  rfl

theorem Edited.host_of_parse {w : GoUrl} {t : List Char} (h : Edited u v raw)
    (hu : Printable u p f) (hhost : u.host ≠ []) (hstr : v.str = .ok t) (hparse : parse t = .ok w) :
    w.host = withPort u := by
  obtain ⟨hbody, hpath⟩ := rooted_of_host hu hhost
  have hne := withPort_ne_nil hhost
  have hauthority : (unforced v).authority =
      ['/', '/'] ++ authorityText (unforced v).user (unforced v).host := by
    rw [unforced, h.url, authority_of_front (Or.inr (Or.inl hne)), if_pos (Or.inl hne)]
  have hscheme : (unforced v).scheme = urlScheme := by rw [unforced, h.url]
  have hbodyText : bodyText (unforced v) p =
      ['/', '/'] ++ authorityText (unforced v).user (unforced v).host ++ p := by
    have hopaquePart : (unforced v).opaquePart = [] := by rw [unforced, h.url, hbody]
    rw [bodyText, hopaquePart, if_neg (not_not.mpr rfl), hauthority]
  rw [h.str hu hhost] at hstr
  rw [← Except.ok.inj hstr, hbodyText, GoUrl.schemeText, hscheme, if_pos urlScheme_ok.1] at hparse
  have htext : urlScheme ++ [':'] ++
      (['/', '/'] ++ authorityText (unforced v).user (unforced v).host ++ p) ++
        (unforced v).queryText = urlScheme ++ ':' :: '/' :: '/' ::
          (authorityText (unforced v).user (unforced v).host ++ (p ++ (unforced v).queryText)) := by
    simp
  rw [htext, ← hscheme] at hparse
  have htail : fragmentText (unforced v) f = [] ∨ (fragmentText (unforced v) f).head? = some '#' := by
    rw [fragmentText]
    split
    · exact Or.inr rfl
    · exact Or.inl rfl
  have hchars : ∀ c ∈ p, inBody c = true := fun c hc =>
    hu.bodyChars c (List.mem_append_right u.opaquePart hc)
  have huser : UserOk (unforced v).user := by
    rw [unforced, h.url]
    exact hu.user
  have hquery : ∀ c ∈ (unforced v).rawQuery, c ≠ '#' ∧ isControl c = false := by
    rw [unforced, h.url]
    exact h.chars
  have hname : isSchemeName (unforced v).scheme = true := by
    rw [hscheme]
    exact urlScheme_ok.2.1
  rw [(Gourl.host_of_parse hname huser hpath (fun hforce => absurd hforce Bool.false_ne_true)
    hchars hquery htail hparse).1, unforced, h.url]

theorem Edited.printable (h : Edited u v raw) (hu : Printable u p f) (hhost : u.host ≠ [])
    (hok : HostOk (withPort u)) : Printable (unforced v) p f := by
  obtain ⟨hbody, hpath⟩ := rooted_of_host hu hhost
  rw [unforced, h.url]
  exact
    { scheme := Or.inr urlScheme_ok.2
      user := hu.user
      host := hok
      path := hu.path
      forced := fun hforce => absurd hforce Bool.false_ne_true
      shape := .rooted hbody (Or.inl urlScheme_ok.1) hpath
      bodyChars := hu.bodyChars
      queryChars := h.chars
      fragment := hu.fragment
      fragmentChars := hu.fragmentChars }

theorem default?_withPort (u : GoUrl) (key : List Char) :
    default? (withPort u) key = default? u.host key := by
  rw [default?, isLocalhost_withPort, default?]

/-- The result says what the URL says, and is its own result. -/
structure Stable (u : GoUrl) (t : List Char) : Prop where
  read : ∃ v q q', parse t = .ok v ∧ u.query = .ok q ∧ v.query = .ok q' ∧
    v.user = u.user ∧ v.hostname = u.hostname ∧
    v.port = (if u.port = [] then defaultPort else u.port) ∧ v.path = u.path ∧
    v.fragment = u.fragment ∧ ∀ key, q'.get? key = (q.get? key <|> default? u.host key)
  again : getConnectionStringFromUrl t = .ok t

theorem getConnectionStringFromUrl_ok {s t : List Char} (hparse : parse s = .ok u)
    (h : getConnectionStringFromUrl s = .ok t) : ∃ v, connectionUrl u = .ok v ∧ v.str = .ok t := by
  rw [getConnectionStringFromUrl, hparse] at h
  dsimp only [Except.mapError, bind, Except.bind] at h
  cases hv : connectionUrl u with
  | error e =>
    rw [hv] at h
    cases h
  | ok v =>
    rw [hv] at h
    dsimp only at h
    refine ⟨v, rfl, ?_⟩
    cases ht : v.str with
    | error e =>
      rw [ht] at h
      cases h
    | ok t' =>
      rw [ht] at h
      rw [Except.ok.inj h]

theorem splitHostPort_withPort (h : Unported u.host ∨ u.port ≠ []) :
    splitHostPort (withPort u) = (u.hostname, if u.port = [] then defaultPort else u.port) := by
  by_cases hport : u.port = []
  · have hunported := h.resolve_right (not_not.mpr hport)
    have hname : u.hostname = unbracketed u.host := by
      rw [GoUrl.hostname, splitHostPort_of_unported hunported]
    rw [withPort, if_pos hport, if_pos hport, hname]
    exact splitHostPort_append u.host (by decide)
  · rw [withPort, if_neg hport, if_neg hport]
    rfl

/-- A host without a port and without a colon at its end has not even an empty port. -/
theorem unported_or_port (h : u.host.getLast? ≠ some ':') : Unported u.host ∨ u.port ≠ [] := by
  rcases port_cases u.host with ⟨front, digits, hsplit, hdigits⟩ | hunported
  · right
    rw [GoUrl.port, hsplit, splitHostPort_append front hdigits]
    rintro rfl
    rw [hsplit, List.getLast?_concat] at h
    exact h rfl
  · exact Or.inl hunported

theorem Edited.stable {t : List Char} (h : Edited u v raw) (hu : Printable u p f)
    (hhost : u.host ≠ []) (hlast : u.host.getLast? ≠ some ':') (hconn : connectionUrl u = .ok v)
    (hstr : v.str = .ok t) : Stable u t := by
  have hported := unported_or_port hlast
  have hok : HostOk (withPort u) := by
    by_cases hport : u.port = []
    · rw [withPort, if_pos hport]
      exact hu.host.append_port (hported.resolve_right (not_not.mpr hport)) (by decide)
    · rw [withPort, if_neg hport]
      exact hu.host
  have hparse : parse t = .ok (unforced v) := by
    rw [h.str hu hhost] at hstr
    rw [← Except.ok.inj hstr]
    exact parse_text (h.printable hu hhost hok)
  obtain ⟨q, q', hq, hq', hkeys⟩ := query_connectionUrl hconn
  obtain ⟨hname, hmode⟩ := missing_withDefaults hkeys
  have hsplit := splitHostPort_withPort hported
  have hhostV : (unforced v).host = withPort u := by rw [unforced, h.url]
  have hportV : (unforced v).port ≠ [] := by
    rw [GoUrl.port, hhostV, hsplit]
    dsimp only
    split
    · decide
    · next hport => exact hport
  have hagain : connectionUrl (unforced v) = .ok (unforced v) := by
    have hquery : (unforced v).query = .ok q' := hq'
    have hkept : withPort (unforced v) = withPort u := by rw [withPort, if_neg hportV, hhostV]
    refine bind_eq_ok.mpr ⟨q', hquery, ?_⟩
    rw [hkept, hname, hmode, unforced, h.url]
    rfl
  have hstrV : (unforced v).str = .ok t := by
    rw [(h.printable hu hhost hok).str, ← h.str hu hhost]
    exact hstr
  refine ⟨⟨unforced v, q, q', hparse, hq, hq', ?_, ?_, ?_, ?_, ?_, ?_⟩, ?_⟩
  · rw [unforced, h.url]
  · rw [GoUrl.hostname, hhostV, hsplit]
  · rw [GoUrl.port, hhostV, hsplit]
  · rw [unforced, h.url]
  · rw [unforced, h.url]
  · exact fun key => (hkeys key).trans (by rw [default?_withPort])
  · rw [getConnectionStringFromUrl, hparse]
    dsimp only [Except.mapError, bind, Except.bind]
    rw [hagain]
    dsimp only
    rw [hstrV]

/-- With an empty port the colon becomes a part of the host name. -/
theorem Edited.not_stable {t : List Char} (h : Edited u v raw) (hu : Printable u p f)
    (hhost : u.host ≠ []) (hlast : u.host.getLast? = some ':') (hstr : v.str = .ok t) :
    ¬ Stable u t := by
  intro hstable
  obtain ⟨w, _, _, hparse, -, -, -, hname, -⟩ := hstable.read
  obtain ⟨front, hfront⟩ := List.getLast?_eq_some_iff.mp hlast
  have hsplit : splitHostPort u.host = (unbracketed front, []) := by
    rw [hfront]
    exact splitHostPort_append front (by decide)
  have hport : u.port = [] := by rw [GoUrl.port, hsplit]
  have hwhost : w.host = u.host ++ ':' :: defaultPort := by
    rw [h.host_of_parse hu hhost hstr hparse, withPort, if_pos hport]
  have hwname : w.hostname = front ++ [':'] := by
    rw [GoUrl.hostname, hwhost, splitHostPort_append u.host (by decide), hfront]
    exact unbracketed_append_colon front
  rw [hwname, GoUrl.hostname, hsplit] at hname
  have hlength := length_unbracketed_le front
  have hname' : front ++ [':'] = unbracketed front := hname
  rw [← hname', List.length_append, List.length_singleton] at hlength
  omega

/-- A connection string is stable and says what the URL says if and only if the host does not end
in a colon, that is in an empty port. -/
theorem connectionString_stable_iff {s t : List Char} (hparse : parse s = .ok u)
    (hhost : u.host ≠ []) (hok : getConnectionStringFromUrl s = .ok t) :
    Stable u t ↔ u.host.getLast? ≠ some ':' := by
  obtain ⟨p, f, hu⟩ := printable_of_parse hparse
  obtain ⟨v, hconn, hstr⟩ := getConnectionStringFromUrl_ok hparse hok
  have hedited := edited_of_connectionUrl hu hconn
  constructor
  · exact fun hstable hlast => hedited.not_stable hu hhost hlast hstr hstable
  · exact fun hlast => hedited.stable hu hhost hlast hconn hstr

/-- The colons in brackets are no ports. -/
theorem connectionString_stable_iff_brackets :
    Stable { GoUrl.blank with
      scheme := "pg".toList, user := some ⟨['u'], "p@".toList, true⟩, host := "[::1]".toList,
      path := "/db".toList } "postgresql://u:p%40@[::1]:5432/db?application_name=eds".toList :=
  (connectionString_stable_iff (s := "pg://u:p%40@[::1]/db".toList) (by decide +kernel)
    (List.cons_ne_nil _ _) (by decide +kernel)).mpr (by decide)

/-- An empty port: the host name is another one. -/
theorem not_stable_colon :
    ¬ ∀ (s t : List Char) (u : GoUrl), parse s = .ok u → u.host ≠ [] →
      getConnectionStringFromUrl s = .ok t → Stable u t := by
  intro hall
  have hstable := hall "postgres://h:/db".toList
    "postgresql://h::5432/db?application_name=eds".toList
    { GoUrl.blank with scheme := "postgres".toList, host := "h:".toList, path := "/db".toList }
    (by decide +kernel) (List.cons_ne_nil _ _) (by decide +kernel)
  obtain ⟨v, _, _, hparse, -, -, -, hname, -⟩ := hstable.read
  have hread : (parse "postgresql://h::5432/db?application_name=eds".toList).map GoUrl.hostname =
      .ok "h:".toList := by decide +kernel
  rw [hparse] at hread
  have hother := hname.symm.trans (Except.ok.inj hread)
  exact absurd hother (by decide)

end Postgresql
end Drivers
end Eds
