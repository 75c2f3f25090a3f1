import Eds.Collections.Traverse
import Eds.Util.Gourl.Hosts

/-!
# URLs that are read back from their text

`Printable` says what of a URL makes its text readable: each part is written with characters that
end no other part, and the parts that are there fit together in one of three shapes.  A printable
URL is printed (`Printable.str`) and read back from what is printed (`parse_text`).
-/

namespace Eds
namespace Util
namespace Gourl

open Lexing Percent

/-! ## The scheme -/

def isSchemeChar (c : Char) : Bool := isLetter c || isDigit c || ['+', '-', '.'].contains c

theorem lt_of_isSchemeChar {c : Char} (h : isSchemeChar c = true) : c.toNat < 128 := by
  simp only [isSchemeChar, Bool.or_eq_true, List.contains_cons, List.contains_nil, Bool.or_false,
    beq_iff_eq] at h
  rcases h with (h | h) | rfl | rfl | rfl
  · exact lt_of_isLetter h
  · exact lt_of_isDigit h
  · decide
  · decide
  · decide

/-- A scheme as it is written, in any case. -/
def isSchemeName : List Char → Bool
  | [] => false
  | c :: name => isLetter c && (c :: name).all isSchemeChar

theorem schemeFrom_of_chars {raw : List Char} (name : List Char) {seen : List Char}
    (hseen : seen ≠ []) (hname : name.all isSchemeChar = true) (rest : List Char) :
    schemeFrom raw seen (name ++ ':' :: rest) = .ok ((seen ++ name).map Char.toLower, rest) := by
  induction name generalizing seen with
  | nil =>
    rw [List.nil_append, schemeFrom, if_neg (by decide), if_neg (by decide), if_pos rfl,
      if_neg hseen, List.append_nil]
  | cons c name ih =>
    rw [List.all_cons, Bool.and_eq_true] at hname
    have hseen' : seen ++ [c] ≠ [] := by simp
    have hnext := ih hseen' hname.2
    rw [List.append_assoc, List.singleton_append] at hnext
    rw [List.cons_append, schemeFrom]
    by_cases hletter : isLetter c = true
    · rw [if_pos hletter]
      exact hnext
    · have hother : (isDigit c || ['+', '-', '.'].contains c) = true := by
        simpa [isSchemeChar, hletter] using hname.1
      rw [if_neg hletter, if_pos hother, if_neg hseen]
      exact hnext

theorem getScheme_of_name {name : List Char} (h : isSchemeName name = true) (rest : List Char) :
    getScheme (name ++ ':' :: rest) = .ok (name.map Char.toLower, rest) := by
  cases name with
  | nil => cases h
  | cons c name =>
    rw [isSchemeName, List.all_cons, Bool.and_eq_true, Bool.and_eq_true] at h
    rw [getScheme, List.cons_append, schemeFrom, if_pos h.1]
    exact schemeFrom_of_chars name (List.cons_ne_nil c []) h.2.2 rest

/-- A scheme that is found stands in front of the first colon. -/
theorem schemeFrom_ok {raw seen text scheme rest : List Char} (hraw : raw = seen ++ text)
    (hseen : seen = [] ∨ isSchemeName seen = true)
    (h : schemeFrom raw seen text = .ok (scheme, rest)) :
    (scheme = [] ∧ rest = raw) ∨
      ∃ name, isSchemeName name = true ∧ raw = name ++ ':' :: rest ∧
        scheme = name.map Char.toLower := by
  have hnone : ∀ {r : Except Error (List Char × List Char)}, r = .ok ([], raw) →
      r = .ok (scheme, rest) → scheme = [] ∧ rest = raw := by
    intro r hr hr'
    rw [hr] at hr'
    have hpair := Except.ok.inj hr'
    exact ⟨(Prod.mk.inj hpair).1.symm, (Prod.mk.inj hpair).2.symm⟩
  induction text generalizing seen with
  | nil => exact Or.inl (hnone rfl h)
  | cons c text ih =>
    have hmore : seen ++ c :: text = (seen ++ [c]) ++ text := by simp
    rw [schemeFrom] at h
    split at h
    · next hletter =>
      refine ih (hraw.trans hmore) (Or.inr ?_) h
      rcases hseen with rfl | hseen
      · simp [isSchemeName, isSchemeChar, hletter]
      · cases seen with
        | nil => cases hseen
        | cons d seen =>
          simp only [isSchemeName, List.cons_append, Bool.and_eq_true, List.all_cons,
            List.all_append] at hseen ⊢
          simp [hseen, isSchemeChar, hletter]
    · split at h
      · next hother =>
        split at h
        · exact Or.inl (hnone rfl h)
        · next hne =>
          refine ih (hraw.trans hmore) (Or.inr ?_) h
          have hseen := hseen.resolve_left hne
          cases seen with
          | nil => cases hseen
          | cons d seen =>
            simp only [isSchemeName, List.cons_append, Bool.and_eq_true, List.all_cons,
              List.all_append] at hseen ⊢
            refine ⟨hseen.1, hseen.2.1, hseen.2.2, ?_, rfl⟩
            rw [isSchemeChar, Bool.or_assoc, hother, Bool.or_true]
      · split at h
        · next hcolon =>
          split at h
          · cases h
          · next hne =>
            have hpair := Prod.mk.inj (Except.ok.inj h)
            refine Or.inr ⟨seen, hseen.resolve_left hne, ?_, hpair.1.symm⟩
            rw [hraw, hcolon, hpair.2]
        · exact Or.inl (hnone rfl h)

theorem schemeFrom_of_not {raw : List Char} {c : Char} (hletter : isLetter c = false)
    (hcolon : c ≠ ':') (text : List Char) : schemeFrom raw [] (c :: text) = .ok ([], raw) := by
  rw [schemeFrom, hletter, if_neg Bool.false_ne_true, if_pos rfl, if_neg hcolon]
  exact ite_self _

/-! ## The query -/

theorem queryText_head {u : GoUrl} (h : u.queryText ≠ []) : u.queryText.head? = some '?' := by
  unfold GoUrl.queryText at h ⊢
  by_cases hquery : u.forceQuery ∨ u.rawQuery ≠ []
  · rw [if_pos hquery]
    rfl
  · rw [if_neg hquery] at h
    exact absurd rfl h

theorem cutQuery_of_notMem {body : List Char} (h : '?' ∉ body) :
    cutQuery body = (body, false, []) := by
  have hlast : ¬ (body.getLast? = some '?' ∧ body.count '?' = 1) := by
    intro hforce
    exact h (List.mem_of_getLast? hforce.1)
  rw [cutQuery, if_neg hlast, partition_of_notMem h]

theorem cutQuery_append {body : List Char} (h : '?' ∉ body) (query : List Char) :
    cutQuery (body ++ '?' :: query) = (body, query.isEmpty, query) := by
  cases query with
  | nil =>
    have hcount : (body ++ ['?']).count '?' = 1 := by
      rw [List.count_append, List.count_eq_zero_of_not_mem h]
      rfl
    rw [cutQuery, if_pos ⟨List.getLast?_concat, hcount⟩, List.dropLast_concat]
    rfl
  | cons c query =>
    have hforce : ¬ ((body ++ '?' :: c :: query).getLast? = some '?' ∧
        (body ++ '?' :: c :: query).count '?' = 1) := by
      intro hforce
      have hlast : (c :: query).getLast? = some '?' := by
        rw [← hforce.1, List.getLast?_append_of_ne_nil _ (List.cons_ne_nil _ _),
          List.getLast?_cons_cons]
      have hmem : 0 < (c :: query).count '?' :=
        List.count_pos_iff.mpr (List.mem_of_getLast? hlast)
      have hcount := hforce.2
      rw [List.count_append, List.count_cons_self] at hcount
      omega
    rw [cutQuery, if_neg hforce, partition_append h]
    rfl

/-- What `cutQuery` finds, as `queryText` puts it back. -/
structure Cut (u : GoUrl) (rest body : List Char) : Prop where
  text : rest = body ++ u.queryText
  unmarked : '?' ∉ body
  forced : u.forceQuery = true → u.rawQuery = []

theorem cutQuery_iff {u : GoUrl} {rest body : List Char} :
    cutQuery rest = (body, u.forceQuery, u.rawQuery) ↔ Cut u rest body := by
  constructor
  · intro h
    by_cases hmem : '?' ∈ rest
    · obtain ⟨body', query, rfl, hbody⟩ := List.eq_append_cons_of_mem hmem
      rw [cutQuery_append hbody] at h
      obtain ⟨rfl, hforce, rfl⟩ : body' = body ∧ query.isEmpty = u.forceQuery ∧ query = u.rawQuery :=
        ⟨congrArg (·.1) h, congrArg (·.2.1) h, congrArg (·.2.2) h⟩
      refine ⟨?_, hbody, ?_⟩
      · rw [GoUrl.queryText, if_pos]
        rw [← hforce, List.isEmpty_iff]
        exact Classical.em _
      · rw [← hforce, List.isEmpty_iff]
        exact id
    · rw [cutQuery_of_notMem hmem] at h
      obtain ⟨rfl, hforce, hquery⟩ : rest = body ∧ false = u.forceQuery ∧ [] = u.rawQuery :=
        ⟨congrArg (·.1) h, congrArg (·.2.1) h, congrArg (·.2.2) h⟩
      refine ⟨?_, hmem, fun _ => hquery.symm⟩
      rw [GoUrl.queryText, ← hforce, ← hquery]
      simp
  · intro h
    obtain ⟨rfl, hbody, hforced⟩ := h
    cases hforce : u.forceQuery with
    | true =>
      rw [GoUrl.queryText, if_pos (Or.inl hforce), cutQuery_append hbody, hforced hforce]
      rfl
    | false =>
      by_cases hquery : u.rawQuery = []
      · rw [GoUrl.queryText, hforce, hquery, if_neg (by simp), List.append_nil,
          cutQuery_of_notMem hbody]
      · rw [GoUrl.queryText, if_pos (Or.inr hquery), cutQuery_append hbody,
          List.isEmpty_eq_false_iff.mpr hquery]

/-! ## Texts that are kept -/

/-- `t` is the text of a part, as it was read. -/
structure TextOf (mode : Mode) (raw decoded t : List Char) : Prop where
  reads : unescape t mode = .ok decoded
  raw : raw = rawText t decoded mode

theorem unescape_eq_nil {t : List Char} {mode : Mode} (h : unescape t mode = .ok []) : t = [] := by
  have hread := unescape_iff.mp h
  cases ht : utf8 t with
  | nil => exact utf8_injective ht
  | cons b bytes =>
    rw [ht] at hread
    cases hread

section

variable {mode : Mode} {raw decoded t : List Char}

theorem TextOf.nil_iff (h : TextOf mode raw decoded t) : decoded = [] ↔ t = [] := by
  constructor
  · intro hdecoded
    have hread := h.reads
    rw [hdecoded] at hread
    exact unescape_eq_nil hread
  · intro ht
    have hread := h.reads
    rw [ht] at hread
    exact (Except.ok.inj hread).symm

theorem TextOf.blank_of_nil (h : TextOf mode raw decoded t) (ht : t = []) :
    decoded = [] ∧ raw = [] := by
  have hdecoded := h.nil_iff.mpr ht
  refine ⟨hdecoded, ?_⟩
  rw [h.raw, hdecoded, ht]
  exact ite_self _

theorem TextOf.escaped (h : TextOf mode raw decoded t) : escaped raw decoded mode = .ok t := by
  have hraw := h.raw
  unfold rawText at hraw
  by_cases hescape : escape decoded mode = t
  · rw [if_neg (not_not.mpr hescape)] at hraw
    rw [Gourl.escaped, if_neg (not_not.mpr hraw), hescape]
    rfl
  · rw [if_pos hescape] at hraw
    by_cases ht : t = []
    · rw [h.nil_iff.mpr ht, ht] at hescape
      exact absurd rfl hescape
    · rw [hraw, Gourl.escaped, if_pos ht, h.reads]
      exact congrArg Except.ok (if_pos rfl)

end

/-! ## The authority -/

/-- A character that neither ends an authority nor is refused in a URL. -/
def inAuthority (c : Char) : Bool := !(['/', '?', '#'].contains c) && !isControl c

/-- A character of a user name or a password as it is printed. -/
def inUserinfo (c : Char) : Bool := !(['@', ':'].contains c) && inAuthority c

theorem userinfo_of_mem_escape {s : List Char} {c : Char} (h : c ∈ escape s .userPassword) :
    inUserinfo c = true := by
  have hwritten : written .userPassword inUserinfo = true := by decide +kernel
  exact forall_mem_escape hwritten s c h

theorem host_of_mem_escape {s : List Char} {c : Char} (h : c ∈ escape s .host) :
    (!(['@'].contains c) && inAuthority c) = true := by
  have hwritten : written .host (fun c => !(['@'].contains c) && inAuthority c) = true := by
    decide +kernel
  exact forall_mem_escape hwritten s c h

/-- A user as it is read: without a password there is no text of one. -/
def UserOk : Option Userinfo → Prop
  | some user => user.passwordSet = false → user.password = []
  | none => True

/-- `user` and host in front of the path -/
def authorityText (user : Option Userinfo) (host : List Char) : List Char :=
  (match user with
    | some user => user.str ++ ['@']
    | none => []) ++ escape host .host

theorem inAuthority_of_mem {user : Option Userinfo} {host : List Char} {c : Char}
    (h : c ∈ authorityText user host) : inAuthority c = true := by
  have hand : ∀ {a b : Bool}, (a && b) = true → b = true := fun h => (Bool.and_eq_true _ _ ▸ h).2
  rcases List.mem_append.mp h with hmem | hmem
  · cases user with
    | none => exact absurd hmem List.not_mem_nil
    | some user =>
      rcases List.mem_append.mp hmem with hmem | hmem
      · rcases List.mem_append.mp hmem with hmem | hmem
        · exact hand (userinfo_of_mem_escape hmem)
        · split at hmem
          · rcases List.mem_cons.mp hmem with rfl | hmem
            · decide
            · exact hand (userinfo_of_mem_escape hmem)
          · exact absurd hmem List.not_mem_nil
      · rw [List.mem_singleton.mp hmem]
        decide
  · exact hand (host_of_mem_escape hmem)

theorem parseAuthority_text_eq {user : Option Userinfo} {host : List Char} (huser : UserOk user) :
    parseAuthority (authorityText user host) =
      parseHost (escape host .host) >>= fun h => .ok (user, h) := by
  have hat : '@' ∉ escape host .host := fun hmem => absurd (host_of_mem_escape hmem) (by decide)
  cases user with
  | none =>
    rw [authorityText, List.nil_append, parseAuthority, rpartition_of_notMem hat]
    rfl
  | some user =>
    obtain ⟨username, password, passwordSet⟩ := user
    have hcolon : ':' ∉ escape username .userPassword := fun hmem =>
      absurd (userinfo_of_mem_escape hmem) (by decide)
    have hname : unescape (escape username .userPassword) .userPassword = .ok username :=
      unescape_escape username (by decide)
    have hword : unescape (escape password .userPassword) .userPassword = .ok password :=
      unescape_escape password (by decide)
    have hcut : authorityText (some ⟨username, password, passwordSet⟩) host =
        Userinfo.str ⟨username, password, passwordSet⟩ ++ '@' :: escape host .host := by
      simp [authorityText]
    rw [hcut, parseAuthority, rpartition_append hat]
    refine congrArg (parseHost (escape host .host) >>= ·) (funext fun h => ?_)
    cases passwordSet with
    | true =>
      have hstr : Userinfo.str ⟨username, password, true⟩ =
          escape username .userPassword ++ ':' :: escape password .userPassword := rfl
      rw [hstr, partition_append hcolon]
      dsimp only
      rw [hname, hword]
      rfl
    | false =>
      have hstr : Userinfo.str ⟨username, password, false⟩ = escape username .userPassword :=
        List.append_nil _
      have hempty : password = [] := huser rfl
      rw [hstr, partition_of_notMem hcolon]
      dsimp only
      rw [hname, hempty]
      rfl

/-- What is printed for a user and a host is read, unless the host is refused. -/
theorem parseAuthority_text_iff {user : Option Userinfo} {host : List Char} (huser : UserOk user)
    {authority : Option Userinfo × List Char} :
    parseAuthority (authorityText user host) = .ok authority ↔
      authority = (user, host) ∧ HostOk host := by
  rw [parseAuthority_text_eq huser, Collections.bind_eq_ok]
  simp only [parseHost_escape_iff, Except.ok.injEq]
  constructor
  · intro h
    obtain ⟨_, ⟨rfl, hhost⟩, rfl⟩ := h
    exact ⟨rfl, hhost⟩
  · intro h
    obtain ⟨rfl, hhost⟩ := h
    exact ⟨host, ⟨rfl, hhost⟩, rfl⟩

theorem ok_of_parseAuthority {text : List Char} {user : Option Userinfo} {host : List Char}
    (h : parseAuthority text = .ok (user, host)) : UserOk user ∧ HostOk host := by
  unfold parseAuthority at h
  generalize rpartition '@' text = cut at h
  obtain ⟨userinfo, found, hosttext⟩ := cut
  cases found with
  | false =>
    obtain ⟨host', hparse, hpair⟩ := Collections.bind_eq_ok.mp h
    obtain ⟨rfl, rfl⟩ := Prod.mk.inj (Except.ok.inj hpair)
    exact ⟨trivial, hostOk_of_parseHost hparse⟩
  | true =>
    obtain ⟨host', hparse, h⟩ := Collections.bind_eq_ok.mp h
    generalize partition ':' userinfo = cut at h
    obtain ⟨uname, colon, pword⟩ := cut
    cases colon with
    | false =>
      obtain ⟨username, -, hpair⟩ := Collections.bind_eq_ok.mp h
      obtain ⟨rfl, rfl⟩ := Prod.mk.inj (Except.ok.inj hpair)
      exact ⟨fun _ => rfl, hostOk_of_parseHost hparse⟩
    | true =>
      obtain ⟨username, -, h⟩ := Collections.bind_eq_ok.mp h
      obtain ⟨password, -, hpair⟩ := Collections.bind_eq_ok.mp h
      obtain ⟨rfl, rfl⟩ := Prod.mk.inj (Except.ok.inj hpair)
      exact ⟨fun hset => absurd hset (by simp), hostOk_of_parseHost hparse⟩

/-! ## Printable URLs -/

/-- A character that neither ends what stands in front of the query nor is refused in a URL. -/
def inBody (c : Char) : Bool := !(['?', '#'].contains c) && !isControl c

theorem inBody_iff {c : Char} : inBody c = true ↔ c ≠ '?' ∧ c ≠ '#' ∧ isControl c = false := by
  simp only [inBody, Bool.and_eq_true, Bool.not_eq_true', List.contains_cons, List.contains_nil,
    Bool.or_false, Bool.or_eq_false_iff, beq_eq_false_iff_ne, and_assoc]

theorem inBody_of_inAuthority {c : Char} (h : inAuthority c = true) : inBody c = true := by
  simp only [inAuthority, inBody, Bool.and_eq_true, Bool.not_eq_true', List.contains_cons,
    Bool.or_eq_false_iff] at h ⊢
  exact ⟨h.1.2, h.2⟩

theorem inBody_of_isSchemeChar {c : Char} (h : isSchemeChar c = true) : inBody c = true :=
  of_ascii (q := fun c => inBody c = true) (fun _ => lt_of_isSchemeChar) (by decide +kernel) h

/-- How the parts of a URL fit together, with `p` as the text of its path. -/
inductive Shape (u : GoUrl) (p : List Char) : Prop where
  | unslashed (scheme : u.scheme ≠ []) (body : u.opaquePart.head? ≠ some '/')
      (nonempty : u.opaquePart ≠ []) (user : u.user = none) (host : u.host = []) (path : p = [])
  | rooted (body : u.opaquePart = []) (front : u.scheme ≠ [] ∨ u.host ≠ [] ∨ u.user.isSome)
      (path : p = [] ∨ p.head? = some '/')
  | relative (body : u.opaquePart = []) (scheme : u.scheme = []) (user : u.user = none)
      (host : u.host = []) (unschemed : getScheme (p ++ u.queryText) = .ok ([], p ++ u.queryText))
      (segment : p.head? ≠ some '/' → ':' ∉ p.takeWhile (· ≠ '/'))
      (slashes : ['/', '/'] <+: p → ['/', '/', '/'] <+: p)

/-- `p` and `f` are the texts of the path and of the fragment. -/
structure Printable (u : GoUrl) (p f : List Char) : Prop where
  scheme : u.scheme = [] ∨ isSchemeName u.scheme = true ∧ u.scheme.map Char.toLower = u.scheme
  user : UserOk u.user
  host : HostOk u.host
  path : TextOf .path u.rawPath u.path p
  forced : u.forceQuery = true → u.rawQuery = []
  shape : Shape u p
  bodyChars : ∀ c ∈ u.opaquePart ++ p, inBody c = true
  queryChars : ∀ c ∈ u.rawQuery, c ≠ '#' ∧ isControl c = false
  fragment : TextOf .fragment u.rawFragment u.fragment f
  fragmentChars : ∀ c ∈ f, isControl c = false

/-- What is printed between the scheme and the query. -/
def bodyText (u : GoUrl) (p : List Char) : List Char :=
  if u.opaquePart ≠ [] then u.opaquePart else u.authority ++ p

theorem authority_of_front {u : GoUrl} (h : u.scheme ≠ [] ∨ u.host ≠ [] ∨ u.user.isSome) :
    u.authority = (if u.host ≠ [] ∨ u.path ≠ [] ∨ u.user.isSome then ['/', '/'] else []) ++
      authorityText u.user u.host := by
  rw [GoUrl.authority, if_pos h, List.append_assoc]
  rfl

theorem authority_of_not {u : GoUrl} (hscheme : u.scheme = []) (huser : u.user = none)
    (hhost : u.host = []) : u.authority = [] := by
  simp [GoUrl.authority, hscheme, huser, hhost]

variable {u : GoUrl} {p f : List Char}

theorem inBody_of_mem_bodyText (h : Printable u p f) {c : Char} (hc : c ∈ bodyText u p) :
    inBody c = true := by
  unfold bodyText at hc
  split at hc
  · exact h.bodyChars c (List.mem_append_left p hc)
  · rcases List.mem_append.mp hc with hc | hc
    · by_cases hfront : u.scheme ≠ [] ∨ u.host ≠ [] ∨ u.user.isSome
      · rw [authority_of_front hfront] at hc
        rcases List.mem_append.mp hc with hc | hc
        · split at hc
          · have hslash : c = '/' := by simpa using hc
            rw [hslash]
            decide
          · exact absurd hc List.not_mem_nil
        · exact inBody_of_inAuthority (inAuthority_of_mem hc)
      · rw [GoUrl.authority, if_neg hfront] at hc
        exact absurd hc List.not_mem_nil
    · exact h.bodyChars c (List.mem_append_right u.opaquePart hc)

/-! ## Printing -/

def fragmentText (u : GoUrl) (f : List Char) : List Char :=
  if u.fragment ≠ [] then '#' :: f else []

theorem Shape.hierarchy (hshape : Shape u p) (hpath : TextOf .path u.rawPath u.path p) :
    u.hierarchy = .ok (u.authority ++ p) := by
  have hslash : (if p ≠ [] ∧ p.head? ≠ some '/' ∧ u.host ≠ [] then ['/'] else []) = [] := by
    refine if_neg fun hmissing => ?_
    cases hshape with
    | unslashed _ _ _ _ _ hp => exact hmissing.1 hp
    | rooted _ _ hp =>
      rcases hp with hp | hp
      · exact hmissing.1 hp
      · exact hmissing.2.1 hp
    | relative _ _ _ hhost => exact hmissing.2.2 hhost
  rw [GoUrl.hierarchy, GoUrl.escapedPath, hpath.escaped]
  refine congrArg Except.ok ?_
  rw [hslash, List.append_nil]

theorem Shape.str (hshape : Shape u p) (hpath : TextOf .path u.rawPath u.path p)
    (hfragment : TextOf .fragment u.rawFragment u.fragment f) :
    u.str = .ok (u.schemeText ++ bodyText u p ++ u.queryText ++ fragmentText u f) := by
  have hescaped : u.escapedFragment = .ok f := hfragment.escaped
  have hhierarchy : u.hierarchy = .ok (u.authority ++ p) := hshape.hierarchy hpath
  unfold GoUrl.str bodyText fragmentText
  by_cases hbody : u.opaquePart ≠ []
  · by_cases hf : u.fragment ≠ []
    · simp only [if_pos hbody, if_pos hf, hescaped]
      rfl
    · simp only [if_pos hbody, if_neg hf]
      rfl
  · by_cases hf : u.fragment ≠ []
    · simp only [if_neg hbody, if_pos hf, hhierarchy, hescaped]
      rfl
    · simp only [if_neg hbody, if_neg hf, hhierarchy]
      rfl

theorem Printable.str (h : Printable u p f) :
    u.str = .ok (u.schemeText ++ bodyText u p ++ u.queryText ++ fragmentText u f) :=
  h.shape.str h.path h.fragment

/-! ## Reading back -/

theorem takeWhile_front {a : List Char} (ha : '/' ∉ a) (hp : p = [] ∨ p.head? = some '/') :
    (a ++ p).takeWhile (· ≠ '/') = a ∧ (a ++ p).dropWhile (· ≠ '/') = p := by
  have hall : ∀ c ∈ a, decide (c ≠ '/') = true := by
    intro c hc
    exact decide_eq_true fun h => ha (h ▸ hc)
  rw [List.takeWhile_append_of_pos hall, List.dropWhile_append_of_pos hall]
  rcases hp with rfl | hp
  · simp
  · obtain ⟨rest, rfl⟩ := List.head?_eq_some_iff.mp hp
    simp

theorem setPath_ok (h : TextOf .path u.rawPath u.path p) (v : GoUrl) :
    setPath v p = .ok { v with path := u.path, rawPath := u.rawPath } := by
  rw [setPath, h.reads, h.raw]
  rfl

/-- The part of `u` that is known when its scheme and its query are. -/
def start (u : GoUrl) : GoUrl :=
  { GoUrl.blank with scheme := u.scheme, forceQuery := u.forceQuery, rawQuery := u.rawQuery }

/-- All but the fragment. -/
def unfragmented (u : GoUrl) : GoUrl := { u with fragment := [], rawFragment := [] }

theorem slash_notMem_authorityText (user : Option Userinfo) (host : List Char) :
    '/' ∉ authorityText user host := fun hmem => absurd (inAuthority_of_mem hmem) (by decide)

theorem authorityText_ne_nil {user : Option Userinfo} {host : List Char}
    (h : host ≠ [] ∨ user.isSome = true) : authorityText user host ≠ [] := by
  intro hnil
  obtain ⟨huser, hhost⟩ := List.append_eq_nil_iff.mp hnil
  rcases h with h | h
  · exact h (escape_eq_nil.mp hhost)
  · cases user with
    | none => cases h
    | some user => exact absurd (List.append_eq_nil_iff.mp huser).2 (List.cons_ne_nil _ _)

/-- Two slashes are the whole of an empty authority only where there is a scheme. -/
theorem slashes_of_authority {scheme host : List Char} {user : Option Userinfo}
    (hfront : scheme ≠ [] ∨ host ≠ [] ∨ user.isSome) :
    (scheme ≠ [] ∨ ¬ ['/', '/', '/'] <+: '/' :: '/' :: (authorityText user host ++ p)) ∧
      ['/', '/'] <+: '/' :: '/' :: (authorityText user host ++ p) := by
  refine ⟨hfront.imp_right fun hfront hstart => ?_, ⟨_, rfl⟩⟩
  have hslash := slash_notMem_authorityText user host
  cases htext : authorityText user host with
  | nil => exact authorityText_ne_nil hfront htext
  | cons c text =>
    rw [htext] at hstart hslash
    simp only [List.cons_append, List.cons_prefix_cons] at hstart
    exact hslash (hstart.2.2.1 ▸ List.mem_cons_self)

theorem parseBody_rooted (h : Printable u p f) (hbody : u.opaquePart = [])
    (hfront : u.scheme ≠ [] ∨ u.host ≠ [] ∨ u.user.isSome) (hp : p = [] ∨ p.head? = some '/') :
    parseBody (start u) (u.authority ++ p) = .ok (unfragmented u) := by
  rw [authority_of_front hfront]
  by_cases hnonempty : u.host ≠ [] ∨ u.path ≠ [] ∨ u.user.isSome
  · obtain ⟨htake, hdrop⟩ := takeWhile_front (slash_notMem_authorityText u.user u.host) hp
    have hscheme : (start u).scheme = u.scheme := rfl
    rw [if_pos hnonempty, List.append_assoc, List.cons_append, List.cons_append, List.nil_append,
      parseBody, if_neg (by simp), if_neg (by simp), hscheme,
      if_pos (slashes_of_authority hfront)]
    simp only [List.drop_succ_cons, List.drop_zero, htake, hdrop,
      (parseAuthority_text_iff h.user).mpr ⟨rfl, h.host⟩]
    refine (setPath_ok h.path _).trans ?_
    rw [unfragmented, hbody]
    rfl
  · -- Nothing is left between the scheme and the query.
    simp only [not_or, not_not] at hnonempty
    obtain ⟨hhost, hpath, huser⟩ := hnonempty
    have hnone : u.user = none := by simpa using huser
    have hscheme : u.scheme ≠ [] := by simpa [hhost, hnone] using hfront
    obtain ⟨-, hraw⟩ := h.path.blank_of_nil (h.path.nil_iff.mp hpath)
    rw [if_neg (by simp [hhost, hpath, hnone]), h.path.nil_iff.mp hpath, hnone, hhost]
    have hempty : [] ++ authorityText none [] ++ [] = [] := rfl
    rw [hempty, parseBody, if_pos ⟨by simp, hscheme⟩, unfragmented, hbody, hnone, hhost, hpath, hraw]
    rfl

theorem parseBody_text (h : Printable u p f) :
    parseBody (start u) (bodyText u p) = .ok (unfragmented u) := by
  cases h.shape with
  | unslashed hscheme hhead hne huser hhost hp =>
    obtain ⟨hpath, hraw⟩ := h.path.blank_of_nil hp
    rw [bodyText, if_pos hne, parseBody, if_pos ⟨hhead, hscheme⟩, unfragmented, huser, hhost, hpath,
      hraw]
    rfl
  | rooted hbody hfront hp =>
    rw [bodyText, if_neg (not_not.mpr hbody)]
    exact parseBody_rooted h hbody hfront hp
  | relative hbody hscheme huser hhost _ hsegment hslashes =>
    have hcolon : ¬ (p.head? ≠ some '/' ∧ ':' ∈ p.takeWhile (· ≠ '/')) := fun hmem =>
      hsegment hmem.1 hmem.2
    have hslash : ¬ (((start u).scheme ≠ [] ∨ ¬ ['/', '/', '/'] <+: p) ∧ ['/', '/'] <+: p) := by
      intro hdouble
      exact hdouble.1.elim (fun hne => hne hscheme) fun hnot => hnot (hslashes hdouble.2)
    rw [bodyText, if_neg (not_not.mpr hbody), authority_of_not hscheme huser hhost, List.nil_append,
      parseBody, if_neg fun hunslashed => hunslashed.2 hscheme, if_neg hcolon, if_neg hslash]
    refine (setPath_ok h.path _).trans ?_
    rw [unfragmented, hbody, huser, hhost]
    rfl

theorem getScheme_text (h : Printable u p f) :
    getScheme (u.schemeText ++ (bodyText u p ++ u.queryText)) =
      .ok (u.scheme, bodyText u p ++ u.queryText) := by
  by_cases hscheme : u.scheme = []
  · rw [GoUrl.schemeText, if_neg (not_not.mpr hscheme), List.nil_append, hscheme]
    cases h.shape with
    | unslashed hne => exact absurd hscheme hne
    | rooted hbody hfront =>
      have hfront' := hfront.resolve_left (not_not.mpr hscheme)
      have hnonempty : u.host ≠ [] ∨ u.path ≠ [] ∨ u.user.isSome := hfront'.imp_right Or.inr
      rw [bodyText, if_neg (not_not.mpr hbody), authority_of_front hfront, if_pos hnonempty]
      exact schemeFrom_of_not (by decide) (by decide) _
    | relative hbody _ huser hhost hunschemed =>
      rw [bodyText, if_neg (not_not.mpr hbody), authority_of_not hscheme huser hhost,
        List.nil_append]
      exact hunschemed
  · obtain ⟨hname, hlower⟩ := h.scheme.resolve_left hscheme
    rw [GoUrl.schemeText, if_pos hscheme, List.append_assoc, List.singleton_append,
      getScheme_of_name hname, hlower]

theorem parseRest_text (h : Printable u p f) :
    parseRest (u.schemeText ++ (bodyText u p ++ u.queryText)) = .ok (unfragmented u) := by
  have hmark : '?' ∉ bodyText u p := fun hmem => absurd (inBody_of_mem_bodyText h hmem) (by decide)
  have hcut := cutQuery_iff.mpr (Cut.mk rfl hmark h.forced)
  refine Collections.bind_eq_ok.mpr ⟨_, getScheme_text h, ?_⟩
  dsimp only
  rw [hcut]
  exact parseBody_text h

theorem noControl_of_printable (h : Printable u p f) :
    ∀ c ∈ u.schemeText ++ (bodyText u p ++ u.queryText), c ≠ '#' ∧ isControl c = false := by
  have hbody : ∀ {c : Char}, inBody c = true → c ≠ '#' ∧ isControl c = false :=
    fun hc => (inBody_iff.mp hc).2
  intro c hc
  rcases List.mem_append.mp hc with hc | hc
  · unfold GoUrl.schemeText at hc
    split at hc
    · next hscheme =>
      rcases List.mem_append.mp hc with hc | hc
      · obtain ⟨hname, -⟩ := h.scheme.resolve_left hscheme
        cases htext : u.scheme with
        | nil => exact absurd htext hscheme
        | cons d name =>
          rw [htext] at hname hc
          rw [isSchemeName, Bool.and_eq_true, List.all_eq_true] at hname
          exact hbody (inBody_of_isSchemeChar (hname.2 c hc))
      · rw [List.mem_singleton.mp hc]
        decide
    · exact absurd hc List.not_mem_nil
  · rcases List.mem_append.mp hc with hc | hc
    · exact hbody (inBody_of_mem_bodyText h hc)
    · unfold GoUrl.queryText at hc
      split at hc
      · rcases List.mem_cons.mp hc with rfl | hc
        · decide
        · exact h.queryChars c hc
      · exact absurd hc List.not_mem_nil

theorem parse_text (h : Printable u p f) :
    parse (u.schemeText ++ bodyText u p ++ u.queryText ++ fragmentText u f) = .ok u := by
  have hfront := noControl_of_printable h
  have hmark : '#' ∉ u.schemeText ++ (bodyText u p ++ u.queryText) := fun hmem =>
    (hfront '#' hmem).1 rfl
  have hcontrol : (u.schemeText ++ (bodyText u p ++ u.queryText) ++ fragmentText u f).any isControl =
      false := by
    rw [List.any_eq_false]
    intro c hc
    rw [Bool.not_eq_true]
    rcases List.mem_append.mp hc with hc | hc
    · exact (hfront c hc).2
    · unfold fragmentText at hc
      split at hc
      · rcases List.mem_cons.mp hc with rfl | hc
        · decide
        · exact h.fragmentChars c hc
      · exact absurd hc List.not_mem_nil
  rw [List.append_assoc u.schemeText, parse, hcontrol, if_neg Bool.false_ne_true, fragmentText]
  by_cases hf : u.fragment = []
  · obtain ⟨-, hraw⟩ := h.fragment.blank_of_nil (h.fragment.nil_iff.mp hf)
    rw [if_neg (not_not.mpr hf), List.append_nil, partition_of_notMem hmark]
    dsimp only
    have hwhole : unfragmented u = u := by
      cases u
      cases hf
      cases hraw
      rfl
    rw [parseRest_text h, hwhole]
  · rw [if_pos hf, partition_append hmark]
    dsimp only
    rw [parseRest_text h]
    refine Collections.bind_eq_ok.mpr ⟨_, rfl, Collections.bind_eq_ok.mpr ⟨_, h.fragment.reads, ?_⟩⟩
    rw [← h.fragment.raw]
    rfl

end Gourl
end Util
end Eds
