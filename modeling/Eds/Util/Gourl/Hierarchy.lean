import Eds.Util.Gourl.Normal

/-!
# URLs with an authority

What stands behind `scheme://` is an authority, a path and a query (`exists_pieces`), and these
are read one by one (`parse_pieces`).
-/

namespace Eds
namespace Util
namespace Gourl

open Lexing

/-- The text behind the slashes, up to the fragment: the query is that of `v`. -/
structure Pieces (v : GoUrl) (a q rest : List Char) : Prop where
  text : rest = a ++ (q ++ v.queryText)
  unslashed : '/' ∉ a
  path : q = [] ∨ q.head? = some '/'
  unmarked : '?' ∉ a ++ q
  forced : v.forceQuery = true → v.rawQuery = []

variable {v u : GoUrl} {a q rest scheme : List Char}

theorem exists_pieces (rest : List Char) : ∃ v a q, Pieces v a q rest := by
  generalize hcut : cutQuery rest = cut
  obtain ⟨body, force, query⟩ := cut
  have hpieces : Cut { GoUrl.blank with forceQuery := force, rawQuery := query } rest body :=
    cutQuery_iff.mp hcut
  have hbody : body.takeWhile (· ≠ '/') ++ body.dropWhile (· ≠ '/') = body :=
    List.takeWhile_append_dropWhile
  refine ⟨_, body.takeWhile (· ≠ '/'), body.dropWhile (· ≠ '/'), ?_, ?_, head_dropWhile body, ?_,
    hpieces.forced⟩
  · rw [← List.append_assoc, hbody]
    exact hpieces.text
  · intro hmem
    have hall : (body.takeWhile (· ≠ '/')).all (· ≠ '/') = true := List.all_takeWhile
    exact absurd (List.all_eq_true.mp hall _ hmem) (by decide)
  · rw [hbody]
    exact hpieces.unmarked

theorem queryText_chars (hquery : ∀ c ∈ u.rawQuery, c ≠ '#' ∧ isControl c = false) {c : Char}
    (hc : c ∈ u.queryText) : c ≠ '#' ∧ isControl c = false := by
  unfold GoUrl.queryText at hc
  split at hc
  · rcases List.mem_cons.mp hc with rfl | hc
    · decide
    · exact hquery c hc
  · exact absurd hc List.not_mem_nil

/-- The query that is read is the whole of it. -/
theorem Pieces.cut (h : Pieces v a q rest) :
    cutQuery ('/' :: '/' :: rest) = ('/' :: '/' :: (a ++ q), v.forceQuery, v.rawQuery) := by
  refine cutQuery_iff.mpr ⟨?_, ?_, h.forced⟩
  · rw [h.text, List.cons_append, List.cons_append, List.append_assoc]
  · intro hmem
    rcases List.mem_cons.mp hmem with hc | hmem
    · exact absurd hc (by decide)
    · rcases List.mem_cons.mp hmem with hc | hmem
      · exact absurd hc (by decide)
      · exact h.unmarked hmem

theorem scheme_chars (hscheme : isSchemeName scheme = true) :
    ∀ c ∈ scheme, c ≠ '#' ∧ isControl c = false := by
  intro c hc
  cases scheme with
  | nil => cases hscheme
  | cons d name =>
    rw [isSchemeName, Bool.and_eq_true, List.all_eq_true] at hscheme
    exact (inBody_iff.mp (inBody_of_isSchemeChar (hscheme.2 c hc))).2

theorem parse_pieces (hscheme : isSchemeName scheme = true) (h : Pieces v a q rest)
    (hhash : '#' ∉ rest) (hcontrol : rest.any isControl = false) :
    parse (scheme ++ ':' :: '/' :: '/' :: rest) =
      parseAuthority a >>= fun authority =>
        setPath { GoUrl.blank with
            scheme := scheme.map Char.toLower, user := authority.1, host := authority.2,
            forceQuery := v.forceQuery, rawQuery := v.rawQuery } q := by
  have hchars := scheme_chars hscheme
  have hmark : '#' ∉ scheme ++ ':' :: '/' :: '/' :: rest := by
    simp only [List.mem_append, List.mem_cons, not_or]
    exact ⟨fun hc => (hchars _ hc).1 rfl, by decide, by decide, by decide, hhash⟩
  have hnocontrol : (scheme ++ ':' :: '/' :: '/' :: rest).any isControl = false := by
    rw [List.any_append, List.any_cons, List.any_cons, List.any_cons, hcontrol]
    have hfront : scheme.any isControl = false :=
      List.any_eq_false.mpr fun c hc => by rw [(hchars c hc).2]; exact Bool.false_ne_true
    rw [hfront]
    decide
  obtain ⟨hauthority, hpath⟩ := takeWhile_front h.unslashed h.path
  have hne : scheme.map Char.toLower ≠ [] := by
    intro hnil
    rw [List.map_eq_nil_iff.mp hnil] at hscheme
    cases hscheme
  rw [parse, hnocontrol, if_neg Bool.false_ne_true, partition_of_notMem hmark]
  dsimp only
  rw [parseRest, getScheme_of_name hscheme]
  dsimp only [bind, Except.bind]
  rw [h.cut]
  dsimp only
  rw [parseBody, if_neg (by simp), if_neg (by simp), if_pos ⟨Or.inl hne, ⟨_, rfl⟩⟩]
  simp only [List.drop_succ_cons, List.drop_zero, hauthority, hpath]
  rfl

/-- What is read is printed with the same path and the same query, also under another scheme. -/
theorem Pieces.printable (h : Pieces v a q rest) (hhash : '#' ∉ rest)
    (hcontrol : rest.any isControl = false) {user : Option Userinfo} {host : List Char}
    (hauthority : parseAuthority a = .ok (user, host))
    (hpath : setPath { GoUrl.blank with
        scheme := scheme, user := user, host := host, forceQuery := v.forceQuery,
        rawQuery := v.rawQuery } q = .ok u)
    (hscheme : isSchemeName scheme = true ∧ scheme.map Char.toLower = scheme) :
    Printable u q [] := by
  obtain ⟨path, hread, rfl⟩ := setPath_iff.mp hpath
  obtain ⟨huser, hhost⟩ := ok_of_parseAuthority hauthority
  have hne : scheme ≠ [] := by
    intro hnil
    rw [hnil] at hscheme
    cases hscheme.1
  have hrest : ∀ c ∈ rest, c ≠ '#' ∧ isControl c = false := by
    intro c hc
    refine ⟨fun h => hhash (h ▸ hc), ?_⟩
    rw [List.any_eq_false] at hcontrol
    exact Bool.not_eq_true _ ▸ hcontrol c hc
  refine ⟨Or.inr hscheme, huser, hhost, ⟨hread, rfl⟩, h.forced, .rooted rfl (Or.inl hne) h.path, ?_,
    ?_, textOf_nil .fragment, by simp⟩
  · intro c hc
    have hmem : c ∈ q := hc
    obtain ⟨hmark, hcontrol⟩ := hrest c (by rw [h.text]; simp [hmem])
    have hne : c ≠ '?' := fun hc => h.unmarked (List.mem_append_right a (hc ▸ hmem))
    simp [inBody, hmark, hne, hcontrol]
  · intro c hc
    refine hrest c ?_
    rw [h.text, GoUrl.queryText, if_pos (Or.inr (List.ne_nil_of_mem hc))]
    simp [show c ∈ v.rawQuery from hc]

theorem control_of_parse {s : List Char} (h : parse s = .ok u) : s.any isControl = false := by
  unfold parse at h
  split at h
  · cases h
  · next hcontrol => exact Bool.not_eq_true _ ▸ hcontrol

/-- What is read in front of the fragment does not depend on it. -/
theorem parse_front {front tail : List Char} (hfront : '#' ∉ front)
    (htail : tail = [] ∨ tail.head? = some '#') (h : parse (front ++ tail) = .ok u) :
    ∃ u', parse front = .ok u' ∧ u.user = u'.user ∧ u.host = u'.host ∧ u.path = u'.path := by
  rcases htail with rfl | hhead
  · rw [List.append_nil] at h
    exact ⟨u, h, rfl, rfl, rfl⟩
  · obtain ⟨frag, rfl⟩ := List.head?_eq_some_iff.mp hhead
    have hcontrol := control_of_parse h
    rw [parse, hcontrol, if_neg Bool.false_ne_true, partition_append hfront] at h
    obtain ⟨u', hread, h⟩ := Collections.bind_eq_ok.mp h
    obtain ⟨fragment, -, hu⟩ := Collections.bind_eq_ok.mp h
    have hparse : parse front = .ok u' := by
      rw [List.any_append, Bool.or_eq_false_iff] at hcontrol
      rw [parse, hcontrol.1, if_neg Bool.false_ne_true, partition_of_notMem hfront]
      exact hread
    rw [← Except.ok.inj hu]
    exact ⟨u', hparse, rfl, rfl, rfl⟩

theorem exists_unfragmented {head s : List Char} (hhead : '#' ∉ head)
    (h : parse (head ++ s) = .ok u) :
    ∃ front tail u', s = front ++ tail ∧ '#' ∉ front ∧ parse (head ++ front) = .ok u' ∧
      u.user = u'.user ∧ u.host = u'.host ∧ u.path = u'.path := by
  have hmark : ∀ {front}, '#' ∉ front → '#' ∉ head ++ front := by
    intro front hfront
    rw [List.mem_append, not_or]
    exact ⟨hhead, hfront⟩
  by_cases hmem : '#' ∈ s
  · obtain ⟨front, frag, rfl, hfront⟩ := List.eq_append_cons_of_mem hmem
    rw [← List.append_assoc] at h
    obtain ⟨u', hparse, hsame⟩ := parse_front (hmark hfront) (Or.inr rfl) h
    exact ⟨front, '#' :: frag, u', rfl, hfront, hparse, hsame⟩
  · exact ⟨s, [], u, (List.append_nil s).symm, hmem, h, rfl, rfl, rfl⟩

/-- Whatever stands behind the slashes, the user and the host are read from what is in front of
the next slash or mark, and the path from what is in front of the next mark. -/
theorem exists_of_parse {s : List Char} (hscheme : isSchemeName scheme = true)
    (h : parse (scheme ++ ':' :: '/' :: '/' :: s) = .ok u) :
    ∃ a q tail, s = a ++ (q ++ tail) ∧ '/' ∉ a ∧ (q = [] ∨ q.head? = some '/') ∧
      (∀ c ∈ a ++ q, c ≠ '?' ∧ c ≠ '#') ∧ parseAuthority a = .ok (u.user, u.host) ∧
        unescape q .path = .ok u.path := by
  have hhead : '#' ∉ scheme ++ [':', '/', '/'] := by
    rw [List.mem_append, not_or]
    exact ⟨fun hmem => (scheme_chars hscheme _ hmem).1 rfl, by decide⟩
  have hjoin : ∀ s, scheme ++ ':' :: '/' :: '/' :: s = scheme ++ [':', '/', '/'] ++ s := by simp
  rw [hjoin] at h
  obtain ⟨front, tail, u', rfl, hfront, hparse, huser, hhost, hpath⟩ := exists_unfragmented hhead h
  have hcontrol := control_of_parse hparse
  rw [List.any_append, Bool.or_eq_false_iff] at hcontrol
  obtain ⟨v, a, q, hpieces⟩ := exists_pieces front
  rw [← hjoin, parse_pieces hscheme hpieces hfront hcontrol.2] at hparse
  obtain ⟨authority, hauthority, hset⟩ := Collections.bind_eq_ok.mp hparse
  obtain ⟨path, hread, rfl⟩ := setPath_iff.mp hset
  refine ⟨a, q, v.queryText ++ tail, ?_, hpieces.unslashed, hpieces.path, fun c hc => ⟨?_, ?_⟩, ?_, ?_⟩
  · rw [hpieces.text]
    simp
  · exact fun hmark => hpieces.unmarked (hmark ▸ hc)
  · intro hmark
    refine hfront ?_
    rw [hpieces.text, ← List.append_assoc, ← hmark]
    exact List.mem_append_left _ hc
  · rw [huser, hhost]
    exact hauthority
  · rw [hpath]
    exact hread

/-- A text that is read has a host that can be read. -/
theorem host_of_parse {w : GoUrl} {p tail : List Char} (hscheme : isSchemeName u.scheme = true)
    (huser : UserOk u.user) (hpath : p = [] ∨ p.head? = some '/')
    (hforced : u.forceQuery = true → u.rawQuery = []) (hchars : ∀ c ∈ p, inBody c = true)
    (hquery : ∀ c ∈ u.rawQuery, c ≠ '#' ∧ isControl c = false)
    (htail : tail = [] ∨ tail.head? = some '#')
    (h : parse (u.scheme ++ ':' :: '/' :: '/' ::
      (authorityText u.user u.host ++ (p ++ u.queryText)) ++ tail) = .ok w) :
    w.host = u.host ∧ HostOk u.host := by
  have hmarked : ∀ c ∈ authorityText u.user u.host ++ p, inBody c = true := by
    intro c hc
    rcases List.mem_append.mp hc with hc | hc
    · exact inBody_of_inAuthority (inAuthority_of_mem hc)
    · exact hchars c hc
  have hpieces : Pieces u (authorityText u.user u.host) p
      (authorityText u.user u.host ++ (p ++ u.queryText)) :=
    ⟨rfl, slash_notMem_authorityText _ _, hpath, fun hmem => absurd (hmarked _ hmem) (by decide),
      hforced⟩
  have hrest : ∀ c ∈ authorityText u.user u.host ++ (p ++ u.queryText),
      c ≠ '#' ∧ isControl c = false := by
    intro c hc
    rw [← List.append_assoc] at hc
    rcases List.mem_append.mp hc with hc | hc
    · exact (inBody_iff.mp (hmarked c hc)).2
    · exact queryText_chars hquery hc
  have hhash : '#' ∉ authorityText u.user u.host ++ (p ++ u.queryText) := fun hmem =>
    (hrest '#' hmem).1 rfl
  have hfront : '#' ∉ u.scheme ++ ':' :: '/' :: '/' ::
      (authorityText u.user u.host ++ (p ++ u.queryText)) := by
    simp only [List.mem_append, List.mem_cons, not_or]
    simp only [List.mem_append, not_or] at hhash
    exact ⟨fun hc => (scheme_chars hscheme _ hc).1 rfl, by decide, by decide, by decide, hhash⟩
  obtain ⟨w', hparse, -, hhost, -⟩ := parse_front hfront htail h
  rw [parse_pieces hscheme hpieces hhash
    (List.any_eq_false.mpr fun c hc => Bool.not_eq_true _ ▸ (hrest c hc).2)] at hparse
  obtain ⟨authority, hauthority, hset⟩ := Collections.bind_eq_ok.mp hparse
  obtain ⟨path, -, rfl⟩ := setPath_iff.mp hset
  obtain ⟨rfl, hok⟩ := (parseAuthority_text_iff huser).mp hauthority
  exact ⟨hhost, hok⟩

theorem parseAuthority_of_notMem {text : List Char} (h : '@' ∉ text) {user : Option Userinfo}
    {host : List Char} (hparse : parseAuthority text = .ok (user, host)) : user = none := by
  rw [parseAuthority, rpartition_of_notMem h] at hparse
  obtain ⟨host', -, hpair⟩ := Collections.bind_eq_ok.mp hparse
  exact (Prod.mk.inj (Except.ok.inj hpair)).1.symm

/-- A user stands in front of the last `@`, and the name in front of the first colon there. -/
theorem exists_of_parseAuthority {text : List Char} {user : Userinfo} {host : List Char}
    (hparse : parseAuthority text = .ok (some user, host)) :
    ∃ userinfo hosttext, text = userinfo ++ '@' :: hosttext ∧
      (':' ∉ userinfo ∧ unescape userinfo .userPassword = .ok user.username ∨
        ∃ name word, userinfo = name ++ ':' :: word ∧ ':' ∉ name ∧
          unescape name .userPassword = .ok user.username ∧
            unescape word .userPassword = .ok user.password) := by
  by_cases hat : '@' ∈ text
  · obtain ⟨userinfo, hosttext, rfl, hhost⟩ := exists_last hat
    rw [parseAuthority, rpartition_append hhost] at hparse
    obtain ⟨host', -, hparse⟩ := Collections.bind_eq_ok.mp hparse
    refine ⟨userinfo, hosttext, rfl, ?_⟩
    by_cases hcolon : ':' ∈ userinfo
    · obtain ⟨name, word, rfl, hname⟩ := List.eq_append_cons_of_mem hcolon
      rw [partition_append hname] at hparse
      obtain ⟨username, husername, hparse⟩ := Collections.bind_eq_ok.mp hparse
      obtain ⟨password, hpassword, hpair⟩ := Collections.bind_eq_ok.mp hparse
      obtain ⟨huser, -⟩ := Prod.mk.inj (Except.ok.inj hpair)
      rw [← Option.some.inj huser]
      exact Or.inr ⟨name, word, rfl, hname, husername, hpassword⟩
    · rw [partition_of_notMem hcolon] at hparse
      obtain ⟨username, husername, hpair⟩ := Collections.bind_eq_ok.mp hparse
      obtain ⟨huser, -⟩ := Prod.mk.inj (Except.ok.inj hpair)
      rw [← Option.some.inj huser]
      exact Or.inl ⟨hcolon, husername⟩
  · cases parseAuthority_of_notMem hat hparse

/-! ## URLs that the program builds -/

/-- A URL with a host or a user, without a fragment and with a path that is not yet escaped. -/
structure Built (u : GoUrl) : Prop where
  scheme : isSchemeName u.scheme = true ∧ u.scheme.map Char.toLower = u.scheme
  body : u.opaquePart = []
  user : UserOk u.user
  front : u.host ≠ [] ∨ u.user.isSome = true
  path : u.path = [] ∨ u.path.head? = some '/' ∨ u.host ≠ []
  rawPath : u.rawPath = []
  forced : u.forceQuery = true → u.rawQuery = []
  queryChars : ∀ c ∈ u.rawQuery, c ≠ '#' ∧ isControl c = false
  fragment : u.fragment = []
  rawFragment : u.rawFragment = []

/-- A path behind a host begins with a slash. -/
def rooted (path : List Char) : List Char :=
  if path ≠ [] ∧ path.head? ≠ some '/' then '/' :: path else path

theorem head_rooted (path : List Char) : rooted path = [] ∨ (rooted path).head? = some '/' := by
  unfold rooted
  split
  · exact Or.inr rfl
  · next h =>
    rw [not_and_or, not_not, not_not] at h
    exact h

theorem escape_path_head {path : List Char} :
    (escape path .path).head? = some '/' ↔ path.head? = some '/' := by
  cases path with
  | nil => exact iff_of_false (by decide) (by decide)
  | cons c path =>
    have hslash : ∀ b : UInt8, (escapeByte .path b).head? = some '/' ↔ b = 0x2F := by
      intro b
      rw [escapeByte, if_neg (by simp)]
      split
      · next hescape =>
        refine iff_of_false (by simp) fun hb => ?_
        rw [hb] at hescape
        exact absurd hescape (by decide)
      · rw [List.head?_cons, Option.some.injEq]
        constructor
        · intro hchar
          rw [← toUInt8_ofNat_toNat b, hchar]
          rfl
        · rintro rfl
          rfl
    have hhead : ∀ (b : UInt8) (bytes : List UInt8),
        ((b :: bytes).flatMap (escapeByte .path)).head? = some '/' ↔ b = 0x2F := by
      intro b bytes
      rw [List.flatMap_cons, List.head?_append_of_ne_nil _ (escapeByte_ne_nil .path b), hslash]
    rw [escape, Percent.utf8_cons, List.head?_cons, Option.some.injEq]
    by_cases hlt : c.toNat < 128
    · rw [Percent.utf8EncodeChar_of_lt hlt, List.singleton_append, hhead]
      constructor
      · intro hc
        have hnat := congrArg UInt8.toNat hc
        rw [Percent.toNat_toUInt8 hlt] at hnat
        exact Char.toNat_inj.mp hnat
      · intro hc
        rw [hc]
        rfl
    · have hhigh := Percent.le_of_mem_utf8EncodeChar (Nat.le_of_not_lt hlt)
      have hne : c ≠ '/' := fun hc => hlt (by rw [hc]; decide)
      cases hbytes : String.utf8EncodeChar c with
      | nil => exact absurd hbytes String.utf8EncodeChar_ne_nil
      | cons b bytes =>
        rw [List.cons_append, hhead]
        refine iff_of_false (fun hb => ?_) hne
        have hle := hhigh b (by rw [hbytes]; exact List.mem_cons_self)
        rw [hb] at hle
        exact absurd hle (by decide)

theorem Built.str {u : GoUrl} (h : Built u) :
    u.str = .ok (u.scheme ++ ':' :: '/' :: '/' ::
      (authorityText u.user u.host ++ (escape (rooted u.path) .path ++ u.queryText))) := by
  have hne : u.scheme ≠ [] := by
    intro hnil
    have hscheme := h.scheme.1
    rw [hnil] at hscheme
    cases hscheme
  have hslashes : u.host ≠ [] ∨ u.path ≠ [] ∨ u.user.isSome := h.front.imp_right Or.inr
  have hpath : (if escape u.path .path ≠ [] ∧ (escape u.path .path).head? ≠ some '/' ∧ u.host ≠ []
      then ['/'] else []) ++ escape u.path .path = escape (rooted u.path) .path := by
    rw [rooted]
    simp only [ne_eq, escape_eq_nil, escape_path_head]
    by_cases hrooted : u.path ≠ [] ∧ u.path.head? ≠ some '/'
    · have hhost := (h.path.resolve_left hrooted.1).resolve_left hrooted.2
      rw [if_pos ⟨hrooted.1, hrooted.2, hhost⟩, if_pos hrooted, escape_cons]
      rfl
    · rw [if_neg fun hall => hrooted ⟨hall.1, hall.2.1⟩, if_neg hrooted]
      rfl
  have hescaped : u.escapedPath = .ok (escape u.path .path) := by
    rw [GoUrl.escapedPath, escaped, if_neg (not_not.mpr h.rawPath)]
    rfl
  have hhierarchy : u.hierarchy =
      .ok (['/', '/'] ++ authorityText u.user u.host ++ escape (rooted u.path) .path) := by
    rw [GoUrl.hierarchy, hescaped, authority_of_front (Or.inl hne), if_pos hslashes, ← hpath,
      ← List.append_assoc]
    rfl
  unfold GoUrl.str GoUrl.schemeText
  simp only [if_neg (not_not.mpr h.body), if_neg (not_not.mpr h.fragment), hhierarchy, if_pos hne]
  refine congrArg Except.ok ?_
  simp

/-- What is printed reads as the same URL, unless its host is refused. -/
theorem Built.parse_iff {u : GoUrl} (h : Built u) :
    ∃ t, u.str = .ok t ∧ ∀ x, parse t = .ok x ↔
      x = { u with path := rooted u.path } ∧ HostOk u.host := by
  refine ⟨_, h.str, fun x => ?_⟩
  have hq : escape (rooted u.path) .path = [] ∨ (escape (rooted u.path) .path).head? = some '/' := by
    rw [escape_eq_nil, escape_path_head]
    exact head_rooted u.path
  have hpathchars : ∀ {c : Char}, c ∈ escape (rooted u.path) .path → inBody c = true := by
    intro c hc
    have hwritten : written .path inBody = true := by decide +kernel
    exact forall_mem_escape hwritten _ c hc
  have hchars : ∀ c ∈ authorityText u.user u.host ++ escape (rooted u.path) .path,
      inBody c = true := by
    intro c hc
    rcases List.mem_append.mp hc with hc | hc
    · exact inBody_of_inAuthority (inAuthority_of_mem hc)
    · exact hpathchars hc
  have hpieces : Pieces u (authorityText u.user u.host) (escape (rooted u.path) .path)
      (authorityText u.user u.host ++ (escape (rooted u.path) .path ++ u.queryText)) :=
    ⟨rfl, slash_notMem_authorityText _ _, hq, fun hmem => absurd (hchars _ hmem) (by decide),
      h.forced⟩
  have hrest : ∀ c ∈ authorityText u.user u.host ++ (escape (rooted u.path) .path ++ u.queryText),
      c ≠ '#' ∧ isControl c = false := by
    intro c hc
    rw [← List.append_assoc] at hc
    rcases List.mem_append.mp hc with hc | hc
    · exact (inBody_iff.mp (hchars c hc)).2
    · exact queryText_chars h.queryChars hc
  have hhash : '#' ∉ _ := fun hmem => (hrest '#' hmem).1 rfl
  have hcontrol := List.any_eq_false.mpr fun c hc => Bool.not_eq_true _ ▸ (hrest c hc).2
  have hread : unescape (escape (rooted u.path) .path) .path = .ok (rooted u.path) :=
    unescape_escape _ (by decide)
  have hraw : rawText (escape (rooted u.path) .path) (rooted u.path) .path = [] :=
    if_neg (not_not.mpr rfl)
  rw [parse_pieces h.scheme.1 hpieces hhash hcontrol, Collections.bind_eq_ok]
  simp only [parseAuthority_text_iff h.user, setPath_iff, hread, Except.ok.injEq]
  constructor
  · intro hparse
    obtain ⟨_, ⟨rfl, hhost⟩, _, rfl, rfl⟩ := hparse
    refine ⟨?_, hhost⟩
    rw [hraw, h.scheme.2, h.body, h.rawPath, h.fragment, h.rawFragment]
    rfl
  · intro hsame
    obtain ⟨rfl, hhost⟩ := hsame
    refine ⟨_, ⟨rfl, hhost⟩, _, rfl, ?_⟩
    rw [hraw, h.scheme.2, h.body, h.rawPath, h.fragment, h.rawFragment]
    rfl

end Gourl
end Util
end Eds
