import Eds.Util.Gourl.Printable

/-!
# A URL that was read is printed as what reads the same

Parsing gives printable URLs only (`printable_of_parse`), so that reading what is printed for one
gives it again, in all of its parts (`parse_str`).
-/

namespace Eds
namespace Util
namespace Gourl

open Lexing Percent

variable {u : GoUrl} {p : List Char}

/-! ## Parsing gives printable URLs -/

theorem eq_nil_of_parseAuthority {text : List Char} (h : parseAuthority text = .ok (none, [])) :
    text = [] := by
  unfold parseAuthority at h
  generalize rpartition '@' text = cut at h
  obtain ⟨userinfo, found, hosttext⟩ := cut
  cases found with
  | false =>
    obtain ⟨host, hparse, hpair⟩ := Collections.bind_eq_ok.mp h
    obtain ⟨-, rfl⟩ := Prod.mk.inj (Except.ok.inj hpair)
    exact unescape_eq_nil (parseHost_iff.mp hparse).2
  | true =>
    obtain ⟨host, -, h⟩ := Collections.bind_eq_ok.mp h
    generalize partition ':' userinfo = cut at h
    obtain ⟨uname, colon, pword⟩ := cut
    cases colon with
    | false =>
      obtain ⟨username, -, hpair⟩ := Collections.bind_eq_ok.mp h
      cases (Prod.mk.inj (Except.ok.inj hpair)).1
    | true =>
      obtain ⟨username, -, h⟩ := Collections.bind_eq_ok.mp h
      obtain ⟨password, -, hpair⟩ := Collections.bind_eq_ok.mp h
      cases (Prod.mk.inj (Except.ok.inj hpair)).1

theorem getScheme_of_slash (hp : p = [] ∨ p.head? = some '/') :
    getScheme (p ++ u.queryText) = .ok ([], p ++ u.queryText) := by
  rcases hp with rfl | hp
  · cases hquery : u.queryText with
    | nil => rfl
    | cons c query =>
      have hhead := queryText_head (u := u) (by rw [hquery]; exact List.cons_ne_nil c query)
      rw [hquery] at hhead
      rw [Option.some.inj hhead]
      exact schemeFrom_of_not (by decide) (by decide) _
  · obtain ⟨rest, rfl⟩ := List.head?_eq_some_iff.mp hp
    exact schemeFrom_of_not (by decide) (by decide) _

theorem head_dropWhile (l : List Char) :
    l.dropWhile (· ≠ '/') = [] ∨ (l.dropWhile (· ≠ '/')).head? = some '/' := by
  cases hdrop : l.dropWhile (· ≠ '/') with
  | nil => exact Or.inl rfl
  | cons c rest =>
    have hstop := List.head_dropWhile_not (· ≠ '/') (by rw [hdrop]; exact List.cons_ne_nil c rest)
    simp only [hdrop, List.head_cons, decide_eq_false_iff_not, not_not] at hstop
    rw [hstop]
    exact Or.inr rfl

theorem setPath_iff {v : GoUrl} {rest : List Char} :
    setPath v rest = .ok u ↔
      ∃ path, unescape rest .path = .ok path ∧
        u = { v with path := path, rawPath := rawText rest path .path } := by
  rw [setPath, Collections.bind_eq_ok]
  simp only [pure, Except.pure, Except.ok.injEq, eq_comm]

/-- What `parseBody` is given, and what of the text in front of it matters. -/
structure Started (v : GoUrl) (body : List Char) : Prop where
  shape : v = start v
  scheme : v.scheme = [] ∨ isSchemeName v.scheme = true ∧ v.scheme.map Char.toLower = v.scheme
  unschemed : v.scheme = [] → getScheme (body ++ v.queryText) = .ok ([], body ++ v.queryText)
  forced : v.forceQuery = true → v.rawQuery = []
  bodyChars : ∀ c ∈ body, inBody c = true
  queryChars : ∀ c ∈ v.rawQuery, c ≠ '#' ∧ isControl c = false

theorem hostOk_nil : HostOk [] := ⟨fun _ hc => absurd hc List.not_mem_nil, rfl⟩

theorem textOf_nil (mode : Mode) : TextOf mode [] [] [] := ⟨rfl, (ite_self _).symm⟩

variable {v : GoUrl} {body : List Char}

theorem printable_of_unslashed (hv : Started v body) (hscheme : v.scheme ≠ [])
    (hhead : body.head? ≠ some '/') : Printable { v with opaquePart := body } [] [] := by
  have hchars : ∀ c ∈ body ++ [], inBody c = true := by
    rw [List.append_nil]
    exact hv.bodyChars
  have huser : v.user = none := congrArg GoUrl.user hv.shape
  have hhost : v.host = [] := congrArg GoUrl.host hv.shape
  have hpath : v.path = [] := congrArg GoUrl.path hv.shape
  have hraw : v.rawPath = [] := congrArg GoUrl.rawPath hv.shape
  have hfragment : v.fragment = [] := congrArg GoUrl.fragment hv.shape
  have hrawFragment : v.rawFragment = [] := congrArg GoUrl.rawFragment hv.shape
  refine ⟨hv.scheme, ?_, ?_, ?_, hv.forced, ?_, hchars, hv.queryChars, ?_, by simp⟩
  · rw [huser]
    trivial
  · rw [hhost]
    exact hostOk_nil
  · rw [hpath, hraw]
    exact textOf_nil .path
  · by_cases hbody : body = []
    · exact .rooted hbody (Or.inl hscheme) (Or.inl rfl)
    · exact .unslashed hscheme hhead hbody huser hhost rfl
  · rw [hfragment, hrawFragment]
    exact textOf_nil .fragment

/-- The cases with a path. -/
theorem printable_of_setPath (hv : Started v body) {user : Option Userinfo} {host rest : List Char}
    (huser : UserOk user) (hhost : HostOk host) (hrest : ∀ c ∈ rest, c ∈ body)
    (hset : setPath { v with user := user, host := host } rest = .ok u)
    (hshape : u.opaquePart = [] → u.scheme = v.scheme → u.user = user → u.host = host →
      u.queryText = v.queryText → Shape u rest) : Printable u rest [] := by
  obtain ⟨path, hpath, rfl⟩ := setPath_iff.mp hset
  have hopaquePart : v.opaquePart = [] := congrArg GoUrl.opaquePart hv.shape
  have hfragment : v.fragment = [] := congrArg GoUrl.fragment hv.shape
  have hrawFragment : v.rawFragment = [] := congrArg GoUrl.rawFragment hv.shape
  refine ⟨hv.scheme, huser, hhost, ⟨hpath, rfl⟩, hv.forced, hshape hopaquePart rfl rfl rfl rfl, ?_,
    hv.queryChars, ?_, by simp⟩
  · dsimp only
    rw [hopaquePart, List.nil_append]
    exact fun c hc => hv.bodyChars c (hrest c hc)
  · rw [hfragment, hrawFragment]
    exact textOf_nil .fragment

theorem printable_of_parseBody (hv : Started v body) (hparse : parseBody v body = .ok u) :
    ∃ p, Printable u p [] := by
  unfold parseBody at hparse
  split at hparse
  · next hunslashed =>
    rw [← Except.ok.inj hparse]
    exact ⟨[], printable_of_unslashed hv hunslashed.2 hunslashed.1⟩
  · next hslashed =>
    split at hparse
    · cases hparse
    · next hsegment =>
      split at hparse
      · next hdouble =>
        obtain ⟨⟨user, host⟩, hauthority, hset⟩ := Collections.bind_eq_ok.mp hparse
        obtain ⟨huser, hhost⟩ := ok_of_parseAuthority hauthority
        have hp := head_dropWhile (body.drop 2)
        refine ⟨_, printable_of_setPath hv huser hhost (fun c hc => ?_) hset ?_⟩
        · exact List.mem_of_mem_drop ((List.dropWhile_sublist _).subset hc)
        · intro hopaquePart hscheme huser' hhost' hquery
          by_cases hfront : u.scheme ≠ [] ∨ u.host ≠ [] ∨ u.user.isSome
          · exact .rooted hopaquePart hfront hp
          · -- Two slashes and nothing behind them.
            simp only [not_or, not_not] at hfront
            obtain ⟨hnoscheme, hnohost, hnouser⟩ := hfront
            have hnone : u.user = none := by simpa using hnouser
            rw [← huser', ← hhost', hnone, hnohost] at hauthority
            have htext := eq_nil_of_parseAuthority hauthority
            obtain ⟨rest, rfl⟩ := hdouble.2
            have hnoslash := hdouble.1.resolve_left (not_not.mpr (hscheme.symm.trans hnoscheme))
            have hempty : rest = [] := by
              cases rest with
              | nil => rfl
              | cons c rest =>
                simp only [List.cons_append, List.nil_append, List.drop_succ_cons, List.drop_zero,
                  List.takeWhile_cons] at htext
                split at htext
                · cases htext
                · next hc =>
                  have hslash : c = '/' := by simpa using hc
                  rw [hslash] at hnoslash
                  exact absurd ⟨rest, rfl⟩ hnoslash
            have hunschemed := getScheme_of_slash (p := []) (u := u) (Or.inl rfl)
            rw [hempty]
            exact .relative hopaquePart hnoscheme hnone hnohost hunschemed (fun _ => List.not_mem_nil)
              (fun hprefix => absurd hprefix (by simp))
      · next hsingle =>
        have huser : v.user = none := congrArg GoUrl.user hv.shape
        have hhost : v.host = [] := congrArg GoUrl.host hv.shape
        have hset : setPath { v with user := none, host := [] } body = .ok u := by
          rw [← huser, ← hhost]
          exact hparse
        have huserOk : UserOk none := trivial
        refine ⟨body, printable_of_setPath hv huserOk hostOk_nil (fun c hc => hc) hset ?_⟩
        intro hopaquePart hscheme huser' hhost' hquery
        by_cases hnoscheme : v.scheme = []
        · have hunschemed := hv.unschemed hnoscheme
          rw [← hquery] at hunschemed
          refine .relative hopaquePart (hscheme.trans hnoscheme) huser' hhost' hunschemed ?_ ?_
          · exact fun hhead hcolon => hsegment ⟨hhead, hcolon⟩
          · intro hprefix
            by_contra hnot
            exact hsingle ⟨Or.inr hnot, hprefix⟩
        · have hhead : body.head? = some '/' := by
            by_contra hhead
            exact hslashed ⟨hhead, hnoscheme⟩
          exact .rooted hopaquePart (Or.inl (hscheme ▸ hnoscheme)) (Or.inr hhead)

theorem toLower_of_isSchemeName {name : List Char} (h : isSchemeName name = true) :
    isSchemeName (name.map Char.toLower) = true ∧
      (name.map Char.toLower).map Char.toLower = name.map Char.toLower := by
  have hlower : ∀ {c : Char}, isSchemeChar c = true →
      (isLetter c = true → isLetter c.toLower = true) ∧ isSchemeChar c.toLower = true ∧
        c.toLower.toLower = c.toLower :=
    fun hc => of_ascii (q := fun c => (isLetter c = true → isLetter c.toLower = true) ∧
      isSchemeChar c.toLower = true ∧ c.toLower.toLower = c.toLower)
      (fun _ => lt_of_isSchemeChar) (by decide +kernel) hc
  cases name with
  | nil => cases h
  | cons c name =>
    rw [isSchemeName, Bool.and_eq_true, List.all_eq_true] at h
    obtain ⟨hletter, hchars⟩ := h
    constructor
    · rw [List.map_cons, isSchemeName, Bool.and_eq_true, List.all_eq_true, ← List.map_cons]
      exact ⟨(hlower (hchars c List.mem_cons_self)).1 hletter,
        List.forall_mem_map.mpr fun d hd => (hlower (hchars d hd)).2.1⟩
    · rw [List.map_map]
      exact List.map_congr_left fun d hd => (hlower (hchars d hd)).2.2

theorem printable_of_parseRest {raw : List Char}
    (hraw : ∀ c ∈ raw, c ≠ '#' ∧ isControl c = false) (hparse : parseRest raw = .ok u) :
    ∃ p, Printable u p [] := by
  obtain ⟨⟨scheme, rest⟩, hscheme, hbody⟩ := Collections.bind_eq_ok.mp hparse
  dsimp only at hbody
  generalize hcut : cutQuery rest = cut at hbody
  obtain ⟨body, force, query⟩ := cut
  have hstart : raw = [] ++ raw := rfl
  have hfound := schemeFrom_ok hstart (Or.inl rfl) hscheme
  have hrest : ∀ c ∈ rest, c ∈ raw := by
    rcases hfound with ⟨-, rfl⟩ | ⟨name, -, rfl, -⟩
    · exact fun c hc => hc
    · exact fun c hc => List.mem_append_right name (List.mem_cons_of_mem _ hc)
  have hpieces : Cut { GoUrl.blank with scheme := scheme, forceQuery := force, rawQuery := query }
      rest body := cutQuery_iff.mp hcut
  refine printable_of_parseBody ⟨rfl, ?_, ?_, hpieces.forced, ?_, ?_⟩ hbody
  · rcases hfound with ⟨rfl, -⟩ | ⟨name, hname, -, rfl⟩
    · exact Or.inl rfl
    · exact Or.inr (toLower_of_isSchemeName hname)
  · intro hnone
    rw [← hpieces.text]
    have hsame : rest = raw := by
      rcases hfound with ⟨-, hsame⟩ | ⟨name, hname, -, hlower⟩
      · exact hsame
      · rw [List.map_eq_nil_iff.mp (hlower.symm.trans hnone)] at hname
        cases hname
    have hnone' : scheme = [] := hnone
    rw [hnone', hsame] at hscheme
    rw [hsame]
    exact hscheme
  · intro c hc
    have hmem : c ∈ rest := by
      rw [hpieces.text]
      exact List.mem_append_left _ hc
    obtain ⟨hmark, hcontrol⟩ := hraw c (hrest c hmem)
    have hne : c ≠ '?' := fun h => hpieces.unmarked (h ▸ hc)
    simp [inBody, hmark, hne, hcontrol]
  · intro c hc
    refine hraw c (hrest c ?_)
    rw [hpieces.text, GoUrl.queryText, if_pos (Or.inr (List.ne_nil_of_mem hc))]
    exact List.mem_append_right body (List.mem_cons_of_mem _ hc)

theorem printable_of_parse {s : List Char} (hparse : parse s = .ok u) : ∃ p f, Printable u p f := by
  unfold parse at hparse
  split at hparse
  · cases hparse
  · next hcontrol =>
    have hchars : ∀ c ∈ s, isControl c = false := by
      intro c hc
      cases hc' : isControl c with
      | false => rfl
      | true => exact absurd (List.any_eq_true.mpr ⟨c, hc, hc'⟩) hcontrol
    by_cases hmem : '#' ∈ s
    · obtain ⟨rest, frag, rfl, hrest⟩ := List.eq_append_cons_of_mem hmem
      rw [partition_append hrest] at hparse
      obtain ⟨u', hparse', hfragment⟩ := Collections.bind_eq_ok.mp hparse
      obtain ⟨fragment, hunescape, hu⟩ := Collections.bind_eq_ok.mp hfragment
      obtain ⟨p, hp⟩ := printable_of_parseRest (fun c hc => ⟨fun h => hrest (h ▸ hc),
        hchars c (List.mem_append_left _ hc)⟩) hparse'
      rw [← Except.ok.inj hu]
      have hshape : Shape { u' with fragment := fragment, rawFragment := rawText frag fragment .fragment } p := by
        cases hp.shape with
        | unslashed h1 h2 h3 h4 h5 h6 => exact .unslashed h1 h2 h3 h4 h5 h6
        | rooted h1 h2 h3 => exact .rooted h1 h2 h3
        | relative h1 h2 h3 h4 h5 h6 h7 => exact .relative h1 h2 h3 h4 h5 h6 h7
      exact ⟨p, frag, hp.scheme, hp.user, hp.host, hp.path, hp.forced, hshape, hp.bodyChars,
        hp.queryChars, ⟨hunescape, rfl⟩, fun c hc =>
          hchars c (List.mem_append_right rest (List.mem_cons_of_mem _ hc))⟩
    · rw [partition_of_notMem hmem] at hparse
      obtain ⟨p, hp⟩ := printable_of_parseRest (fun c hc => ⟨fun h => hmem (h ▸ hc), hchars c hc⟩)
        hparse
      exact ⟨p, [], hp⟩

/-- Printing a URL that was read gives a text that reads as the same URL. -/
theorem parse_str {s : List Char} (hparse : parse s = .ok u) :
    ∃ t, u.str = .ok t ∧ parse t = .ok u := by
  obtain ⟨p, f, h⟩ := printable_of_parse hparse
  exact ⟨_, h.str, parse_text h⟩

/-- The path keeps its escaped slash, and the scheme is printed in lower case. -/
theorem parse_str_escapes :
    ∃ t, GoUrl.str ⟨"http".toList, [], some ⟨['u'], "p@".toList, true⟩, "h:1".toList, "/a/b".toList,
        "/a%2fb".toList, true, [], "x#".toList, []⟩ = .ok t ∧
      parse t = .ok ⟨"http".toList, [], some ⟨['u'], "p@".toList, true⟩, "h:1".toList,
        "/a/b".toList, "/a%2fb".toList, true, [], "x#".toList, []⟩ :=
  parse_str (s := "HTTP://u:p%40@h:1/a%2fb?#x%23".toList) (by decide +kernel)

end Gourl
end Util
end Eds
