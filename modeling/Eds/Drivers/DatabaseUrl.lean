import Eds.Drivers.Configuration
import Eds.Util.Gourl.Hierarchy

/-!
# The URL of a database, read again

The URL is the configured values one after the other, and the reader cuts it at the characters
that have a meaning in a URL.  So the values are recovered from it exactly when none of these
stands where it is taken for a cut (`database_recovered_iff`).
-/

namespace Eds
namespace Drivers
namespace DatabaseUrl

open Util Lexing Percent

/-- A character that has no meaning in any part of a URL: it ends no part and begins no escape. -/
def isPlain (c : Char) : Bool := !(['#', '?', '%'].contains c) && !Gourl.isControl c

def port (defport : Int) (values : Values) : Int := getOptionalIntValue "Port" defport values

def database (values : Values) : String := (getRequiredStringValue "Database" values).1

/-- The values mean nothing to a URL parser.  A password without a user name is not written. -/
structure Unmarked (values : Values) : Prop where
  nameChars : ∀ c ∈ (username values).toList, isPlain c = true ∧ c ≠ ':' ∧ c ≠ '/'
  wordChars : ∀ c ∈ (password values).toList, isPlain c = true ∧ c ≠ '/'
  unnamed : username values = "" → password values = ""
  databaseChars : ∀ c ∈ (database values).toList, isPlain c = true

/-- A host name of letters, digits, dots and dashes, and a port. -/
structure Addressed (defport : Int) (values : Values) : Prop where
  chars : ∀ c ∈ (hostname values).toList,
    (Gourl.isLetter c || Gourl.isDigit c || c == '.' || c == '-') = true
  positive : 0 < port defport values

/-- The port is in the URL if the driver has a default for it. -/
def portText (defport : Int) (values : Values) : List Char :=
  if 0 < defport then (toString (port defport values)).toList else []

def Recovered (schema : String) (defport : Int) (values : Values) : Prop :=
  ∃ u, Gourl.parse (urlFromDatabaseConfiguration schema defport values).1.toList = .ok u ∧
    u.username = (username values).toList ∧ u.password = (password values).toList ∧
    u.hostname = (hostname values).toList ∧ u.port = portText defport values ∧
    u.path = '/' :: (database values).toList

/-! ## Host and port -/

/-- The host and the port as they are written. -/
def hostText (defport : Int) (values : Values) : List Char :=
  (hostport (hostname values) defport (port defport values)).toList

variable {schema : String} {defport : Int} {values : Values}

theorem digits_port (h : 0 < port defport values) :
    ∀ c ∈ (toString (port defport values)).toList, Gourl.isDigit c = true := by
  obtain ⟨n, hn⟩ := Int.eq_ofNat_of_zero_le (Int.le_of_lt h)
  rw [hn]
  intro c hc
  have hmem : c ∈ Nat.toDigits 10 n := by
    have htext : (toString (n : Int)).toList = Nat.toDigits 10 n := String.toList_ofList
    rwa [htext] at hc
  have hdigit := Nat.isDigit_of_mem_toDigits (by decide) (by decide) hmem
  rw [Char.isDigit, Bool.and_eq_true, decide_eq_true_iff, decide_eq_true_iff] at hdigit
  rw [Gourl.isDigit, Bool.and_eq_true, decide_eq_true_iff, decide_eq_true_iff]
  exact hdigit

def isNameChar (c : Char) : Bool := Gourl.isLetter c || Gourl.isDigit c || c == '.' || c == '-'

theorem lt_of_isNameChar {c : Char} (h : isNameChar c = true) : c.toNat < 128 := by
  simp only [isNameChar, Bool.or_eq_true, beq_iff_eq] at h
  rcases h with ((h | h) | rfl) | rfl
  · exact Gourl.lt_of_isLetter h
  · exact Gourl.lt_of_isDigit h
  · decide
  · decide

/-- None of the characters that a host or an authority is cut at. -/
def isUncut (c : Char) : Bool := !(['@', '/', '?', '#', '[', '%'].contains c) && !Gourl.isControl c

theorem kept_of_isNameChar {c : Char} (h : isNameChar c = true) :
    Gourl.shouldEscape c.toUInt8 .host = false ∧ isUncut c = true ∧ c ≠ ':' :=
  Gourl.of_ascii (q := fun c => Gourl.shouldEscape c.toUInt8 .host = false ∧ isUncut c = true ∧
    c ≠ ':') (fun _ => lt_of_isNameChar) (by decide +kernel) h

theorem kept_of_isDigit {c : Char} (h : Gourl.isDigit c = true) :
    Gourl.shouldEscape c.toUInt8 .host = false ∧ isUncut c = true ∧ c ≠ ':' :=
  Gourl.of_ascii (q := fun c => Gourl.shouldEscape c.toUInt8 .host = false ∧ isUncut c = true ∧
    c ≠ ':') (fun _ => Gourl.lt_of_isDigit) (by decide +kernel) h

theorem hostText_eq (defport : Int) (values : Values) :
    hostText defport values = (hostname values).toList ++
      if 0 < defport then ':' :: portText defport values else [] := by
  unfold hostText hostport portText
  split
  · simp
  · simp

theorem digits_portText (h : Addressed defport values) :
    ∀ c ∈ portText defport values, Gourl.isDigit c = true := by
  unfold portText
  split
  · exact digits_port h.positive
  · exact fun c hc => absurd hc List.not_mem_nil

theorem hostText_chars (h : Addressed defport values) :
    ∀ c ∈ hostText defport values,
      c.toNat < 128 ∧ Gourl.shouldEscape c.toUInt8 .host = false ∧ isUncut c = true := by
  intro c hc
  rw [hostText_eq] at hc
  rcases List.mem_append.mp hc with hc | hc
  · have hname := h.chars c hc
    exact ⟨lt_of_isNameChar hname, (kept_of_isNameChar hname).1, (kept_of_isNameChar hname).2.1⟩
  · split at hc
    · rcases List.mem_cons.mp hc with rfl | hc
      · decide
      · have hdigit := digits_portText h c hc
        exact ⟨Gourl.lt_of_isDigit hdigit, (kept_of_isDigit hdigit).1, (kept_of_isDigit hdigit).2.1⟩
    · exact absurd hc List.not_mem_nil

/-- The colon in front of the port is the only one. -/
theorem rpartition_hostText (h : Addressed defport values) :
    rpartition ':' (hostText defport values) =
      if 0 < defport then ((hostname values).toList, true, portText defport values)
      else ([], false, (hostname values).toList) := by
  rw [hostText_eq]
  split
  · exact rpartition_append (fun hmem => (kept_of_isDigit (digits_portText h _ hmem)).2.2 rfl) _
  · rw [List.append_nil]
    exact rpartition_of_notMem fun hmem => (kept_of_isNameChar (h.chars _ hmem)).2.2 rfl

theorem validOptionalPort_portText (h : Addressed defport values) :
    Gourl.validOptionalPort (':' :: portText defport values) = true := by
  rw [Gourl.validOptionalPort, Bool.and_eq_true, List.all_eq_true]
  exact ⟨rfl, digits_portText h⟩

theorem splitHostPort_hostText (h : Addressed defport values) :
    Gourl.splitHostPort (hostText defport values) =
      ((hostname values).toList, portText defport values) := by
  have hbracket : ¬ ((hostname values).toList.head? = some '[' ∧
      (hostname values).toList.getLast? = some ']') := fun hbrackets =>
    absurd (kept_of_isNameChar (h.chars _ (List.mem_of_head? hbrackets.1))).2.1 (by decide)
  unfold Gourl.splitHostPort
  rw [rpartition_hostText h]
  by_cases hport : 0 < defport
  · rw [if_pos hport]
    dsimp only
    rw [validOptionalPort_portText h, if_pos rfl]
    exact if_neg hbracket
  · rw [if_neg hport]
    have htext : hostText defport values = (hostname values).toList := by
      rw [hostText_eq, if_neg hport, List.append_nil]
    have hnone : portText defport values = [] := if_neg hport
    rw [htext, hnone]
    exact if_neg hbracket

theorem parseHost_hostText (h : Addressed defport values) :
    Gourl.parseHost (hostText defport values) = .ok (hostText defport values) := by
  refine Gourl.parseHost_iff.mpr ⟨?_, Gourl.unescape_host_eq_self fun c hc =>
    ⟨(hostText_chars h c hc).1, (hostText_chars h c hc).2.1⟩⟩
  have hbracket : ¬ (hostText defport values).head? = some '[' := fun hhead =>
    absurd (hostText_chars h _ (List.mem_of_head? hhead)).2.2 (by decide)
  rw [Gourl.validHost, if_neg hbracket, rpartition_hostText h]
  by_cases hport : 0 < defport
  · rw [if_pos hport]
    exact validOptionalPort_portText h
  · rw [if_neg hport]

/-- The text behind the slashes. -/
def restText (defport : Int) (values : Values) : List Char :=
  (userinfo (username values) (password values)).toList ++
    (hostText defport values ++ '/' :: (database values).toList)

theorem url_toList (h : Accepted schema defport values) :
    (urlFromDatabaseConfiguration schema defport values).1.toList =
      schema.toList ++ ':' :: '/' :: '/' :: restText defport values := by
  rw [url_of_accepted h, restText, hostText, location, database, port]
  simp

/-! ## Values without marks -/

theorem isPlain_iff {c : Char} :
    isPlain c = true ↔ c ≠ '#' ∧ c ≠ '?' ∧ c ≠ '%' ∧ Gourl.isControl c = false := by
  simp only [isPlain, Bool.and_eq_true, Bool.not_eq_true', List.contains_cons, List.contains_nil,
    Bool.or_false, Bool.or_eq_false_iff, beq_eq_false_iff_ne, and_assoc]

theorem isUncut_iff {c : Char} :
    isUncut c = true ↔ c ≠ '@' ∧ c ≠ '/' ∧ c ≠ '?' ∧ c ≠ '#' ∧ c ≠ '[' ∧ c ≠ '%' ∧
      Gourl.isControl c = false := by
  simp only [isUncut, Bool.and_eq_true, Bool.not_eq_true', List.contains_cons, List.contains_nil,
    Bool.or_false, Bool.or_eq_false_iff, beq_eq_false_iff_ne, and_assoc]

/-- The user in front of the host. -/
def userOf (values : Values) : Option Gourl.Userinfo :=
  if username values = "" then none
  else some ⟨(username values).toList, (password values).toList, true⟩

theorem parseAuthority_unmarked (h : Unmarked values) (haddress : Addressed defport values) :
    Gourl.parseAuthority ((userinfo (username values) (password values)).toList ++
        hostText defport values) =
      .ok (userOf values, hostText defport values) := by
  have hat : '@' ∉ hostText defport values := fun hmem =>
    (isUncut_iff.mp (hostText_chars haddress _ hmem).2.2).1 rfl
  by_cases hname : username values = ""
  · rw [userinfo, if_pos hname, userOf, if_pos hname, String.toList_empty, List.nil_append,
      Gourl.parseAuthority, rpartition_of_notMem hat, parseHost_hostText haddress]
    rfl
  · have htext : (userinfo (username values) (password values)).toList ++ hostText defport values =
        ((username values).toList ++ ':' :: (password values).toList) ++
          '@' :: hostText defport values := by
      rw [userinfo, if_neg hname]
      simp
    have hcolon : ':' ∉ (username values).toList := fun hmem => (h.nameChars _ hmem).2.1 rfl
    have hself : ∀ s : List Char, (∀ c ∈ s, isPlain c = true) →
        Gourl.unescape s .userPassword = .ok s := fun s hs =>
      Gourl.unescape_eq_self rfl (by decide) fun hmem => (isPlain_iff.mp (hs _ hmem)).2.2.1 rfl
    rw [htext, Gourl.parseAuthority, rpartition_append hat, userOf, if_neg hname]
    refine Collections.bind_eq_ok.mpr ⟨_, parseHost_hostText haddress, ?_⟩
    rw [partition_append hcolon]
    exact Collections.bind_eq_ok.mpr ⟨_, hself _ fun c hc => (h.nameChars c hc).1,
      Collections.bind_eq_ok.mpr ⟨_, hself _ fun c hc => (h.wordChars c hc).1, rfl⟩⟩

theorem mem_userinfo {c : Char}
    (hc : c ∈ (userinfo (username values) (password values)).toList) :
    c ∈ (username values).toList ∨ c = ':' ∨ c ∈ (password values).toList ∨ c = '@' := by
  unfold userinfo at hc
  split at hc
  · simp at hc
  · simp only [String.toList_append, List.mem_append] at hc
    rcases hc with ((hc | hc) | hc) | hc
    · exact Or.inl hc
    · exact Or.inr (Or.inl (by simpa using hc))
    · exact Or.inr (Or.inr (Or.inl hc))
    · exact Or.inr (Or.inr (Or.inr (by simpa using hc)))

theorem recovered_of_unmarked (hscheme : Gourl.isSchemeName schema.toList = true)
    (haccepted : Accepted schema defport values) (haddress : Addressed defport values)
    (h : Unmarked values) : Recovered schema defport values := by
  have huser : ∀ c ∈ (userinfo (username values) (password values)).toList,
      c ≠ '#' ∧ c ≠ '?' ∧ Gourl.isControl c = false ∧ c ≠ '/' := by
    intro c hc
    rcases mem_userinfo hc with hc | rfl | hc | rfl
    · obtain ⟨hplain, -, hslash⟩ := h.nameChars c hc
      obtain ⟨hhash, hmark, -, hcontrol⟩ := isPlain_iff.mp hplain
      exact ⟨hhash, hmark, hcontrol, hslash⟩
    · decide
    · obtain ⟨hplain, hslash⟩ := h.wordChars c hc
      obtain ⟨hhash, hmark, -, hcontrol⟩ := isPlain_iff.mp hplain
      exact ⟨hhash, hmark, hcontrol, hslash⟩
    · decide
  have hhost : ∀ c ∈ hostText defport values,
      c ≠ '#' ∧ c ≠ '?' ∧ Gourl.isControl c = false ∧ c ≠ '/' := by
    intro c hc
    obtain ⟨-, hslash, hmark, hhash, -, -, hcontrol⟩ :=
      isUncut_iff.mp (hostText_chars haddress c hc).2.2
    exact ⟨hhash, hmark, hcontrol, hslash⟩
  have hpath : ∀ c ∈ '/' :: (database values).toList,
      c ≠ '#' ∧ c ≠ '?' ∧ Gourl.isControl c = false ∧ c ≠ '%' := by
    intro c hc
    rcases List.mem_cons.mp hc with rfl | hc
    · decide
    · obtain ⟨hhash, hmark, hpercent, hcontrol⟩ := isPlain_iff.mp (h.databaseChars c hc)
      exact ⟨hhash, hmark, hcontrol, hpercent⟩
  have hrest : ∀ c ∈ restText defport values,
      c ≠ '#' ∧ c ≠ '?' ∧ Gourl.isControl c = false := by
    intro c hc
    rcases List.mem_append.mp hc with hc | hc
    · exact ⟨(huser c hc).1, (huser c hc).2.1, (huser c hc).2.2.1⟩
    · rcases List.mem_append.mp hc with hc | hc
      · exact ⟨(hhost c hc).1, (hhost c hc).2.1, (hhost c hc).2.2.1⟩
      · exact ⟨(hpath c hc).1, (hpath c hc).2.1, (hpath c hc).2.2.1⟩
  have hpieces : Gourl.Pieces Gourl.GoUrl.blank
      ((userinfo (username values) (password values)).toList ++ hostText defport values)
      ('/' :: (database values).toList) (restText defport values) := by
    refine ⟨?_, ?_, Or.inr rfl, ?_, fun hforce => nomatch hforce⟩
    · rw [restText, List.append_assoc]
      simp [Gourl.GoUrl.queryText, Gourl.GoUrl.blank]
    · rw [List.mem_append, not_or]
      exact ⟨fun hmem => (huser _ hmem).2.2.2 rfl, fun hmem => (hhost _ hmem).2.2.2 rfl⟩
    · rw [List.append_assoc]
      exact fun hmem => (hrest _ hmem).2.1 rfl
  have hself : Gourl.unescape ('/' :: (database values).toList) .path =
      .ok ('/' :: (database values).toList) :=
    Gourl.unescape_eq_self rfl (by decide) fun hmem => (hpath _ hmem).2.2.2 rfl
  have hparse := Gourl.parse_pieces hscheme hpieces (fun hmem => (hrest _ hmem).1 rfl)
    (List.any_eq_false.mpr fun c hc => Bool.not_eq_true _ ▸ (hrest c hc).2.2)
  rw [parseAuthority_unmarked h haddress] at hparse
  refine ⟨_, (congrArg Gourl.parse (url_toList haccepted)).trans (hparse.trans
    (Collections.bind_eq_ok.mpr ⟨_, rfl, Gourl.setPath_iff.mpr ⟨_, hself, rfl⟩⟩)), ?_, ?_,
    congrArg Prod.fst (splitHostPort_hostText haddress),
    congrArg Prod.snd (splitHostPort_hostText haddress), rfl⟩
  · show ((userOf values).map Gourl.Userinfo.username).getD [] = _
    unfold userOf
    split
    · next hname => rw [hname]; rfl
    · rfl
  · show ((userOf values).map Gourl.Userinfo.password).getD [] = _
    unfold userOf
    split
    · next hname => rw [h.unnamed hname]; rfl
    · rfl

/-! ## Recovered values have no marks -/

/-- What stands in front of a cut is read as a text of no more bytes: a value that is recovered
from it is in front of the cut as a whole. -/
theorem prefix_of_unescape {mode : Gourl.Mode} {value front text : List Char}
    (hread : Gourl.unescape front mode = .ok value) (hvalue : value <+: text)
    (hfront : front <+: text) : value <+: front :=
  prefix_of_length_le hvalue hfront (Gourl.length_of_unescape hread)

/-- The raw name is the written one: it has no colon, and the written one ends at a colon. -/
theorem name_eq {name raw back rest : List Char}
    (hread : Gourl.unescape raw .userPassword = .ok name) (hcolon : ':' ∉ raw)
    (htext : name ++ ':' :: back = raw ++ rest) : raw = name ∧ rest = ':' :: back := by
  obtain ⟨t, rfl⟩ := prefix_of_unescape hread ⟨_, htext⟩ ⟨_, rfl⟩
  rw [List.append_assoc, List.append_cancel_left_eq] at htext
  cases t with
  | nil => exact ⟨List.append_nil name, htext.symm⟩
  | cons c t =>
    rw [List.cons_append] at htext
    rw [← (List.cons.inj htext).1] at hcolon
    exact absurd (List.mem_append_right name List.mem_cons_self) hcolon

/-- The raw password is the written one: behind that there is no `@` in front of the next
slash. -/
theorem word_eq {word raw host path rest : List Char}
    (hread : Gourl.unescape raw .userPassword = .ok word) (hraw : '/' ∉ raw) (hslash : '/' ∉ host)
    (hat : '@' ∉ host)
    (htext : word ++ '@' :: (host ++ '/' :: path) = raw ++ '@' :: rest) :
    raw = word ∧ rest = host ++ '/' :: path := by
  obtain ⟨t, rfl⟩ := prefix_of_unescape hread ⟨_, htext⟩ ⟨_, rfl⟩
  rw [List.append_assoc, List.append_cancel_left_eq] at htext
  cases t with
  | nil => exact ⟨List.append_nil word, (List.cons.inj htext).2.symm⟩
  | cons c t =>
    rw [List.cons_append] at htext
    have hcut := congrArg (partition '/') (List.cons.inj htext).2
    have hfront : '/' ∉ t ++ ['@'] := by
      simp only [List.mem_append, List.mem_cons, not_or] at hraw ⊢
      exact ⟨hraw.2.2, by decide, List.not_mem_nil⟩
    have hjoin : t ++ '@' :: rest = (t ++ ['@']) ++ rest := by simp
    rw [partition_append hslash, hjoin, partition_append_of_notMem hfront] at hcut
    rw [(Prod.mk.inj hcut).1] at hat
    exact absurd (by simp) hat

theorem uncut_hostText (h : Addressed defport values) :
    '/' ∉ hostText defport values ∧ '@' ∉ hostText defport values := by
  constructor
  · exact fun hmem => (isUncut_iff.mp (hostText_chars h _ hmem).2.2).2.1 rfl
  · exact fun hmem => (isUncut_iff.mp (hostText_chars h _ hmem).2.2).1 rfl

/-- The authority is the written one, and the name and the password have no escapes. -/
theorem authority_eq {name word path a rest : List Char} {user : Gourl.Userinfo}
    {host : List Char} (haddress : Addressed defport values) (ha : '/' ∉ a)
    (hauthority : Gourl.parseAuthority a = .ok (some user, host))
    (hname : user.username = name) (hword : user.password = word)
    (htext : name ++ ':' :: (word ++ '@' :: (hostText defport values ++ '/' :: path)) =
      a ++ '/' :: rest) :
    a = name ++ ':' :: (word ++ '@' :: hostText defport values) ∧ rest = path ∧
      ':' ∉ name ∧ '%' ∉ name ∧ '%' ∉ word := by
  obtain ⟨hslash, hat⟩ := uncut_hostText haddress
  obtain ⟨userinfo, hosttext, rfl, hcases⟩ := Gourl.exists_of_parseAuthority hauthority
  rw [hname, hword] at hcases
  rw [List.append_assoc] at htext
  rcases hcases with ⟨hcolon, hread⟩ | ⟨raw, rawword, rfl, hcolon, hread, hreadword⟩
  · obtain ⟨-, hrest⟩ := name_eq hread hcolon htext
    cases hrest
  · rw [List.append_assoc] at htext
    obtain ⟨rfl, hrest⟩ := name_eq hread hcolon htext
    simp only [List.mem_append, List.mem_cons, not_or] at ha
    obtain ⟨rfl, hrest'⟩ := word_eq hreadword ha.1.2.2 hslash hat (List.cons.inj hrest).2.symm
    obtain ⟨rfl, rfl⟩ := cut_unique ha.2.2 hslash hrest'
    exact ⟨by simp, rfl, hcolon, Gourl.percent_notMem_of_unescape hread,
      Gourl.percent_notMem_of_unescape hreadword⟩

theorem unmarked_of_recovered (hscheme : Gourl.isSchemeName schema.toList = true)
    (haccepted : Accepted schema defport values) (haddress : Addressed defport values)
    (h : Recovered schema defport values) : Unmarked values := by
  obtain ⟨u, hparse, hname, hword, -, -, hpath⟩ := h
  rw [url_toList haccepted] at hparse
  have hcontrol : ∀ c ∈ restText defport values, Gourl.isControl c = false := by
    have hany := Gourl.control_of_parse hparse
    intro c hc
    exact Bool.not_eq_true _ ▸ List.any_eq_false.mp hany c
      (List.mem_append_right _ (by simp [hc]))
  obtain ⟨a, q, tail, htext, ha, hq, hmarks, hauthority, hread⟩ := Gourl.exists_of_parse hscheme hparse
  rw [hpath] at hread
  obtain ⟨rest, rfl⟩ : ∃ rest, q = '/' :: rest := by
    rcases hq with rfl | hq
    · cases hread
    · exact List.head?_eq_some_iff.mp hq
  rw [List.cons_append] at htext
  -- The path is the whole of the database.
  have hdatabase : rest ++ tail = (database values).toList →
      ∀ c ∈ (database values).toList, isPlain c = true := by
    intro hrest c hc
    have hfront : '/' :: rest <+: '/' :: (database values).toList :=
      ⟨tail, by rw [← hrest, List.cons_append]⟩
    have hback := prefix_of_unescape hread (List.prefix_refl _) hfront
    have hsame : rest = (database values).toList :=
      (List.cons.inj (hfront.eq_of_length_le hback.length_le)).2
    rw [hsame] at hread hmarks
    obtain ⟨hmark, hhash⟩ := hmarks c (by simp [hc])
    have hpercent : c ≠ '%' := fun hc' => Gourl.percent_notMem_of_unescape hread
      (List.mem_cons_of_mem _ (hc' ▸ hc))
    have hmem : c ∈ restText defport values := by simp [restText, hc]
    exact isPlain_iff.mpr ⟨hhash, hmark, hpercent, hcontrol c hmem⟩
  by_cases hempty : username values = ""
  · have hrest : restText defport values =
        hostText defport values ++ '/' :: (database values).toList := by
      rw [restText, userinfo, if_pos hempty, String.toList_empty, List.nil_append]
    obtain ⟨hslash, hat⟩ := uncut_hostText haddress
    obtain ⟨rfl, hrest'⟩ := cut_unique hslash ha (hrest.symm.trans htext)
    have hnone := Gourl.parseAuthority_of_notMem hat hauthority
    have hunset : (password values).toList = [] := by
      rw [← hword, Gourl.GoUrl.password, hnone]
      rfl
    refine ⟨?_, ?_, fun _ => String.toList_eq_nil_iff.mp hunset, hdatabase hrest'.symm⟩
    · rw [hempty]
      exact fun c hc => absurd hc List.not_mem_nil
    · rw [hunset]
      exact fun c hc => absurd hc List.not_mem_nil
  · cases huser : u.user with
    | none =>
      rw [Gourl.GoUrl.username, huser] at hname
      exact absurd (String.toList_eq_nil_iff.mp hname.symm) hempty
    | some user =>
      have hrest : restText defport values = (username values).toList ++ ':' ::
          ((password values).toList ++ '@' ::
            (hostText defport values ++ '/' :: (database values).toList)) := by
        rw [restText, userinfo, if_neg hempty]
        simp
      rw [Gourl.GoUrl.username, huser] at hname
      rw [Gourl.GoUrl.password, huser] at hword
      rw [huser] at hauthority
      obtain ⟨rfl, hrest', hcolon, hpercent, hpercent'⟩ :=
        authority_eq haddress ha hauthority hname hword (hrest.symm.trans htext)
      have hplain : ∀ c ∈ (username values).toList ++ (password values).toList, c ≠ '%' →
          isPlain c = true ∧ c ≠ '/' := by
        intro c hc hpercent
        have hmem : c ∈ (username values).toList ++ ':' ::
            ((password values).toList ++ '@' :: hostText defport values) := by
          rcases List.mem_append.mp hc with hc | hc
          · exact List.mem_append_left _ hc
          · simp [hc]
        obtain ⟨hmark, hhash⟩ := hmarks c (List.mem_append_left _ hmem)
        have hmem' : c ∈ restText defport values := by
          rw [htext]
          exact List.mem_append_left _ hmem
        exact ⟨isPlain_iff.mpr ⟨hhash, hmark, hpercent, hcontrol c hmem'⟩, fun hc' => ha (hc' ▸ hmem)⟩
      refine ⟨fun c hc => ?_, fun c hc => ?_, fun hname => absurd hname hempty, hdatabase hrest'⟩
      · obtain ⟨hp, hslash⟩ := hplain c (List.mem_append_left _ hc) fun hc' => hpercent (hc' ▸ hc)
        exact ⟨hp, fun hc' => hcolon (hc' ▸ hc), hslash⟩
      · exact hplain c (List.mem_append_right _ hc) fun hc' => hpercent' (hc' ▸ hc)

/-- The values are recovered from the URL if and only if they mean nothing to a URL parser. -/
theorem database_recovered_iff (hscheme : Gourl.isSchemeName schema.toList = true)
    (haccepted : Accepted schema defport values) (haddress : Addressed defport values) :
    Recovered schema defport values ↔ Unmarked values :=
  ⟨unmarked_of_recovered hscheme haccepted haddress,
    recovered_of_unmarked hscheme haccepted haddress⟩

def config (username password hostname database : String) : Values :=
  (((Collections.Dict.empty.insert "Username" (.str username)).insert "Password"
    (.str password)).insert "Hostname" (.str hostname)).insert "Database" (.str database)

/-- The separators of a URL may stand in the user and in the password. -/
theorem database_recovered_iff_strong :
    Recovered "postgres" 5432 (config "a@b" "p:ss+w@rd" "db.example.com" "main") := by
  have haddress : Addressed 5432 (config "a@b" "p:ss+w@rd" "db.example.com" "main") :=
    ⟨List.all_eq_true.mp (by decide +kernel), by decide +kernel⟩
  have haccepted : Accepted "postgres" 5432 (config "a@b" "p:ss+w@rd" "db.example.com" "main") := rfl
  refine (database_recovered_iff (by decide +kernel) haccepted haddress).mpr ?_
  exact ⟨List.all_iff_forall_prop.mp (by decide +kernel),
    List.all_iff_forall_prop.mp (by decide +kernel), by decide +kernel,
    List.all_eq_true.mp (by decide +kernel)⟩

/-- A slash in the password ends the authority, and the password is taken for a port. -/
theorem not_recovered_slash :
    urlFromDatabaseConfiguration "postgres" 5432 (config "app" "pa/ss" "db.example.com" "main") =
        ("postgres://app:pa/ss@db.example.com:5432/main", []) ∧
      Gourl.parse "postgres://app:pa/ss@db.example.com:5432/main".toList =
        .error (.value "invalid port :pa after host".toList) ∧
      ¬ Recovered "postgres" 5432 (config "app" "pa/ss" "db.example.com" "main") := by
  have hurl : urlFromDatabaseConfiguration "postgres" 5432
      (config "app" "pa/ss" "db.example.com" "main") =
        ("postgres://app:pa/ss@db.example.com:5432/main", []) := by decide +kernel
  have hparse : Gourl.parse "postgres://app:pa/ss@db.example.com:5432/main".toList =
      .error (.value "invalid port :pa after host".toList) := by decide +kernel
  refine ⟨hurl, hparse, fun hrecovered => ?_⟩
  obtain ⟨u, hu, -⟩ := hrecovered
  rw [hurl, hparse] at hu
  cases hu

end DatabaseUrl
end Drivers
end Eds
