import Eds.Drivers.Configuration
import Eds.Util.Mask
import Eds.Util.Numbers

/-!
# What a masked URL shows of the password

`urlFromDatabaseConfiguration` escapes nothing, so that a `/`, a `?` or a `#` in the user name or
in the password ends the authority early, and what follows is no longer masked as a password.
`masked_iff` says for which values the second half of the password is hidden whatever stands
in it, and when two passwords without these characters are shown alike: what is masked is the
decoded text, which an escape in a password makes shorter.
-/

namespace Eds
namespace Drivers

open Collections Lexing Util Urls

/-! ## The masked text behind the scheme -/

def shown (scheme rest : List Char) : List Char := maskParts (splitRest scheme rest)

variable {schema : String} {defport : Int} {values values' : Values}

/-- The schemes of the drivers are read as schemes. -/
theorem isScheme_validateScheme (d : UrlDriver) : isScheme d.validateScheme.toList = true := by
  cases d <;> decide

theorem maskUrl_url (hschema : isScheme schema.toList = true)
    (haccepted : Accepted schema defport values) :
    maskUrl (urlFromDatabaseConfiguration schema defport values).1 =
      String.ofList (shown (schema.toList.map Char.toLower)
        ((userinfo (username values) (password values)).toList ++
          (location defport values).toList)) := by
  have hlist : (schema ++ "://" ++ (userinfo (username values) (password values) ++
      location defport values)).toList =
      schema.toList ++ ':' :: '/' :: '/' :: ((userinfo (username values)
        (password values)).toList ++ (location defport values).toList) := by
    simp [String.toList_append]
  rw [url_of_accepted haccepted, maskUrl, hlist, urlsplit_of_isScheme hschema]
  rfl

theorem toList_userinfo {user : String} (h : user ≠ "") (pw : String) :
    (userinfo user pw).toList = user.toList ++ ':' :: (pw.toList ++ ['@']) := by
  rw [userinfo, if_neg h]
  simp [String.toList_append]

variable (scheme : List Char)

/-- Nothing that follows a `#` is shown. -/
theorem shown_hash {a : List Char} (h : '#' ∈ a) (rest rest' : List Char) :
    shown scheme (a ++ rest) = shown scheme (a ++ rest') := by
  obtain ⟨front, back, rfl, hfront⟩ := List.eq_append_cons_of_mem h
  rw [List.append_assoc, List.append_assoc, List.cons_append, List.cons_append, shown, shown,
    splitRest_hash hfront, splitRest_hash hfront]
  rfl

/-! ## Two ways to end a password -/

/-- What a query adds to the text. -/
theorem length_maskParts_query (sp : SplitResult) (query fragment : List Char) :
    (maskParts { sp with query := query, fragment := fragment }).length +
        (maskQuery sp.query).length =
      (maskParts sp).length + (maskQuery query).length := by
  simp only [maskParts, List.length_append]
  omega

theorem query_eq_nil {a : List Char} (h : '#' ∉ a) (h' : '?' ∉ a) :
    (splitRest scheme a).query = [] := by
  have hhash := notMem_dropWhile h inNetloc
  have hpath := notMem_dropWhile h' inNetloc
  simp only [splitRest, partition_of_notMem hhash, partition_of_notMem hpath]

/-- A text that a `#` cuts before any `?`. -/
theorem shown_cut {a : List Char} (h : '#' ∉ a) (h' : '?' ∉ a) (rest : List Char) :
    shown scheme (a ++ '#' :: rest) = scheme ++ [':', '/', '/'] ++
      maskNetloc (a.takeWhile inNetloc) ++ maskPath (a.dropWhile inNetloc) := by
  have hhash := notMem_dropWhile h inNetloc
  have hpath := notMem_dropWhile h' inNetloc
  rw [shown, splitRest_hash h]
  simp only [splitRest, maskParts, partition_of_notMem hhash, partition_of_notMem hpath,
    maskQuery_nil, List.append_nil]

/-- A `?` in place of a `#` makes a query of what follows. -/
theorem shown_question {a : List Char} (h : '#' ∉ a) (h' : '?' ∉ a) (rest : List Char) :
    (shown scheme (a ++ '#' :: '@' :: rest)).length <
      (shown scheme (a ++ '?' :: '@' :: rest)).length := by
  have hquery : parseQsl (partition '#' ('@' :: rest)).1 ≠ [] :=
    parseQsl_cons_ne_nil (by decide) _
  have hpos := length_maskQuery_pos hquery
  have hlength := length_maskParts_query (splitRest scheme a)
    (partition '#' ('@' :: rest)).1 (partition '#' ('@' :: rest)).2.2
  rw [query_eq_nil scheme h h', maskQuery_nil, List.length_nil] at hlength
  rw [shown, shown, splitRest_hash h, splitRest_question h h']
  show (maskParts (splitRest scheme a)).length < _
  dsimp only
  omega

/-- An `&` in place of a `#` adds an item to the query that is there. -/
theorem shown_ampersand {a : List Char} (h : '#' ∉ a) (h' : '?' ∈ a) (rest : List Char) :
    (shown scheme (a ++ '#' :: '@' :: rest)).length <
      (shown scheme (a ++ '&' :: '@' :: rest)).length := by
  obtain ⟨front, query, rfl, hfront⟩ := List.eq_append_cons_of_mem h'
  have hhash : '#' ∉ front := fun hmem => h (List.mem_append_left _ hmem)
  have hquery : '#' ∉ query := fun hmem =>
    h (List.mem_append_right _ (List.mem_cons_of_mem _ hmem))
  have hitem : parseQsl (partition '#' ('@' :: rest)).1 ≠ [] :=
    parseQsl_cons_ne_nil (by decide) _
  have hmore := length_maskQuery_append query hitem
  have hcut : (partition '#' (query ++ '&' :: '@' :: rest)).1 =
      query ++ '&' :: (partition '#' ('@' :: rest)).1 := by
    rw [partition_append_of_notMem hquery]
    rfl
  have hless := length_maskParts_query (splitRest scheme front) query ('@' :: rest)
  have hlonger := length_maskParts_query (splitRest scheme front)
    (query ++ '&' :: (partition '#' ('@' :: rest)).1)
    (partition '#' (query ++ '&' :: '@' :: rest)).2.2
  rw [List.append_assoc, List.append_assoc, List.cons_append, List.cons_append, shown, shown,
    splitRest_question hhash hfront, splitRest_question hhash hfront, partition_append hquery, hcut]
  dsimp only
  omega

/-- Behind a front without a `#`, the last character of a password decides how long the text
is. -/
theorem exists_shown_ne {a : List Char} (h : '#' ∉ a) (rest : List Char) :
    ∃ c, shown scheme (a ++ '#' :: '@' :: rest) ≠ shown scheme (a ++ c :: '@' :: rest) := by
  by_cases hquery : '?' ∈ a
  · exact ⟨'&', fun heq => absurd (congrArg List.length heq)
      (Nat.ne_of_lt (shown_ampersand scheme h hquery rest))⟩
  · exact ⟨'?', fun heq => absurd (congrArg List.length heq)
      (Nat.ne_of_lt (shown_question scheme h hquery rest))⟩

/-! ## Passwords without separators -/

/-- None of the characters that end an authority. -/
def Plain (s : String) : Prop := ∀ c ∈ s.toList, inNetloc c = true

instance (s : String) : Decidable (Plain s) :=
  List.decidableBAll (fun c => inNetloc c = true) s.toList

/-- The authority ends at the latest where the database begins. -/
theorem notMem_authority (h : '@' ∉ (hostname values).toList) (defport : Int) :
    '@' ∉ (location defport values).toList.takeWhile inNetloc := by
  have hhost : '@' ∉ (hostport (hostname values) defport
      (getOptionalIntValue "Port" defport values)).toList := by
    rw [hostport]
    split
    · rw [String.toList_append, String.toList_append]
      intro hmem
      rcases List.mem_append.mp hmem with hmem | hmem
      · rcases List.mem_append.mp hmem with hmem | hmem
        · exact h hmem
        · exact absurd hmem (by decide)
      · exact notMem_toString (by decide) rfl _ hmem
    · exact h
  have hlist : (location defport values).toList =
      (hostport (hostname values) defport (getOptionalIntValue "Port" defport values)).toList ++
        '/' :: (getRequiredStringValue "Database" values).1.toList := by
    simp [location, String.toList_append]
  rw [hlist, takeWhile_append_stop (show inNetloc '/' = false from rfl)]
  exact fun hmem => hhost ((List.takeWhile_sublist inNetloc).subset hmem)

/-- The part of a user name that is taken for the beginning of the password. -/
def behindColon (user : List Char) : List Char :=
  match partition ':' user with
  | (_, true, front) => front ++ [':']
  | _ => []

/-- The part of a host that is taken for the end of the password. -/
def beforeAt (host : List Char) : List Char :=
  match rpartition '@' host with
  | (back, true, _) => '@' :: back
  | _ => []

/-- What stands for the password in the user information, decoded. -/
def decodedPassword (user pw host : List Char) : List Char :=
  unquote (behindColon user ++ pw ++ beforeAt host)

theorem partition_behindColon (user : List Char) :
    ∃ head, ∀ rest, partition ':' (user ++ ':' :: rest) = (head, true, behindColon user ++ rest) := by
  unfold behindColon
  by_cases hmem : ':' ∈ user
  · obtain ⟨head, front, rfl, hhead⟩ := List.eq_append_cons_of_mem hmem
    refine ⟨head, fun rest => ?_⟩
    rw [List.append_assoc, List.cons_append, partition_append hhead, partition_append hhead]
    simp
  · refine ⟨user, fun rest => ?_⟩
    rw [partition_append hmem, partition_of_notMem hmem]
    rfl

theorem rpartition_beforeAt (host : List Char) :
    ∃ shown, ∀ front, rpartition '@' (front ++ '@' :: host) = (front ++ beforeAt host, true, shown) := by
  unfold beforeAt
  by_cases hmem : '@' ∈ host
  · obtain ⟨back, shown, rfl, hshown⟩ := exists_last hmem
    refine ⟨shown, fun front => ?_⟩
    rw [← List.cons_append, ← List.append_assoc, rpartition_append hshown, rpartition_append hshown]
  · refine ⟨host, fun front => ?_⟩
    rw [rpartition_append hmem, rpartition_of_notMem hmem]
    simp

theorem maskNetloc_eq_iff (user pw pw' host : List Char) :
    maskNetloc (user ++ ':' :: pw ++ '@' :: host) = maskNetloc (user ++ ':' :: pw' ++ '@' :: host) ↔
      Alike (decodedPassword user pw host) (decodedPassword user pw' host) := by
  obtain ⟨head, hhead⟩ := partition_behindColon user
  obtain ⟨shown, hshown⟩ := rpartition_beforeAt host
  have hnetloc : ∀ p, maskNetloc (user ++ ':' :: p ++ '@' :: host) =
      mask (unquote head) ++ ':' :: mask (decodedPassword user p host) ++ '@' :: shown := by
    intro p
    have hcut : partition ':' (user ++ ':' :: p ++ beforeAt host) =
        (head, true, behindColon user ++ p ++ beforeAt host) := by
      rw [List.append_assoc, List.cons_append, hhead, List.append_assoc]
    rw [maskNetloc, hshown]
    dsimp only
    rw [hcut]
    rfl
  rw [hnetloc pw, hnetloc pw', List.append_cancel_right_eq, List.append_cancel_left_eq, List.cons.injEq,
    mask_eq_mask]
  exact and_iff_right rfl

theorem shown_eq_iff {user pw pw' : String} (huser : Plain user) (hpw : Plain pw)
    (hpw' : Plain pw') (rest : List Char) :
    shown scheme (user.toList ++ ':' :: (pw.toList ++ ['@']) ++ rest) =
        shown scheme (user.toList ++ ':' :: (pw'.toList ++ ['@']) ++ rest) ↔
      Alike (decodedPassword user.toList pw.toList (rest.takeWhile inNetloc))
        (decodedPassword user.toList pw'.toList (rest.takeWhile inNetloc)) := by
  have hplain : ∀ {s : String}, Plain s →
      ∀ c ∈ user.toList ++ ':' :: (s.toList ++ ['@']), inNetloc c = true := by
    intro s hs c hc
    rcases List.mem_append.mp hc with hc | hc
    · exact huser c hc
    rcases List.mem_cons.mp hc with rfl | hc
    · rfl
    rcases List.mem_append.mp hc with hc | hc
    · exact hs c hc
    · rw [List.mem_singleton.mp hc]
      rfl
  have hsplit : ∀ {s : String}, Plain s →
      splitRest scheme (user.toList ++ ':' :: (s.toList ++ ['@']) ++ rest) =
        { splitRest scheme rest with
          netloc := user.toList ++ ':' :: s.toList ++ '@' :: rest.takeWhile inNetloc } := by
    intro s hs
    rw [splitRest, List.takeWhile_append_of_pos (hplain hs),
      List.dropWhile_append_of_pos (hplain hs)]
    simp only [splitRest, List.append_assoc, List.cons_append, List.nil_append]
  rw [shown, shown, hsplit hpw, hsplit hpw', maskParts, maskParts]
  dsimp only
  rw [List.append_cancel_right_eq, List.append_cancel_right_eq, List.append_cancel_left_eq,
    maskNetloc_eq_iff]

/-- Without an escape in it the password stands as it is at the end. -/
theorem decodedPassword_of_noEscape (user : List Char) {host : List Char} (hhost : '@' ∉ host) :
    ∃ front, ∀ pw, hasEscape pw = false → decodedPassword user pw host = front ++ pw := by
  have hbehind : beforeAt host = [] := by
    rw [beforeAt, rpartition_of_notMem hhost]
  by_cases hmem : ':' ∈ user
  · obtain ⟨head, front, rfl, hhead⟩ := List.eq_append_cons_of_mem hmem
    refine ⟨unquote front ++ [':'], fun pw hpw => ?_⟩
    rw [decodedPassword, hbehind, List.append_nil, behindColon, partition_append hhead,
      List.append_assoc, List.singleton_append, unquote_colon _ hpw, List.append_assoc,
      List.singleton_append]
  · refine ⟨[], fun pw hpw => ?_⟩
    rw [decodedPassword, hbehind, List.append_nil, behindColon, partition_of_notMem hmem]
    exact unquote_of_noEscape hpw

/-! ## The masked URL -/

/-- The second half of the password is hidden, whatever it is. -/
def Hidden (user pw : String) : Prop :=
  user = "" ∨ pw = "" ∨ '#' ∈ user.toList ∨ '#' ∈ pw.toList.take (pw.toList.length / 2)

theorem alike_halves {pw pw' : List Char} (h : Alike pw pw') :
    pw' = pw.take (pw.length / 2) ++ pw'.drop (pw.length / 2) := by
  rw [h.2, List.take_append_drop]

theorem userinfo_alike {user pw pw' : String} (hhidden : Hidden user pw)
    (halike : Alike pw.toList pw'.toList) (rest : List Char) :
    shown scheme ((userinfo user pw).toList ++ rest) =
      shown scheme ((userinfo user pw').toList ++ rest) := by
  by_cases huser : user = ""
  · rw [huser]
    rfl
  rw [toList_userinfo huser, toList_userinfo huser]
  rcases hhidden with hnone | hempty | hhash | hhash
  · exact absurd hnone huser
  · subst hempty
    have hnil : pw'.toList = [] := List.length_eq_zero_iff.mp halike.1.symm
    rw [hnil]
    rfl
  · rw [List.append_assoc, List.append_assoc]
    exact shown_hash scheme hhash _ _
  · have hfirst : '#' ∈ user.toList ++ ':' :: pw.toList.take (pw.toList.length / 2) :=
      List.mem_append_right _ (List.mem_cons_of_mem _ hhash)
    have hshape : ∀ {s : List Char}, Alike pw.toList s →
        user.toList ++ ':' :: (s ++ ['@']) ++ rest =
          user.toList ++ ':' :: pw.toList.take (pw.toList.length / 2) ++
            (s.drop (pw.toList.length / 2) ++ '@' :: rest) := by
      intro s hs
      conv_lhs => rw [alike_halves hs]
      simp only [List.append_assoc, List.cons_append, List.nil_append]
    rw [hshape ⟨rfl, rfl⟩, hshape halike]
    exact shown_hash scheme hfirst _ _

def maskedUrl (schema : String) (defport : Int) (values : Values) : String :=
  maskUrl (urlFromDatabaseConfiguration schema defport values).1

/-- What stands for the password in the authority, decoded. -/
def decoded (defport : Int) (values : Values) : List Char :=
  decodedPassword (username values).toList (password values).toList
    ((location defport values).toList.takeWhile inNetloc)

/-- No character that ends the authority, no escape in the password, and one `@`. -/
def Ordinary (values : Values) : Prop :=
  Plain (username values) ∧ Plain (password values) ∧ hasEscape (password values).toList = false ∧
    '@' ∉ (hostname values).toList

instance (values : Values) : Decidable (Ordinary values) :=
  inferInstanceAs (Decidable (Plain _ ∧ Plain _ ∧ hasEscape (password values).toList = false ∧ _))

theorem maskedUrl_hidden (hschema : isScheme schema.toList = true)
    (haccepted : Accepted schema defport values) (hhidden : Hidden (username values) (password values))
    (hdiffer : DifferOnlyIn "Password" values values')
    (halike : Alike (password values).toList (password values').toList) :
    maskedUrl schema defport values = maskedUrl schema defport values' := by
  rw [maskedUrl, maskedUrl, maskUrl_url hschema haccepted,
    maskUrl_url hschema (hdiffer.accepted haccepted), hdiffer.username, hdiffer.location,
    userinfo_alike _ hhidden halike]

theorem maskedUrl_eq_iff (hschema : isScheme schema.toList = true)
    (haccepted : Accepted schema defport values) (hdiffer : DifferOnlyIn "Password" values values')
    (huser : Plain (username values)) (hpw : Plain (password values))
    (hpw' : Plain (password values')) :
    maskedUrl schema defport values = maskedUrl schema defport values' ↔
      username values = "" ∨ Alike (decoded defport values) (decoded defport values') := by
  by_cases hnone : username values = ""
  · rw [maskedUrl, maskedUrl, maskUrl_url hschema haccepted,
      maskUrl_url hschema (hdiffer.accepted haccepted), hdiffer.username, hdiffer.location, hnone]
    exact iff_of_true rfl (Or.inl rfl)
  · rw [maskedUrl, maskedUrl, maskUrl_url hschema haccepted,
      maskUrl_url hschema (hdiffer.accepted haccepted), hdiffer.username, hdiffer.location,
      toList_userinfo hnone, toList_userinfo hnone, String.ofList_inj,
      shown_eq_iff _ huser hpw hpw', decoded, decoded, hdiffer.username, hdiffer.location]
    exact (or_iff_right hnone).symm

theorem Ordinary.alike (h : Ordinary values) (h' : Ordinary values')
    (hdiffer : DifferOnlyIn "Password" values values')
    (halike : Alike (password values).toList (password values').toList) :
    Alike (decoded defport values) (decoded defport values') := by
  obtain ⟨front, hfront⟩ := decodedPassword_of_noEscape (username values).toList
    (notMem_authority h.2.2.2 defport)
  rw [decoded, decoded, hdiffer.username, hdiffer.location, hfront _ h.2.2.1, hfront _ h'.2.2.1]
  exact halike.append_left front

/-- The values with another password. -/
def withPassword (values : Values) (pw : String) : Values := values.insert "Password" (.str pw)

theorem differOnlyIn_withPassword (values : Values) (pw : String) :
    DifferOnlyIn "Password" values (withPassword values pw) := by
  intro key hkey
  rw [withPassword, Dict.get?_insert, if_neg hkey]

theorem password_withPassword (values : Values) (pw : String) :
    password (withPassword values pw) = pw := by
  rw [password, getOptionalStringValue, withPassword, Dict.get?_insert, if_pos rfl]
  dsimp only
  split
  · next hempty => exact hempty.symm
  · rfl

theorem maskedUrl_withPassword (hschema : isScheme schema.toList = true)
    (haccepted : Accepted schema defport values) (huser : username values ≠ "") (pw : String) :
    maskedUrl schema defport (withPassword values pw) =
      String.ofList (shown (schema.toList.map Char.toLower)
        ((username values).toList ++ ':' :: pw.toList ++ '@' :: (location defport values).toList)) := by
  have hdiffer := differOnlyIn_withPassword values pw
  rw [maskedUrl, maskUrl_url hschema (hdiffer.accepted haccepted), hdiffer.username,
    hdiffer.location, password_withPassword, toList_userinfo huser]
  simp only [List.append_assoc, List.cons_append, List.nil_append]

/-- The first half of a password, and something up to its last character. -/
def filler (pw : List Char) : List Char :=
  pw.take (pw.length / 2) ++ List.replicate (pw.length - pw.length / 2 - 1) 'x'

theorem alike_filler {pw : List Char} (h : pw ≠ []) (c : Char) : Alike pw (filler pw ++ [c]) := by
  have hpos := List.length_pos_iff.mpr h
  refine ⟨?_, ?_⟩
  · simp only [filler, List.length_append, List.length_take, List.length_replicate,
      List.length_singleton]
    omega
  · rw [filler, List.append_assoc, List.take_append_of_le_length, List.take_take, Nat.min_self]
    rw [List.length_take]
    omega

theorem notMem_filler {pw : List Char} (h : '#' ∉ pw.take (pw.length / 2)) : '#' ∉ filler pw := by
  intro hmem
  rcases List.mem_append.mp hmem with hmem | hmem
  · exact h hmem
  · exact absurd (List.eq_of_mem_replicate hmem) (by decide)

/-- What is not hidden is told apart from one of two other passwords, which differ in the last
character. -/
theorem exists_maskedUrl_ne (hschema : isScheme schema.toList = true)
    (haccepted : Accepted schema defport values) (hhidden : ¬ Hidden (username values) (password values)) :
    ∃ pw, Alike (password values).toList pw.toList ∧
      maskedUrl schema defport values ≠ maskedUrl schema defport (withPassword values pw) := by
  rw [Hidden, not_or, not_or, not_or] at hhidden
  obtain ⟨huser, hpw, husername, hhalf⟩ := hhidden
  have hne : (password values).toList ≠ [] := fun hnil => hpw (String.toList_eq_nil_iff.mp hnil)
  let pw (c : Char) := String.ofList (filler (password values).toList ++ [c])
  have hfront : '#' ∉ (username values).toList ++ ':' :: filler (password values).toList := by
    intro hmem
    rcases List.mem_append.mp hmem with hmem | hmem
    · exact husername hmem
    · exact notMem_filler hhalf ((List.mem_cons.mp hmem).resolve_left (by decide))
  have halike : ∀ c, Alike (password values).toList (pw c).toList := by
    intro c
    rw [String.toList_ofList]
    exact alike_filler hne c
  have hmasked : ∀ c, maskedUrl schema defport (withPassword values (pw c)) =
      String.ofList (shown (schema.toList.map Char.toLower)
        ((username values).toList ++ ':' :: filler (password values).toList ++
          c :: '@' :: (location defport values).toList)) := by
    intro c
    rw [maskedUrl_withPassword hschema haccepted huser, String.toList_ofList]
    simp only [List.append_assoc, List.cons_append, List.nil_append]
  obtain ⟨c, hc⟩ := exists_shown_ne (schema.toList.map Char.toLower) hfront
    (location defport values).toList
  by_cases heq : maskedUrl schema defport values =
      maskedUrl schema defport (withPassword values (pw '#'))
  · refine ⟨_, halike c, fun heq' => hc ?_⟩
    have hsame := heq.symm.trans heq'
    rw [hmasked, hmasked] at hsame
    exact String.ofList_injective hsame
  · exact ⟨_, halike '#', heq⟩

/-- A password with a `#` in it, and no `?` in front of that. -/
theorem maskedUrl_cut (hschema : isScheme schema.toList = true)
    (haccepted : Accepted schema defport values) (huser : username values ≠ "")
    {front back : List Char} (hpw : (password values).toList = front ++ '#' :: back)
    (h : '#' ∉ (username values).toList ++ ':' :: front)
    (h' : '?' ∉ (username values).toList ++ ':' :: front) :
    maskedUrl schema defport values =
      String.ofList (schema.toList.map Char.toLower ++ [':', '/', '/'] ++
        maskNetloc (((username values).toList ++ ':' :: front).takeWhile inNetloc) ++
        maskPath (((username values).toList ++ ':' :: front).dropWhile inNetloc)) := by
  rw [← shown_cut _ h h' (back ++ '@' :: (location defport values).toList), maskedUrl,
    maskUrl_url hschema haccepted, toList_userinfo huser, hpw]
  simp only [List.append_assoc, List.cons_append, List.nil_append]

/-- Every password that looks the same through a mask gives the same masked URL exactly if the
password is hidden.  Two passwords without a separator give the same exactly if they look the same
once decoded, as two ordinary ones that look the same do. -/
theorem masked_iff (hschema : isScheme schema.toList = true)
    (haccepted : Accepted schema defport values) :
    ((∀ values', DifferOnlyIn "Password" values values' →
        Alike (password values).toList (password values').toList →
        maskedUrl schema defport values = maskedUrl schema defport values') ↔
        Hidden (username values) (password values)) ∧
      (∀ values', DifferOnlyIn "Password" values values' → Plain (username values) →
        Plain (password values) → Plain (password values') →
        (maskedUrl schema defport values = maskedUrl schema defport values' ↔
          username values = "" ∨ Alike (decoded defport values) (decoded defport values'))) ∧
      ∀ values', Ordinary values → Ordinary values' → DifferOnlyIn "Password" values values' →
        Alike (password values).toList (password values').toList →
        maskedUrl schema defport values = maskedUrl schema defport values' := by
  refine ⟨⟨fun hall => ?_, fun hhidden values' => ?_⟩, fun values' hdiffer huser hpw hpw' => ?_,
    fun values' hordinary hordinary' hdiffer halike => ?_⟩
  · by_contra hhidden
    obtain ⟨pw, halike, hne⟩ := exists_maskedUrl_ne hschema haccepted hhidden
    have hpassword := password_withPassword values pw
    exact hne (hall _ (differOnlyIn_withPassword values pw) (hpassword.symm ▸ halike))
  · exact maskedUrl_hidden hschema haccepted hhidden
  · exact maskedUrl_eq_iff hschema haccepted hdiffer huser hpw hpw'
  · refine (maskedUrl_eq_iff hschema haccepted hdiffer hordinary.1 hordinary.2.1 hordinary'.2.1).mpr ?_
    exact Or.inr (hordinary.alike hordinary' hdiffer halike)

/-! ## Two passwords -/

/-- Values with a user name and a password. -/
def exampleValues (user pw : String) : Values where
  items := [("Password", .str pw), ("Username", .str user), ("Hostname", .str "h"),
    ("Database", .str "db")]
  nodup := by simp

theorem differOnlyIn_exampleValues (user pw pw' : String) :
    DifferOnlyIn "Password" (exampleValues user pw) (exampleValues user pw') := by
  intro key hkey
  have hget : ∀ p, (exampleValues user p).get? key = List.lookup key
      [("Username", .str user), ("Hostname", .str "h"), ("Database", .str "db")] :=
    fun p => (Dict.lookup_entry _ _ _ _).trans (if_neg hkey)
  rw [hget, hget]

/-- A `%` that begins no escape is no matter; one that does may shorten what is masked. -/
theorem masked_iff_plain :
    maskedUrl "postgres" 5432 (exampleValues "u" "P%ssw0rd") =
        maskedUrl "postgres" 5432 (exampleValues "u" "P%ssw0re") ∧
      maskedUrl "postgres" 5432 (exampleValues "u" "ab%41") ≠
        maskedUrl "postgres" 5432 (exampleValues "u" "ab%4x") := by
  have hschema : isScheme "postgres".toList = true := by decide
  constructor
  · exact (masked_iff hschema (rfl : Accepted "postgres" 5432 (exampleValues "u" "P%ssw0rd"))).2.2 _
      (by decide) (by decide) (differOnlyIn_exampleValues "u" "P%ssw0rd" "P%ssw0re") (by decide)
  · have hdecoded := (masked_iff hschema
      (rfl : Accepted "postgres" 5432 (exampleValues "u" "ab%41"))).2.1 _
      (differOnlyIn_exampleValues "u" "ab%41" "ab%4x") (by decide) (by decide) (by decide)
    rw [ne_eq, hdecoded]
    decide

/-- A `#` in the password: what stands before it is taken for the host and shown. -/
theorem hash_shown :
    let values := exampleValues "u" "ab#"
    let values' := exampleValues "u" "ac#"
    Accepted "postgres" 5432 values ∧ Accepted "postgres" 5432 values' ∧
      DifferOnlyIn "Password" values values' ∧
      Alike (password values).toList (password values').toList ∧
      maskedUrl "postgres" 5432 values ≠ maskedUrl "postgres" 5432 values' := by
  intro values values'
  have hschema : isScheme "postgres".toList = true := by decide
  have haccepted : Accepted "postgres" 5432 values := rfl
  have haccepted' : Accepted "postgres" 5432 values' := rfl
  refine ⟨haccepted, haccepted', differOnlyIn_exampleValues "u" "ab#" "ac#", by decide, ?_⟩
  have hpw : (password values).toList = ['a', 'b'] ++ '#' :: [] := by decide
  have hpw' : (password values').toList = ['a', 'c'] ++ '#' :: [] := by decide
  rw [maskedUrl_cut hschema haccepted (by decide) hpw (by decide) (by decide),
    maskedUrl_cut hschema haccepted' (by decide) hpw' (by decide) (by decide)]
  intro heq
  exact absurd (String.ofList_injective heq) (by decide)

end Drivers
end Eds
