import Eds.Dbchange
import Eds.Importer.Records
import Eds.Lexing.Subjects

/-!
# The credentials of a session

A credential file holds a token whose claims list the subjects that its bearer may listen to.  The
companies of the session are read off these subjects, and the changes of a company are asked for by
its `filterSubject`.

A company is a word of hexadecimal digits and dashes, so that it is one token of a subject and never
a wildcard.
-/

namespace Eds
namespace Consumer

open Collections Lexing Lexing.Subjects

/-! ## Subjects -/

/-- `[a-f0-9-]` -/
def isIdChar (c : Char) : Bool := ('a' ≤ c && c ≤ 'f') || ('0' ≤ c && c ≤ '9') || c == '-'

/-- `([a-f0-9-]+)\.`: the class has no dot, so that only its longest run can match. -/
def idBefore (text : List Char) : String :=
  let run := text.takeWhile isIdChar
  if run ≠ [] ∧ (text.dropWhile isIdChar).head? = some '.' then String.ofList run else ""

/-- `extract_company_id_from_dbchange_subscription` -/
def extractCompanyId (sub : String) : String :=
  let start := "dbchange.*.*.".toList
  if start.isPrefixOf sub.toList then idBefore (sub.toList.drop start.length) else ""

/-- `^eds.notify.`, where a dot is any character but a newline. -/
def notifies : List Char → Bool
  | 'e' :: 'd' :: 's' :: c :: 'n' :: 'o' :: 't' :: 'i' :: 'f' :: 'y' :: c' :: _ => c != '\n' && c' != '\n'
  | _ => false

/-- `extract_session_id_from_eds_subscription` -/
def extractSessionId (sub : String) : String :=
  if notifies sub.toList then idBefore (sub.toList.drop 11) else ""

/-- What is asked of the server for a company. -/
def filterSubject (company : String) : String := "dbchange.*.*." ++ company ++ ".*.PUBLIC.>"

/-- The subject of a public change of a company. -/
def PublicChange (company : List Char) (ts : List (List Char)) : Prop :=
  ∃ table operation location rest, rest ≠ [] ∧
    ts = ["dbchange".toList, table, operation, company, location, "PUBLIC".toList] ++ rest

theorem start_append (text : List Char) : "dbchange.*.*.".toList ++ text =
    "dbchange".toList ++ '.' :: (['*'] ++ '.' :: (['*'] ++ '.' :: text)) := by
  have hstart : "dbchange.*.*.".toList = "dbchange".toList ++ ['.', '*', '.', '*', '.'] := by decide
  rw [hstart, List.append_assoc]
  rfl

theorem tokens_filterSubject {company : String} (h : '.' ∉ company.toList) :
    tokens (filterSubject company).toList =
      ["dbchange".toList, ['*'], ['*'], company.toList, ['*'], "PUBLIC".toList] ++ [['>']] := by
  have hlast : ".*.PUBLIC.>".toList = '.' :: (['*'] ++ '.' :: ("PUBLIC".toList ++ '.' :: ['>'])) := by
    decide
  rw [filterSubject, String.toList_append, String.toList_append, List.append_assoc, start_append, hlast,
    tokens_append (by decide), tokens_append (by decide), tokens_append (by decide),
    tokens_append h, tokens_append (by decide), tokens_append (by decide),
    tokens_of_notMem (by decide)]
  rfl

/-- The filter of a company covers its public changes; that of `*` covers those of all companies. -/
theorem covers_filterSubject {company : String} (hdot : '.' ∉ company.toList)
    (hrest : company.toList ≠ ['>']) (ts : List (List Char)) :
    covers (tokens (filterSubject company).toList) ts = true ↔
      ∃ c, Fits company.toList c ∧ PublicChange c ts := by
  have hplain : ∀ p ∈ ["dbchange".toList, ['*'], ['*'], company.toList, ['*'], "PUBLIC".toList],
      p ≠ ['>'] := by
    intro p hp
    simp only [List.mem_cons, List.not_mem_nil, or_false] at hp
    rcases hp with rfl | rfl | rfl | rfl | rfl | rfl
    · decide
    · decide
    · decide
    · exact hrest
    · decide
    · decide
  have hliteral : ∀ {w t : List Char}, w ≠ ['*'] → Fits w t → t = w := fun hw h => (h.resolve_left hw).symm
  rw [tokens_filterSubject hdot, covers_open_iff hplain]
  constructor
  · rintro ⟨front, rest, rfl, hne, hfront⟩
    cases hfront with
    | cons h₁ hfront => cases hfront with
      | cons _ hfront => cases hfront with
        | cons _ hfront => cases hfront with
          | cons hcompany hfront => cases hfront with
            | cons _ hfront => cases hfront with
              | cons h₆ hfront =>
                cases hfront
                obtain rfl := hliteral (by decide) h₁
                obtain rfl := hliteral (by decide) h₆
                exact ⟨_, hcompany, _, _, _, rest, hne, rfl⟩
  · rintro ⟨c, hc, table, operation, location, rest, hne, rfl⟩
    refine ⟨_, rest, rfl, hne, ?_⟩
    exact .cons (.inr rfl) (.cons (.inl rfl) (.cons (.inl rfl) (.cons hc (.cons (.inl rfl)
      (.cons (.inr rfl) .nil)))))

/-! ## The companies of a list of subjects -/

structure IsId (word : List Char) : Prop where
  nonempty : word ≠ []
  chars : ∀ c ∈ word, isIdChar c = true

theorem IsId.dot {word : List Char} (h : IsId word) : '.' ∉ word := fun hmem =>
  absurd (h.chars '.' hmem) (by decide)

theorem IsId.plain {word : List Char} (h : IsId word) {c : Char} (hc : isIdChar c = false) : word ≠ [c] := by
  rintro rfl
  exact Bool.false_ne_true (hc.symm.trans (h.chars c List.mem_cons_self))

theorem idBefore_eq_iff {text word : List Char} (hword : word ≠ []) :
    idBefore text = String.ofList word ↔ IsId word ∧ ∃ rest, text = word ++ '.' :: rest := by
  have hsplit : text.takeWhile isIdChar ++ text.dropWhile isIdChar = text := List.takeWhile_append_dropWhile
  constructor
  · intro h
    rw [idBefore] at h
    split at h
    · next hrun =>
      have hrunword : text.takeWhile isIdChar = word := String.ofList_injective h
      obtain ⟨rest, hrest⟩ := List.head?_eq_some_iff.mp hrun.2
      refine ⟨⟨hword, fun c hc => List.mem_takeWhile_imp (hrunword ▸ hc)⟩, rest, ?_⟩
      rw [← hrunword, ← hrest, hsplit]
    · exact absurd (String.ofList_injective h).symm hword
  · rintro ⟨hid, rest, rfl⟩
    have htake : (word ++ '.' :: rest).takeWhile isIdChar = word := by
      rw [List.takeWhile_append_of_pos hid.chars]
      simp [isIdChar]
    have hdrop : (word ++ '.' :: rest).dropWhile isIdChar = '.' :: rest := by
      rw [List.dropWhile_append_of_pos hid.chars]
      simp [isIdChar]
    rw [idBefore, htake, hdrop, if_pos ⟨hword, rfl⟩]

/-- A subject that lets its bearer listen to a company. -/
def Grants (sub : String) (company : List Char) : Prop :=
  IsId company ∧ ∃ rest, rest ≠ [] ∧ tokens sub.toList = ["dbchange".toList, ['*'], ['*'], company] ++ rest

theorem extractCompanyId_eq_iff {sub : String} {company : List Char} (hcompany : company ≠ []) :
    extractCompanyId sub = String.ofList company ↔ Grants sub company := by
  constructor
  · intro h
    rw [extractCompanyId] at h
    split at h
    · next hprefix =>
      obtain ⟨text, htext⟩ := List.isPrefixOf_iff_prefix.mp hprefix
      rw [← htext, List.drop_left] at h
      obtain ⟨hid, rest, rfl⟩ := (idBefore_eq_iff hcompany).mp h
      refine ⟨hid, tokens rest, tokens_ne_nil rest, ?_⟩
      rw [← htext, start_append, tokens_append (by decide), tokens_append (by decide),
        tokens_append (by decide), tokens_append hid.dot]
      rfl
    · exact absurd (String.ofList_injective h).symm hcompany
  · rintro ⟨hid, rest, hrest, htokens⟩
    obtain ⟨s₁, hs₁, h₁⟩ := eq_append_of_tokens htokens (List.cons_ne_nil _ _)
    obtain ⟨s₂, rfl, h₂⟩ := eq_append_of_tokens h₁ (List.cons_ne_nil _ _)
    obtain ⟨s₃, rfl, h₃⟩ := eq_append_of_tokens h₂ (List.cons_ne_nil _ _)
    obtain ⟨s₄, rfl, _⟩ := eq_append_of_tokens h₃ hrest
    have hsub : sub.toList = "dbchange.*.*.".toList ++ (company ++ '.' :: s₄) := by
      rw [hs₁, start_append]
    rw [extractCompanyId, hsub, if_pos (List.isPrefixOf_iff_prefix.mpr (List.prefix_append _ _)),
      List.drop_left]
    exact (idBefore_eq_iff hcompany).mpr ⟨hid, s₄, rfl⟩

/-- A subject that names a session names no company. -/
theorem extractCompanyId_of_session {sub : String} (h : extractSessionId sub ≠ "") :
    extractCompanyId sub = "" := by
  refine if_neg fun hprefix => h (if_neg ?_)
  obtain ⟨text, htext⟩ := List.isPrefixOf_iff_prefix.mp hprefix
  have hstart : "dbchange.*.*.".toList = 'd' :: "bchange.*.*.".toList := by decide
  rw [← htext, hstart]
  exact Bool.false_ne_true

/-! ## The claims -/

/-- Where `str.splitlines` ends a line. -/
def isLineEnd (c : Char) : Bool :=
  let n := c.toNat
  (10 ≤ n && n ≤ 13) || (28 ≤ n && n ≤ 30) || n == 0x85 || n == 0x2028 || n == 0x2029

/-- The lines of a text, after what is read of the first of them. -/
def splitlines (line : List Char) : List Char → List (List Char)
  | [] => if line = [] then [] else [line]
  | '\r' :: '\n' :: rest => line :: splitlines [] rest
  | c :: rest => if isLineEnd c then line :: splitlines [] rest else splitlines (line ++ [c]) rest

/-- `text.split(word, 1)[1]`, where `word` occurs. -/
def afterFirst (word : List Char) : List Char → Option (List Char)
  | [] => none
  | c :: rest => if word.isPrefixOf (c :: rest) then some ((c :: rest).drop word.length) else afterFirst word rest

def isEndLine (line : List Char) : Bool :=
  "-----END".toList.isPrefixOf line || "------END".toList.isPrefixOf line

structure CredentialInfo where
  companyIds : List String
  serverId : Json
  sessionId : String

/-- `v.get(name)` -/
def getField (v : Json) (name : String) : Except Exn Json :=
  match v with
  | .obj fields => .ok (Dbchange.field fields name .null)
  | _ => .error (.exception "object has no attribute 'get'")

/-- `v or default` -/
def orElse (v default : Json) : Json := if Drivers.isFalsy v then default else v

/-- What a loop over a value goes through. -/
def iterated : Json → Except Exn (List Json)
  | .arr vs => .ok vs
  | .str s => .ok (s.toList.map fun c => .str (String.ofList [c]))
  | .obj fields => .ok (fields.map fun f => .str f.1)
  | _ => .error (.exception "object is not iterable")

/-- The loop over the allowed subjects, with the companies found and the session. -/
def scan : List Json → List String × String → Except Exn (List String × String)
  | [], found => .ok found
  | .str sub :: rest, (companies, session) =>
    if extractSessionId sub ≠ "" then scan rest (companies, extractSessionId sub)
    else if extractCompanyId sub ≠ "" then scan rest (companies ++ [extractCompanyId sub], session)
    else scan rest (companies, session)
  | _ :: _, _ => .error (.exception "expected string or bytes-like object")

section

variable (py : Dbchange.Interpreter)

/-- `_parse_decorated_jwt` -/
def parseDecoratedJwt (buf : List UInt8) : String :=
  let text := py.decode buf
  match afterFirst "-----BEGIN NATS USER JWT-----".toList text.toList with
  | none => Importer.strip text
  | some after =>
    String.join ((((splitlines [] after).takeWhile fun line => !isEndLine line).map
      fun line => Importer.strip (String.ofList line)).filter (· ≠ ""))

/-- `b64` is `base64.urlsafe_b64decode`, with the text of its `binascii.Error`. -/
def decodeUserClaims (b64 : String → Except String (List UInt8)) (token : String) :
    Except Exn (List (String × Json)) :=
  match token.toList.splitOn '.' with
  | [_, payload, _] =>
    let padding := String.ofList (List.replicate ((4 - payload.length % 4) % 4) '=')
    match b64 (String.ofList payload ++ padding) with
    | .error e => .error (.valueError ("decoding JWT claims: " ++ e))
    | .ok data =>
      match Dbchange.loads py data with
      | none => .error (.valueError ("decoding JWT claims: " ++ py.refusal data))
      | some (.obj claims) => .ok claims
      | some _ => .error (.valueError "decoding JWT claims: payload is not an object")
  | _ => .error (.valueError "parsing valid JWT: token must have 3 segments")

/-- `claims["nats"]["sub"]["allow"]`, with what is missing or falsy left out. -/
def allowedSubjects (claims : List (String × Json)) : Except Exn (List Json) := do
  let sub ← getField (orElse (Dbchange.field claims "nats" .null) (.obj [])) "sub"
  let allow ← getField (orElse sub (.obj [])) "allow"
  iterated (orElse allow (.arr []))

def credentialInfo (claims : List (String × Json)) : Except Exn CredentialInfo := do
  let allowed ← allowedSubjects claims
  let (companies, session) ← scan allowed ([], "")
  if companies = [] then
    .error (.valueError
      "issue parsing company IDs from JWT claims. Ensure the JWT has the correct permissions")
  else if Drivers.isFalsy (Dbchange.field claims "name" (.str "")) then
    .error (.valueError "missing server id in credential")
  else .ok ⟨companies, Dbchange.field claims "name" (.str ""), session⟩

end

/-! ## What is found -/

/-- One of the subjects names the company. -/
def Named (subs : List Json) (company : String) : Prop :=
  company ≠ "" ∧ ∃ sub, .str sub ∈ subs ∧ extractCompanyId sub = company

theorem named_cons {sub : String} {rest : List Json} {company : String} :
    Named (.str sub :: rest) company ↔
      (company ≠ "" ∧ extractCompanyId sub = company) ∨ Named rest company := by
  constructor
  · rintro ⟨hne, sub', hmem, hsub'⟩
    rcases List.mem_cons.mp hmem with heq | hmem
    · cases heq
      exact .inl ⟨hne, hsub'⟩
    · exact .inr ⟨hne, sub', hmem, hsub'⟩
  · rintro (⟨hne, hsub⟩ | ⟨hne, sub', hmem, hsub'⟩)
    · exact ⟨hne, sub, List.mem_cons_self, hsub⟩
    · exact ⟨hne, sub', List.mem_cons_of_mem _ hmem, hsub'⟩

theorem named_skip {sub : String} {rest : List Json} {company : String} (h : extractCompanyId sub = "") :
    Named (.str sub :: rest) company ↔ Named rest company :=
  named_cons.trans (or_iff_right fun hsub => hsub.1 (hsub.2.symm.trans h))

theorem scan_companies {subs : List Json} {found found' : List String × String}
    (h : scan subs found = .ok found') (company : String) :
    company ∈ found'.1 ↔ company ∈ found.1 ∨ Named subs company := by
  induction subs generalizing found with
  | nil =>
    cases h
    simp [Named]
  | cons v rest ih =>
    cases v with
    | str sub =>
      rw [scan] at h
      split at h
      · next hsession => rw [ih h, named_skip (extractCompanyId_of_session hsession)]
      · split at h
        · next hextract =>
          have hsub : company ∈ [extractCompanyId sub] ↔
              company ≠ "" ∧ extractCompanyId sub = company := by
            rw [List.mem_singleton]
            exact ⟨fun heq => ⟨heq ▸ hextract, heq.symm⟩, fun hsub => hsub.2.symm⟩
          rw [ih h, List.mem_append, hsub, named_cons, or_assoc]
        · next hextract => rw [ih h, named_skip (not_not.mp hextract)]
    | _ => cases h

/-- The companies of a session are those that its subjects grant. -/
theorem credentialInfo_companies {claims : List (String × Json)} {info : CredentialInfo}
    (h : credentialInfo claims = .ok info) :
    ∃ allowed, allowedSubjects claims = .ok allowed ∧ info.companyIds ≠ [] ∧
      ∀ company, company ∈ info.companyIds ↔ ∃ sub, .str sub ∈ allowed ∧ Grants sub company.toList := by
  rw [credentialInfo] at h
  cases hallowed : allowedSubjects claims with
  | error e => rw [hallowed] at h; cases h
  | ok allowed =>
    simp only [hallowed, bind, Except.bind] at h
    cases hscan : scan allowed ([], "") with
    | error e => rw [hscan] at h; cases h
    | ok found =>
      simp only [hscan] at h
      split at h
      · cases h
      · next hne =>
        split at h
        · cases h
        · cases h
          refine ⟨allowed, rfl, hne, fun company => ?_⟩
          rw [scan_companies hscan company]
          simp only [List.not_mem_nil, false_or]
          constructor
          · rintro ⟨hcompany, sub, hsub, hextract⟩
            refine ⟨sub, hsub, (extractCompanyId_eq_iff fun hnil => hcompany ?_).mp ?_⟩
            · exact String.toList_eq_nil_iff.mp hnil
            · rw [hextract, String.ofList_toList]
          · rintro ⟨sub, hsub, hgrants⟩
            have hextract := (extractCompanyId_eq_iff hgrants.1.nonempty).mpr hgrants
            rw [String.ofList_toList] at hextract
            exact ⟨fun hempty => hgrants.1.nonempty (String.toList_eq_nil_iff.mpr hempty), sub, hsub, hextract⟩

end Consumer
end Eds
