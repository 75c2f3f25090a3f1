import Eds.Drivers.Configuration
import Eds.Util.Gourl.Hierarchy
import Eds.Util.Gourl.Queries

/-!
# The URL of the key-pair driver

The URL is built from the configured values with all their escapes, but its path is cut at slashes
again when it has been decoded, and a host cannot hold every text.  A configuration is recovered
from its URL when the account is a host and the database one name, a slash and another.
-/

namespace Eds
namespace Drivers
namespace Snowflake
namespace Keypair

open Util Lexing

structure KeyPairUrl where
  user : List Char
  account : List Char
  database : List Char
  schema : List Char
  secretVar : List Char
  deriving DecidableEq

/-- All its errors are a `ValueError`. -/
def parseKeyPairUrl (url : List Char) : Except Gourl.Error KeyPairUrl := do
  let u ← Gourl.parse url
  let trimmed := if u.path.head? = some '/' then u.path.drop 1 else u.path
  match trimmed.splitOn '/' with
  | database :: schema :: _ => do
    let q ← u.query
    pure ⟨u.username, u.host, database, schema, q.get "secret-key".toList⟩
  | _ => .error (.value ("invalid URL path: expected /database/schema, got ".toList ++ u.path))

def account (values : Values) : String := (getRequiredStringValue "Account" values).1

def database (values : Values) : String := (getRequiredStringValue "Database" values).1

def username (values : Values) : String := (getRequiredStringValue "Username" values).1

def secret (values : Values) : String := getOptionalStringValue "Secret" "" values

def errors (values : Values) : List FieldError :=
  (getRequiredStringValue "Account" values).2.toList ++
    (getRequiredStringValue "Database" values).2.toList ++
    (getRequiredStringValue "Username" values).2.toList

def builtUrl (values : Values) : Gourl.GoUrl :=
  { Gourl.GoUrl.blank with
    scheme := "snowflake-keypair".toList
    user := some ⟨(username values).toList, [], false⟩
    host := (account values).toList
    path := '/' :: (database values).toList
    rawQuery := "secret-key=".toList ++ Gourl.queryEscape (secret values).toList }

def validate (values : Values) : Except Gourl.Error (String × List FieldError) :=
  if errors values ≠ [] then .ok ("", errors values)
  else (fun text => (String.ofList text, [])) <$> (builtUrl values).str

/-- The query is written as one pair. -/
theorem rawQuery_builtUrl (values : Values) :
    (builtUrl values).rawQuery = List.intercalate ['&']
      ([("secret-key".toList, (secret values).toList)].map Gourl.pairText) := by
  have hkey : Gourl.queryEscape "secret-key".toList = "secret-key".toList :=
    Gourl.escape_eq_self (List.all_iff_forall_prop.mp (by decide))
  have hquery : (builtUrl values).rawQuery =
      "secret-key=".toList ++ Gourl.queryEscape (secret values).toList := rfl
  have hequals : "secret-key=".toList = "secret-key".toList ++ ['='] := by decide
  rw [hquery, hequals, List.map_singleton, List.intercalate_singleton, Gourl.pairText, hkey,
    List.append_assoc]
  rfl

theorem built_builtUrl (values : Values) : Gourl.Built (builtUrl values) where
  scheme := by
    have hscheme : (builtUrl values).scheme = "snowflake-keypair".toList := rfl
    rw [hscheme]
    decide
  body := rfl
  user := fun _ => rfl
  front := Or.inr rfl
  path := Or.inr (Or.inl rfl)
  rawPath := rfl
  forced := fun h => nomatch h
  queryChars := by
    rw [rawQuery_builtUrl]
    exact Gourl.pairs_chars _
  fragment := rfl
  rawFragment := rfl

theorem query_builtUrl (values : Values) :
    ∃ q, (builtUrl values).query = .ok q ∧ q.get "secret-key".toList = (secret values).toList := by
  obtain ⟨q, hq, hkeys⟩ := Gourl.query_of_pairs (rawQuery_builtUrl values)
  refine ⟨q, hq, ?_⟩
  rw [Gourl.Values.get_eq, (hkeys _).1]
  simp

/-- The first two parts of a text are all of it when it has one slash. -/
theorem parts_iff {text : List Char} :
    (∃ name schema tail, text.splitOn '/' = name :: schema :: tail ∧ name ++ '/' :: schema = text) ↔
      text.count '/' = 1 := by
  by_cases hmem : '/' ∈ text
  · obtain ⟨name, rest, rfl, hname⟩ := List.eq_append_cons_of_mem hmem
    rw [List.splitOn_append_cons_self_of_not_mem hname, List.count_append,
      List.count_eq_zero_of_not_mem hname, List.count_cons_self, Nat.zero_add, Nat.add_eq_right]
    by_cases hrest : '/' ∈ rest
    · obtain ⟨schema, tail, rfl, hschema⟩ := List.eq_append_cons_of_mem hrest
      rw [List.splitOn_append_cons_self_of_not_mem hschema]
      refine iff_of_false (fun h => ?_) (List.count_pos_iff.mpr hrest).ne'
      obtain ⟨name', schema', tail', hparts, hjoined⟩ := h
      obtain ⟨hfirst, hparts⟩ := List.cons.inj hparts
      rw [← hfirst, ← (List.cons.inj hparts).1] at hjoined
      simp at hjoined
    · rw [List.splitOn_eq_singleton hrest]
      exact iff_of_true ⟨name, rest, [], rfl, rfl⟩ (List.count_eq_zero_of_not_mem hrest)
  · rw [List.splitOn_eq_singleton hmem, List.count_eq_zero_of_not_mem hmem]
    refine iff_of_false (fun h => ?_) (by decide)
    obtain ⟨name, schema, tail, hparts, -⟩ := h
    cases (List.cons.inj hparts).2

theorem parseKeyPairUrl_iff {values : Values} {t : List Char} (hstr : (builtUrl values).str = .ok t)
    {r : KeyPairUrl} :
    parseKeyPairUrl t = .ok r ↔
      Gourl.HostOk (account values).toList ∧ ∃ name schema tail,
        (database values).toList.splitOn '/' = name :: schema :: tail ∧
          r = ⟨(username values).toList, (account values).toList, name, schema,
            (secret values).toList⟩ := by
  obtain ⟨t', hstr', hparse⟩ := (built_builtUrl values).parse_iff
  obtain rfl : t' = t := Except.ok.inj (hstr'.symm.trans hstr)
  obtain ⟨q, hquery, hsecret⟩ := query_builtUrl values
  rw [parseKeyPairUrl, Collections.bind_eq_ok]
  constructor
  · intro h
    obtain ⟨u, hu, hr⟩ := h
    obtain ⟨rfl, hhost⟩ := (hparse u).mp hu
    refine ⟨hhost, ?_⟩
    have htrimmed : (if (Gourl.rooted (builtUrl values).path).head? = some '/' then
        (Gourl.rooted (builtUrl values).path).drop 1 else Gourl.rooted (builtUrl values).path) =
        (database values).toList := rfl
    dsimp only at hr
    rw [htrimmed] at hr
    split at hr
    · next name schema tail hparts =>
      obtain ⟨q', hq', hr⟩ := Collections.bind_eq_ok.mp hr
      obtain rfl : q = q' := Except.ok.inj (hquery.symm.trans hq')
      rw [hsecret] at hr
      exact ⟨name, schema, tail, hparts, (Except.ok.inj hr).symm⟩
    · cases hr
  · intro h
    obtain ⟨hhost, name, schema, tail, hparts, rfl⟩ := h
    refine ⟨_, (hparse _).mpr ⟨rfl, hhost⟩, ?_⟩
    have htrimmed : (if (Gourl.rooted (builtUrl values).path).head? = some '/' then
        (Gourl.rooted (builtUrl values).path).drop 1 else Gourl.rooted (builtUrl values).path) =
        (database values).toList := rfl
    dsimp only
    rw [htrimmed, hparts]
    refine Collections.bind_eq_ok.mpr ⟨q, hquery, ?_⟩
    rw [hsecret]
    rfl

/-! ## The round trip -/

/-- What was configured is read from the URL. -/
def Recovered (values : Values) (url : String) : Prop :=
  ∃ r, parseKeyPairUrl url.toList = .ok r ∧ r.user = (username values).toList ∧
    r.account = (account values).toList ∧ r.secretVar = (secret values).toList ∧
    r.database ++ '/' :: r.schema = (database values).toList

theorem keypair_recovered_iff {values : Values} {url : String} (hvalid : validate values = .ok (url, [])) :
    Recovered values url ↔
      Gourl.HostOk (account values).toList ∧ (database values).toList.count '/' = 1 := by
  have hstr : (builtUrl values).str = .ok url.toList := by
    unfold validate at hvalid
    split at hvalid
    · next herrors => exact absurd (Prod.mk.inj (Except.ok.inj hvalid)).2 herrors
    · obtain ⟨t, hstr, -⟩ := (built_builtUrl values).parse_iff
      rw [hstr] at hvalid
      rw [hstr, ← (Prod.mk.inj (Except.ok.inj hvalid)).1, String.toList_ofList]
  unfold Recovered
  simp only [parseKeyPairUrl_iff hstr]
  rw [← parts_iff]
  constructor
  · intro h
    obtain ⟨_, ⟨hhost, name, schema, tail, hparts, rfl⟩, -, -, -, hjoined⟩ := h
    exact ⟨hhost, name, schema, tail, hparts, hjoined⟩
  · intro h
    obtain ⟨hhost, name, schema, tail, hparts, hjoined⟩ := h
    exact ⟨_, ⟨hhost, name, schema, tail, hparts, rfl⟩, rfl, rfl, rfl, hjoined⟩

/-- A configuration without a secret. -/
def config (account database username : String) : Values :=
  ((Collections.Dict.empty.insert "Account" (.str account)).insert "Database"
    (.str database)).insert "Username" (.str username)

theorem keypair_recovered_iff_escaped :
    Recovered (config "org-acct" "My DB/PUBLIC" "bob@x")
      "snowflake-keypair://bob%40x@org-acct/My%20DB/PUBLIC?secret-key=" :=
  (keypair_recovered_iff (by decide +kernel)).mpr
    ⟨⟨List.all_eq_true.mp (by decide +kernel), by decide +kernel⟩, by decide +kernel⟩

/-- A database without a schema is accepted, and its URL is refused. -/
theorem not_recovered_unslashed :
    validate (config "org-acct" "MYDB" "bob") =
        .ok ("snowflake-keypair://bob@org-acct/MYDB?secret-key=", []) ∧
      parseKeyPairUrl "snowflake-keypair://bob@org-acct/MYDB?secret-key=".toList =
        .error (.value "invalid URL path: expected /database/schema, got /MYDB".toList) :=
  ⟨by decide +kernel, by decide +kernel⟩

end Keypair
end Snowflake
end Drivers
end Eds
