import Eds.Drivers.Configuration
import Eds.Drivers.S3.Flush
import Eds.Lexing.Runs
import Eds.Util.Gourl.Hierarchy
import Eds.Util.Gourl.Queries
import Mathlib.Data.List.Infix

/-!
# The URL of the S3 driver

The configuration is kept as a URL, in which the bucket is the host, or the first segment of the
path behind the host of an endpoint.  The reader knows an endpoint by its host: LocalStack or
Google.  A configuration is recovered unless the writer and the reader disagree about this
(`store_recovered_iff`).
-/

namespace Eds
namespace Drivers
namespace S3

open Util Lexing Collections

/-! ## Reading -/

inductive Provider where
  | aws
  | google
  | localstack
  deriving DecidableEq

def isLocalhost (url : List Char) : Bool :=
  decide ("localhost".toList <:+: url) || decide ("127.0.0.1".toList <:+: url) ||
    decide ("0.0.0.0".toList <:+: url)

def getCloudProvider (host : List Char) : Provider :=
  if isLocalhost host then .localstack
  else if "googleapis.com".toList <:+: host then .google
  else .aws

def addFinalSlash (s : List Char) : List Char :=
  if s = [] then [] else if s.getLast? = some '/' then s else s ++ ['/']

/-- One slash at most. -/
def trimLeadingSlash (s : List Char) : List Char := if s.head? = some '/' then s.drop 1 else s

structure BucketInfo where
  endpoint : List Char
  bucket : List Char
  keyPrefix : List Char
  deriving DecidableEq

def getBucketInfo (host path : List Char) (provider : Provider) : BucketInfo :=
  let parts := (trimLeadingSlash path).splitOn '/'
  let bucket := parts.headD []
  let keyPrefix := addFinalSlash (List.intercalate ['/'] (parts.drop 1))
  match provider with
  | .aws => ⟨[], host, addFinalSlash (trimLeadingSlash path)⟩
  | .localstack => ⟨"http://".toList ++ host, bucket, keyPrefix⟩
  | .google => ⟨"https://".toList ++ host, bucket, keyPrefix⟩

/-- The query has the last word, also with an empty text. -/
def resolveRegion (env : String → Option String) (q : Gourl.Values) : List Char :=
  let nonempty (name : String) : Option String := (env name).filter (· ≠ "")
  if q.has "region".toList then q.get "region".toList
  else
    match nonempty "AWS_REGION" with
    | some region => region.toList
    | none => ((nonempty "AWS_DEFAULT_REGION").getD "us-west-2").toList

def queryOrEnv (env : String → Option String) (q : Gourl.Values) (key : List Char)
    (envVar : String) : List Char :=
  if q.has key then q.get key else ((env envVar).getD "").toList

structure Connection where
  info : BucketInfo
  region : List Char
  accessKeyId : List Char
  secretAccessKey : List Char
  deriving DecidableEq

/-- The part of `_connect` that reads the configured values. -/
def readUrl (env : String → Option String) (url : List Char) : Except Gourl.Error Connection := do
  let u ← Gourl.parse url
  let q ← u.query
  pure
    { info := getBucketInfo u.host u.path (getCloudProvider u.host)
      region := resolveRegion env q
      accessKeyId := queryOrEnv env q "access-key-id".toList "AWS_ACCESS_KEY_ID"
      secretAccessKey := queryOrEnv env q "secret-access-key".toList "AWS_SECRET_ACCESS_KEY" }

/-! ## Writing -/

def text (name : String) (values : Values) : List Char :=
  (getOptionalStringValue name "" values).toList

def bucket (values : Values) : List Char := (getRequiredStringValue "Bucket" values).1.toList

/-- `_path_join(a, b)` for texts that are not empty -/
def joinPath (a b : List Char) : List Char := collapse (a ++ '/' :: b)

/-- The path is the bucket and the prefix, or the prefix alone. -/
def builtPath (values : Values) : List Char :=
  let path := if text "Endpoint" values ≠ [] then bucket values else []
  if text "Prefix" values ≠ [] then
    if path = [] then text "Prefix" values else joinPath path (text "Prefix" values)
  else path

def setNonempty (q : Gourl.Values) (key value : List Char) : Gourl.Values :=
  if value ≠ [] then q.set key value else q

def builtQuery (values : Values) : Gourl.Values :=
  setNonempty
    (setNonempty
      (setNonempty Dict.empty "region".toList (text "Region" values))
      "access-key-id".toList (text "Access Key ID" values))
    "secret-access-key".toList (text "Secret Access Key" values)

def builtHost (values : Values) : List Char :=
  if text "Endpoint" values ≠ [] then text "Endpoint" values else bucket values

def builtUrl (values : Values) : Gourl.GoUrl :=
  { Gourl.GoUrl.blank with
    scheme := "s3".toList
    host := builtHost values
    path := builtPath values
    rawQuery := (builtQuery values).encode }

def validateConfig (values : Values) : Except Gourl.Error (String × List FieldError) :=
  let errors := (getRequiredStringValue "Bucket" values).2.toList
  if errors ≠ [] then .ok ("", errors)
  else (fun url => (String.ofList url, [])) <$> (builtUrl values).str

/-! ## Joined paths -/

theorem head_replaceSlashes (s : List Char) : (replaceSlashes s).head? = s.head? := by
  fun_induction replaceSlashes s with
  | case1 => rfl
  | case2 => rfl
  | case3 => rfl

theorem squeeze_replaceSlashes (s : List Char) :
    squeeze '/' (replaceSlashes s) = squeeze '/' s := by
  fun_induction replaceSlashes s with
  | case1 rest ih =>
    rw [squeeze_cons_self, squeeze_dropWhile, ih, squeeze_cons_self,
      List.dropWhile_cons_of_pos (by simp), squeeze_dropWhile]
  | case2 c rest _ ih => rw [squeeze_cons, squeeze_cons, head_replaceSlashes, ih]
  | case3 => rfl

/-- A pass without effect finds a squeezed text, any other makes the text shorter. -/
theorem replaceSlashes_cases (s : List Char) :
    replaceSlashes s = s ∧ squeeze '/' s = s ∨ (replaceSlashes s).length < s.length := by
  have hle : ∀ s, (replaceSlashes s).length ≤ s.length := by
    intro s
    fun_induction replaceSlashes s with
    | case1 rest ih =>
      simp only [List.length_cons]
      omega
    | case2 c rest _ ih => exact Nat.succ_le_succ ih
    | case3 => exact Nat.le_refl 0
  fun_induction replaceSlashes s with
  | case1 rest ih =>
    have hrest := hle rest
    simp only [List.length_cons]
    omega
  | case2 c rest hsingle ih =>
    rcases ih with ⟨hsame, hsqueezed⟩ | hlt
    · refine Or.inl ⟨congrArg _ hsame, ?_⟩
      rw [squeeze_cons, if_neg, hsqueezed]
      intro hdouble
      obtain ⟨tail, rfl⟩ := List.head?_eq_some_iff.mp hdouble.2
      exact hsingle tail hdouble.1 rfl
    · exact Or.inr (Nat.succ_lt_succ hlt)
  | case3 => exact Or.inl ⟨rfl, rfl⟩

theorem collapse_eq (s : List Char) : collapse s = squeeze '/' s := by
  have hpass : ∀ n, squeeze '/' (Nat.repeat replaceSlashes n s) = squeeze '/' s ∧
      (Nat.repeat replaceSlashes n s = squeeze '/' s ∨
        (Nat.repeat replaceSlashes n s).length + n ≤ s.length) := by
    intro n
    induction n with
    | zero => exact ⟨rfl, Or.inr (Nat.le_refl _)⟩
    | succ n ih =>
      obtain ⟨hsame, hprogress⟩ := ih
      rw [Nat.repeat, squeeze_replaceSlashes]
      refine ⟨hsame, ?_⟩
      rcases replaceSlashes_cases (Nat.repeat replaceSlashes n s) with ⟨hfixed, hdone⟩ | hlt
      · exact Or.inl (hfixed.trans (hdone.symm.trans hsame))
      · rcases hprogress with hdone | hle
        · -- What is squeezed does not become shorter.
          have hle := @length_squeeze_le _ _ '/' (replaceSlashes (Nat.repeat replaceSlashes n s))
          rw [squeeze_replaceSlashes, hsame, ← hdone] at hle
          omega
        · exact Or.inr (by omega)
  obtain ⟨hsame, hdone | hle⟩ := hpass s.length
  · exact hdone
  · have hnil : Nat.repeat replaceSlashes s.length s = [] := List.eq_nil_of_length_eq_zero (by omega)
    rw [hnil] at hsame
    exact hnil.trans hsame

/-- Behind a bucket, a prefix is joined without its leading slashes. -/
theorem joinPath_eq {a : List Char} (ha : '/' ∉ a) (b : List Char) :
    joinPath a b = a ++ '/' :: squeeze '/' (b.dropWhile (· = '/')) := by
  rw [joinPath, collapse_eq, squeeze_append_of_notMem ha, squeeze_cons_self]

theorem trim_addFinalSlash (s : List Char) : trim '/' (addFinalSlash s) = trim '/' s := by
  unfold addFinalSlash
  split
  · next h => rw [h]
  · split
    · rfl
    · exact trim_concat s

theorem trim_trimLeadingSlash (s : List Char) : trim '/' (trimLeadingSlash s) = trim '/' s := by
  unfold trimLeadingSlash
  split
  · next h =>
    obtain ⟨tail, rfl⟩ := List.head?_eq_some_iff.mp h
    exact (trim_cons tail).symm
  · rfl

/-- The first segment of a path and what stands behind it. -/
theorem exists_segment (s : List Char) :
    ∃ first rest, (s.splitOn '/').headD [] = first ∧
      List.intercalate ['/'] ((s.splitOn '/').drop 1) = rest ∧ '/' ∉ first ∧
      (s = first ++ '/' :: rest ∨ s = first ∧ rest = []) := by
  by_cases hmem : '/' ∈ s
  · obtain ⟨first, rest, rfl, hfirst⟩ := List.eq_append_cons_of_mem hmem
    rw [List.splitOn_append_cons_self_of_not_mem hfirst]
    exact ⟨first, rest, rfl, List.intercalate_splitOn '/', hfirst, Or.inl rfl⟩
  · rw [List.splitOn_eq_singleton hmem]
    exact ⟨s, [], rfl, rfl, hmem, Or.inr ⟨rfl, rfl⟩⟩

/-! ## The query -/

theorem all_setNonempty (q : Gourl.Values) (key value key' : List Char) :
    (setNonempty q key value).all key' =
      if value ≠ [] ∧ key' = key then [value] else q.all key' := by
  unfold setNonempty
  by_cases hvalue : value ≠ []
  · rw [if_pos hvalue, Gourl.Values.all_set]
    simp only [hvalue, ne_eq, not_false_eq_true, true_and]
  · rw [if_neg hvalue, if_neg fun h => hvalue h.1]

/-- A value that is given is found in the query. -/
def Given (q : Gourl.Values) (key value : List Char) : Prop :=
  value ≠ [] → q.has key = true ∧ q.get key = value

theorem exists_query (values : Values) :
    ∃ q, (builtUrl values).query = .ok q ∧ Given q "region".toList (text "Region" values) ∧
      Given q "access-key-id".toList (text "Access Key ID" values) ∧
      Given q "secret-access-key".toList (text "Secret Access Key" values) := by
  obtain ⟨q, hq, hkeys⟩ := Gourl.query_encode (u := builtUrl values) rfl
  have hgiven : ∀ key value, (value ≠ [] → (builtQuery values).all key = [value]) →
      Given q key value := by
    intro key value hall hvalue
    obtain ⟨hvalues, hhas⟩ := hkeys key
    rw [hall hvalue] at hvalues hhas
    refine ⟨hhas.mpr (List.cons_ne_nil _ _), ?_⟩
    rw [Gourl.Values.get_eq, hvalues]
    rfl
  refine ⟨q, hq, hgiven _ _ fun h => ?_, hgiven _ _ fun h => ?_, hgiven _ _ fun h => ?_⟩
  · rw [builtQuery, all_setNonempty, if_neg fun hkey => absurd hkey.2 (by decide), all_setNonempty,
      if_neg fun hkey => absurd hkey.2 (by decide), all_setNonempty, if_pos ⟨h, rfl⟩]
  · rw [builtQuery, all_setNonempty, if_neg fun hkey => absurd hkey.2 (by decide), all_setNonempty,
      if_pos ⟨h, rfl⟩]
  · rw [builtQuery, all_setNonempty, if_pos ⟨h, rfl⟩]

theorem resolveRegion_given {q : Gourl.Values} {region : List Char} {env : String → Option String}
    (hgiven : Given q "region".toList region) (h : region ≠ []) : resolveRegion env q = region := by
  obtain ⟨hhas, hget⟩ := hgiven h
  rw [resolveRegion, if_pos hhas, hget]

theorem queryOrEnv_given {q : Gourl.Values} {key value : List Char} {env : String → Option String}
    {envVar : String} (hgiven : Given q key value) (h : value ≠ []) :
    queryOrEnv env q key envVar = value := by
  obtain ⟨hhas, hget⟩ := hgiven h
  rw [queryOrEnv, if_pos hhas, hget]

/-! ## The round trip -/

/-- The bucket, the prefix up to slashes at its ends, and the endpoint that was given. -/
structure Located (values : Values) (info : BucketInfo) : Prop where
  bucket : info.bucket = bucket values
  keyPrefix : trim '/' info.keyPrefix = trim '/' (text "Prefix" values)
  endpoint : text "Endpoint" values ≠ [] →
    info.endpoint = "http://".toList ++ text "Endpoint" values ∨
      info.endpoint = "https://".toList ++ text "Endpoint" values

/-- What was configured is read from the URL, whatever the environment has for what was not. -/
def Recovered (values : Values) (url : String) : Prop :=
  ∀ env, ∃ c, readUrl env url.toList = .ok c ∧ Located values c.info ∧
    (text "Region" values ≠ [] → c.region = text "Region" values) ∧
    (text "Access Key ID" values ≠ [] → c.accessKeyId = text "Access Key ID" values) ∧
    (text "Secret Access Key" values ≠ [] → c.secretAccessKey = text "Secret Access Key" values)

theorem built_builtUrl {values : Values} (hhost : builtHost values ≠ []) :
    Gourl.Built (builtUrl values) where
  scheme := by
    have hscheme : (builtUrl values).scheme = "s3".toList := rfl
    rw [hscheme]
    decide
  body := rfl
  user := trivial
  front := Or.inl hhost
  path := Or.inr (Or.inr hhost)
  rawPath := rfl
  forced := fun h => nomatch h
  queryChars := by
    have hquery : (builtUrl values).rawQuery = (builtQuery values).encode := rfl
    rw [hquery, Gourl.encode_eq]
    exact Gourl.pairs_chars _
  fragment := rfl
  rawFragment := rfl

theorem located_iff {values : Values} {url : String}
    (hstr : (builtUrl values).str = .ok url.toList) (hhost : builtHost values ≠ []) :
    Recovered values url ↔ Gourl.HostOk (builtHost values) ∧
      Located values (getBucketInfo (builtHost values) (Gourl.rooted (builtPath values))
        (getCloudProvider (builtHost values))) := by
  obtain ⟨t, hstr', hparse⟩ := (built_builtUrl hhost).parse_iff
  obtain rfl : t = url.toList := Except.ok.inj (hstr'.symm.trans hstr)
  obtain ⟨q, hquery, hregion, haccess, hsecret⟩ := exists_query values
  constructor
  · intro h
    obtain ⟨c, hread, hlocated, -⟩ := h fun _ => none
    obtain ⟨u, hu, hc⟩ := bind_eq_ok.mp hread
    obtain ⟨rfl, hok⟩ := (hparse u).mp hu
    obtain ⟨q', -, hc⟩ := bind_eq_ok.mp hc
    rw [← Except.ok.inj hc] at hlocated
    exact ⟨hok, hlocated⟩
  · intro h env
    obtain ⟨hok, hlocated⟩ := h
    have hu := (hparse _).mpr ⟨rfl, hok⟩
    refine ⟨_, bind_eq_ok.mpr ⟨_, hu, bind_eq_ok.mpr ⟨q, hquery, rfl⟩⟩, hlocated,
      resolveRegion_given hregion, queryOrEnv_given haccess, queryOrEnv_given hsecret⟩

/-! ## Where the bucket is -/

theorem trim_rooted (path : List Char) : trim '/' (Gourl.rooted path) = trim '/' path := by
  unfold Gourl.rooted
  split
  · exact trim_cons path
  · rfl

theorem getBucketInfo_segment {host path : List Char} {provider : Provider} (h : provider ≠ .aws) :
    getBucketInfo host path provider =
      ⟨(if provider = .localstack then "http://".toList else "https://".toList) ++ host,
        ((trimLeadingSlash path).splitOn '/').headD [],
        addFinalSlash (List.intercalate ['/'] (((trimLeadingSlash path).splitOn '/').drop 1))⟩ := by
  cases provider with
  | aws => exact absurd rfl h
  | google => rfl
  | localstack => rfl

variable {values : Values}

theorem builtPath_of_no_endpoint (h : text "Endpoint" values = []) :
    builtPath values = text "Prefix" values := by
  unfold builtPath
  rw [if_neg (not_not.mpr h)]
  dsimp only
  rw [if_pos rfl]
  split
  · rfl
  · next hprefix => exact (not_not.mp hprefix).symm

/-- Without an endpoint the bucket is the host, and is read as one on AWS only. -/
theorem located_host_iff (h : text "Endpoint" values = []) (hbucket : bucket values ≠ []) :
    Located values (getBucketInfo (bucket values) (Gourl.rooted (builtPath values))
      (getCloudProvider (bucket values))) ↔ getCloudProvider (bucket values) = .aws := by
  rw [builtPath_of_no_endpoint h]
  have htrim : trim '/' (trimLeadingSlash (Gourl.rooted (text "Prefix" values))) =
      trim '/' (text "Prefix" values) := (trim_trimLeadingSlash _).trans (trim_rooted _)
  constructor
  · intro hlocated
    by_contra hprovider
    rw [getBucketInfo_segment hprovider] at hlocated
    obtain ⟨first, rest, hfirst, hrest, hslash, hcut⟩ :=
      exists_segment (trimLeadingSlash (Gourl.rooted (text "Prefix" values)))
    rw [hfirst, hrest] at hlocated
    have hkey := hlocated.keyPrefix
    dsimp only at hkey
    rw [trim_addFinalSlash, ← htrim] at hkey
    -- The prefix that is read lacks the characters of the first segment.
    have hfilter := congrArg (List.filter (· ≠ '/')) hkey
    rw [filter_trim, filter_trim] at hfilter
    have hkeep : first.filter (· ≠ '/') = first :=
      List.filter_eq_self.mpr fun c hc => decide_eq_true fun h' => hslash (h' ▸ hc)
    have hnil : first = [] := by
      rcases hcut with hcut | ⟨hcut, hrest'⟩
      · rw [hcut, List.filter_append, hkeep, List.filter_cons_of_neg (by simp)] at hfilter
        exact List.self_eq_append_left.mp hfilter
      · rw [hcut, hkeep, hrest'] at hfilter
        exact hfilter.symm
    exact hbucket (hlocated.bucket.symm.trans hnil)
  · intro hprovider
    rw [hprovider]
    exact ⟨rfl, (trim_addFinalSlash _).trans htrim, fun hne => absurd h hne⟩

/-- With an endpoint the bucket is a segment of the path. -/
theorem located_segment_iff (h : text "Endpoint" values ≠ []) (hbucket : bucket values ≠ [])
    (hslash : '/' ∉ bucket values) :
    Located values (getBucketInfo (text "Endpoint" values) (Gourl.rooted (builtPath values))
      (getCloudProvider (text "Endpoint" values))) ↔
        getCloudProvider (text "Endpoint" values) ≠ .aws ∧
          ¬ ['/', '/'] <:+: trim '/' (text "Prefix" values) := by
  have hpath : ∃ rest, trim '/' rest = squeeze '/' (trim '/' (text "Prefix" values)) ∧
      (builtPath values = bucket values ++ '/' :: rest ∨
        builtPath values = bucket values ∧ rest = []) := by
    unfold builtPath
    rw [if_pos h]
    dsimp only
    by_cases hprefix : text "Prefix" values ≠ []
    · rw [if_pos hprefix, if_neg hbucket, joinPath_eq hslash]
      refine ⟨_, ?_, Or.inl rfl⟩
      rw [← squeeze_trim, trim_dropWhile]
    · rw [if_neg hprefix, not_not.mp hprefix]
      exact ⟨[], rfl, Or.inr ⟨rfl, rfl⟩⟩
  obtain ⟨rest, htrim, hpath⟩ := hpath
  have hread : (((builtPath values).splitOn '/').headD [] = bucket values ∧
      List.intercalate ['/'] (((builtPath values).splitOn '/').drop 1) = rest) ∧
      trimLeadingSlash (Gourl.rooted (builtPath values)) = builtPath values := by
    obtain ⟨c, tail, hcons⟩ := List.exists_cons_of_ne_nil hbucket
    have hc : c ≠ '/' := fun hc => hslash (by rw [hcons, hc]; exact List.mem_cons_self)
    have hrooted : ∀ s, Gourl.rooted (c :: s) = '/' :: c :: s := fun s => by
      rw [Gourl.rooted, if_pos ⟨List.cons_ne_nil c s, by simpa using hc⟩]
    rcases hpath with hpath | ⟨hpath, rfl⟩
    · refine ⟨?_, ?_⟩
      · rw [hpath, List.splitOn_append_cons_self_of_not_mem hslash]
        exact ⟨rfl, List.intercalate_splitOn '/'⟩
      · rw [hpath, hcons, List.cons_append, hrooted]
        rfl
    · refine ⟨?_, ?_⟩
      · rw [hpath, List.splitOn_eq_singleton hslash]
        exact ⟨rfl, rfl⟩
      · rw [hpath, hcons, hrooted]
        rfl
  obtain ⟨⟨hfirst, hrest⟩, htrimmed⟩ := hread
  constructor
  · intro hlocated
    have hprovider : getCloudProvider (text "Endpoint" values) ≠ .aws := by
      intro haws
      rw [haws] at hlocated
      rcases hlocated.endpoint h with hendpoint | hendpoint
      · cases hendpoint
      · cases hendpoint
    refine ⟨hprovider, ?_⟩
    rw [getBucketInfo_segment hprovider, htrimmed, hfirst, hrest] at hlocated
    have hkey := hlocated.keyPrefix
    dsimp only at hkey
    rw [trim_addFinalSlash, htrim] at hkey
    exact squeeze_eq_self_iff.mp hkey
  · intro hgood
    obtain ⟨hprovider, hsingle⟩ := hgood
    rw [getBucketInfo_segment hprovider, htrimmed, hfirst, hrest]
    refine ⟨rfl, ?_, fun _ => ?_⟩
    · dsimp only
      rw [trim_addFinalSlash, htrim]
      exact squeeze_eq_self_iff.mpr hsingle
    · dsimp only
      split
      · exact Or.inl rfl
      · exact Or.inr rfl

/-- The configuration is recovered if the host is one, and is read as what it was written as. -/
theorem store_recovered_iff {url : String} (hvalid : validateConfig values = .ok (url, []))
    (hbucket : bucket values ≠ []) (hslash : '/' ∉ bucket values) :
    Recovered values url ↔
      if text "Endpoint" values = [] then
        Gourl.HostOk (bucket values) ∧ getCloudProvider (bucket values) = .aws
      else
        Gourl.HostOk (text "Endpoint" values) ∧ getCloudProvider (text "Endpoint" values) ≠ .aws ∧
          ¬ ['/', '/'] <:+: trim '/' (text "Prefix" values) := by
  have hhost : builtHost values ≠ [] := by
    unfold builtHost
    split
    · next h => exact h
    · exact hbucket
  have hstr : (builtUrl values).str = .ok url.toList := by
    unfold validateConfig at hvalid
    dsimp only at hvalid
    split at hvalid
    · next herrors => exact absurd (Prod.mk.inj (Except.ok.inj hvalid)).2 herrors
    · obtain ⟨t, hstr, -⟩ := (built_builtUrl hhost).parse_iff
      rw [hstr] at hvalid
      rw [hstr, ← (Prod.mk.inj (Except.ok.inj hvalid)).1, String.toList_ofList]
  rw [located_iff hstr hhost]
  by_cases hendpoint : text "Endpoint" values = []
  · have hbuilt : builtHost values = bucket values := if_neg (not_not.mpr hendpoint)
    rw [if_pos hendpoint, hbuilt, located_host_iff hendpoint hbucket]
  · have hbuilt : builtHost values = text "Endpoint" values := if_pos hendpoint
    rw [if_neg hendpoint, hbuilt, located_segment_iff hendpoint hbucket hslash]

/-- A bucket, a prefix and an endpoint. -/
def config (bucketName keyPrefix endpoint : String) : Values :=
  ((Dict.empty.insert "Bucket" (.str bucketName)).insert "Prefix" (.str keyPrefix)).insert
    "Endpoint" (.str endpoint)

theorem store_recovered_iff_google :
    Recovered (config "data" "/a b/" "storage.googleapis.com")
      "s3://storage.googleapis.com/data/a%20b/" := by
  refine (store_recovered_iff (by decide +kernel) (by decide) (by decide)).mpr ?_
  rw [if_neg (by decide)]
  exact ⟨⟨List.all_eq_true.mp (by decide +kernel), by decide +kernel⟩, by decide +kernel,
    by decide +kernel⟩

/-- The host of another endpoint is taken for the bucket. -/
theorem not_recovered_compatible :
    validateConfig (config "data" "" "minio.example.com") =
        .ok ("s3://minio.example.com/data", []) ∧
      readUrl (fun _ => none) "s3://minio.example.com/data".toList =
        .ok ⟨⟨[], "minio.example.com".toList, "data/".toList⟩, "us-west-2".toList, [], []⟩ ∧
      ¬ Recovered (config "data" "" "minio.example.com") "s3://minio.example.com/data" := by
  have hread : readUrl (fun _ => none) "s3://minio.example.com/data".toList =
      .ok ⟨⟨[], "minio.example.com".toList, "data/".toList⟩, "us-west-2".toList, [], []⟩ := by
    decide +kernel
  refine ⟨by decide +kernel, hread, fun hrecovered => ?_⟩
  obtain ⟨c, hc, hlocated, -⟩ := hrecovered fun _ => none
  rw [hread] at hc
  have hbucket := hlocated.bucket
  rw [← Except.ok.inj hc] at hbucket
  exact absurd hbucket (by decide)

end S3
end Drivers
end Eds
