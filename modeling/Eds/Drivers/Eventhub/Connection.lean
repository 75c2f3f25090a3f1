import Eds.Drivers.Configuration
import Eds.Util.Gourl.Hierarchy

/-!
# The connection string of an event hub

The configured string has the form of a URL behind `Endpoint=`.  It is kept as a URL, and the URL
is read and printed under the scheme `sb` to connect.  What the key stands in, the path and the
query, is printed as it was read; in the host the digits of escapes become capital letters.
-/

namespace Eds
namespace Drivers
namespace Eventhub

open Lexing Util

/-- `val[i + 3:]` for `i = val.find("://")` -/
def afterScheme : List Char → Option (List Char)
  | ':' :: '/' :: '/' :: rest => some rest
  | _ :: rest => afterScheme rest
  | [] => none

def endpoint : List Char := "Endpoint=".toList

def validateConfig (values : Values) : String × List FieldError :=
  match getRequiredStringValue "Connection String" values with
  | (_, some error) => ("", [error])
  | (val, none) =>
    if ¬ endpoint <+: val.toList then
      ("", [⟨"Connection String", "expected to start with the prefix Endpoint="⟩])
    else
      match afterScheme val.toList with
      | none => ("", [⟨"Connection String", "expected a url scheme after Endpoint= prefix"⟩])
      | some rest => ("eventhub://" ++ String.ofList rest, [])

/-- Both are a `ValueError`; the first is worded "unable to parse url: " and its cause. -/
inductive ConnectionError where
  | unparsed (cause : Gourl.Error)
  | unprinted (cause : Gourl.Error)
  deriving DecidableEq

def parseConnectionString (url : List Char) : Except ConnectionError (List Char) :=
  match Gourl.parse url with
  | .error e => .error (.unparsed e)
  | .ok u =>
    match { u with scheme := "sb".toList }.str with
    | .error e => .error (.unprinted e)
    | .ok text => .ok (endpoint ++ text)

theorem afterScheme_append {front : List Char} (h : ':' ∉ front) (rest : List Char) :
    afterScheme (front ++ ':' :: '/' :: '/' :: rest) = some rest := by
  induction front with
  | nil => rfl
  | cons c front ih =>
    simp only [List.mem_cons, not_or] at h
    rw [List.cons_append, afterScheme]
    · exact ih h.2
    · intro rest' hc
      exact absurd hc.symm h.1

/-! ## The host -/

def inHost (c : Char) : Bool := c ≠ '/' && c ≠ '?'

/-- The digits of the escapes in the host are in upper case. -/
def upperHost (rest : List Char) : List Char :=
  Gourl.upperEscapes (rest.takeWhile inHost) ++ rest.dropWhile inHost

theorem split_of_pieces {v : Gourl.GoUrl} {a q rest : List Char} (h : Gourl.Pieces v a q rest) :
    rest.takeWhile inHost = a ∧ rest.dropWhile inHost = q ++ v.queryText := by
  have hall : ∀ c ∈ a, inHost c = true := by
    intro c hc
    have hslash : c ≠ '/' := fun h' => h.unslashed (h' ▸ hc)
    have hmark : c ≠ '?' := fun h' => h.unmarked (List.mem_append_left q (h' ▸ hc))
    simp [inHost, hslash, hmark]
  have hstop : q ++ v.queryText = [] ∨
      ∃ c tail, q ++ v.queryText = c :: tail ∧ inHost c = false := by
    rcases h.path with hq | hq
    · rw [hq, List.nil_append]
      cases hquery : v.queryText with
      | nil => exact Or.inl rfl
      | cons c tail =>
        have hhead := Gourl.queryText_head (u := v) (by rw [hquery]; exact List.cons_ne_nil c tail)
        rw [hquery] at hhead
        refine Or.inr ⟨c, tail, rfl, ?_⟩
        rw [Option.some.inj hhead]
        decide
    · obtain ⟨tail, rfl⟩ := List.head?_eq_some_iff.mp hq
      exact Or.inr ⟨'/', _, rfl, by decide⟩
  rw [h.text, List.takeWhile_append_of_pos hall, List.dropWhile_append_of_pos hall]
  rcases hstop with hnil | ⟨c, tail, htail, hc⟩
  · rw [hnil]
    simp
  · rw [htail, List.takeWhile_cons, List.dropWhile_cons, hc]
    simp

/-! ## A configured connection string -/

structure Configured (values : Values) (scheme rest : List Char) : Prop where
  value : values.get? "Connection String" =
    some (.str (String.ofList (endpoint ++ scheme ++ "://".toList ++ rest)))
  scheme : ':' ∉ scheme
  printable : ∀ c ∈ rest, ' ' ≤ c ∧ c ≤ '~' ∧ c ≠ '#'
  first : ∃ c, rest.head? = some c ∧ (Gourl.isLetter c || Gourl.isDigit c) = true
  unmasked : '@' ∉ rest.takeWhile (· ≠ '/')

variable {values : Values} {scheme rest : List Char}

theorem Configured.validateConfig (h : Configured values scheme rest) :
    validateConfig values = ("eventhub://" ++ String.ofList rest, []) := by
  have hafter : afterScheme (endpoint ++ scheme ++ "://".toList ++ rest) = some rest := by
    rw [List.append_assoc]
    refine afterScheme_append ?_ rest
    rw [List.mem_append, not_or]
    exact ⟨by decide, h.scheme⟩
  have hprefix : endpoint <+: endpoint ++ scheme ++ "://".toList ++ rest := by
    rw [List.append_assoc, List.append_assoc]
    exact List.prefix_append _ _
  have hstring : getRequiredStringValue "Connection String" values =
      (String.ofList (endpoint ++ scheme ++ "://".toList ++ rest), none) := by
    rw [getRequiredStringValue, h.value]
  rw [Eventhub.validateConfig, hstring]
  dsimp only
  rw [String.toList_ofList, if_neg (not_not.mpr hprefix)]
  simp only [hafter]

theorem Configured.ascii (h : Configured values scheme rest) :
    ∀ c ∈ rest, c.toNat < 128 ∧ c ≠ '#' ∧ Gourl.isControl c = false := by
  intro c hc
  obtain ⟨hlow, hhigh, hhash⟩ := h.printable c hc
  have hlow' : 32 ≤ c.toNat := hlow
  have hhigh' : c.toNat ≤ 126 := hhigh
  refine ⟨by omega, hhash, ?_⟩
  simp only [Gourl.isControl, Bool.or_eq_false_iff, decide_eq_false_iff_not, beq_eq_false_iff_ne]
  omega

/-- The string that is used to connect is the configured one, up to the case of the escapes in
its host. -/
theorem Configured.connection (h : Configured values scheme rest) {u : Gourl.GoUrl}
    (hparse : Gourl.parse ("eventhub".toList ++ "://".toList ++ rest) = .ok u) :
    { u with scheme := "sb".toList }.str = .ok ("sb://".toList ++ upperHost rest) := by
  obtain ⟨v, a, q, hpieces⟩ := Gourl.exists_pieces rest
  have hhash : '#' ∉ rest := fun hmem => (h.ascii _ hmem).2.1 rfl
  have hcontrol : rest.any Gourl.isControl = false := List.any_eq_false.mpr fun c hc => by
    rw [(h.ascii c hc).2.2]
    exact Bool.false_ne_true
  have hsub : ∀ c ∈ a, c ∈ rest := fun c hc => by
    rw [hpieces.text]
    exact List.mem_append_left _ hc
  have hat : '@' ∉ a := by
    intro hmem
    have hall : ∀ c ∈ a, decide (c ≠ '/') = true := fun c hc =>
      decide_eq_true fun hslash => hpieces.unslashed (hslash ▸ hc)
    have hmasked := h.unmasked
    rw [hpieces.text, List.takeWhile_append_of_pos hall, List.mem_append, not_or] at hmasked
    exact hmasked.1 hmem
  rw [List.append_assoc] at hparse
  have hread := (Gourl.parse_pieces (by decide) hpieces hhash hcontrol).symm.trans hparse
  obtain ⟨⟨user, host⟩, hauthority, hset⟩ := Collections.bind_eq_ok.mp hread
  -- Without an `@` the authority is a host.
  have hhost : user = none ∧ Gourl.parseHost a = .ok host := by
    rw [Gourl.parseAuthority, rpartition_of_notMem hat] at hauthority
    obtain ⟨host', hhost, hpair⟩ := Collections.bind_eq_ok.mp hauthority
    obtain ⟨rfl, rfl⟩ := Prod.mk.inj (Except.ok.inj hpair)
    exact ⟨rfl, hhost⟩
  obtain ⟨rfl, hhost⟩ := hhost
  have hprinted : Gourl.escape host .host = Gourl.upperEscapes a :=
    Gourl.escape_host_of_unescape (Gourl.parseHost_iff.mp hhost).2 fun c hc =>
      (h.ascii c (hsub c hc)).1
  obtain ⟨hsplit, htail⟩ := split_of_pieces hpieces
  have hne : host ≠ [] := by
    rintro rfl
    have ha := Gourl.unescape_eq_nil (Gourl.parseHost_iff.mp hhost).2
    obtain ⟨c, hc, hletter⟩ := h.first
    obtain ⟨tail, rfl⟩ := List.head?_eq_some_iff.mp hc
    rw [ha, List.takeWhile_cons] at hsplit
    split at hsplit
    · cases hsplit
    · next hstop =>
      simp only [inHost, Bool.and_eq_true, decide_eq_true_iff, not_and_or, not_not] at hstop
      rcases hstop with rfl | rfl
      · exact absurd hletter (by decide)
      · exact absurd hletter (by decide)
  obtain ⟨path, hpath, rfl⟩ := Gourl.setPath_iff.mp hset
  have hset' : Gourl.setPath { Gourl.GoUrl.blank with
      scheme := "sb".toList, user := none, host := host, forceQuery := v.forceQuery,
      rawQuery := v.rawQuery } q = .ok _ := Gourl.setPath_iff.mpr ⟨path, hpath, rfl⟩
  have hprintable := hpieces.printable hhash hcontrol hauthority hset' (by decide)
  refine hprintable.str.trans (congrArg Except.ok ?_)
  rw [upperHost, hsplit, htail, ← hprinted]
  simp [Gourl.GoUrl.schemeText, Gourl.bodyText, Gourl.GoUrl.authority, Gourl.fragmentText,
    Gourl.GoUrl.queryText, Gourl.GoUrl.blank, hne]

theorem parseConnectionString_eq {url : String} {text : List Char}
    (h : Configured values scheme rest) (hvalid : validateConfig values = (url, []))
    (hparse : parseConnectionString url.toList = .ok text) :
    text = endpoint ++ "sb://".toList ++ upperHost rest ∧
      (text = endpoint ++ "sb://".toList ++ rest ↔
        Gourl.upperEscapes (rest.takeWhile inHost) = rest.takeWhile inHost) := by
  have hurl : url.toList = "eventhub".toList ++ "://".toList ++ rest := by
    rw [h.validateConfig] at hvalid
    rw [← (Prod.mk.inj hvalid).1]
    simp
  have htext : text = endpoint ++ "sb://".toList ++ upperHost rest := by
    rw [hurl] at hparse
    unfold parseConnectionString at hparse
    cases hread : Gourl.parse ("eventhub".toList ++ "://".toList ++ rest) with
    | error e =>
      rw [hread] at hparse
      cases hparse
    | ok u =>
      rw [hread] at hparse
      dsimp only at hparse
      rw [h.connection hread] at hparse
      rw [← Except.ok.inj hparse, List.append_assoc]
  refine ⟨htext, ?_⟩
  have hrest : rest.takeWhile inHost ++ rest.dropWhile inHost = rest :=
    List.takeWhile_append_dropWhile
  rw [htext, List.append_cancel_left_eq, upperHost]
  constructor
  · intro hsame
    exact List.append_cancel_right (hsame.trans hrest.symm)
  · intro hupper
    rw [hupper, hrest]

/-- The key is recovered, with the characters that a URL would escape. -/
theorem parseConnectionString_key :
    "Endpoint=sb://x/;SharedAccessKey=a/b+c%2f?=".toList =
        endpoint ++ "sb://".toList ++ upperHost "x/;SharedAccessKey=a/b+c%2f?=".toList ∧
      ("Endpoint=sb://x/;SharedAccessKey=a/b+c%2f?=".toList =
          endpoint ++ "sb://".toList ++ "x/;SharedAccessKey=a/b+c%2f?=".toList ↔
        Gourl.upperEscapes ("x/;SharedAccessKey=a/b+c%2f?=".toList.takeWhile inHost) =
          "x/;SharedAccessKey=a/b+c%2f?=".toList.takeWhile inHost) := by
  have hvalues : Configured (Collections.Dict.empty.insert "Connection String"
      (.str "Endpoint=sb://x/;SharedAccessKey=a/b+c%2f?=")) "sb".toList
      "x/;SharedAccessKey=a/b+c%2f?=".toList :=
    ⟨rfl, by decide, List.all_iff_forall_prop.mp (by decide), ⟨'x', rfl, rfl⟩, by decide⟩
  have hvalid : validateConfig (Collections.Dict.empty.insert "Connection String"
      (.str "Endpoint=sb://x/;SharedAccessKey=a/b+c%2f?=")) =
        ("eventhub://x/;SharedAccessKey=a/b+c%2f?=", []) := by decide +kernel
  exact parseConnectionString_eq hvalues hvalid (by decide +kernel)

/-- A lower-case escape in the host is not kept. -/
theorem parseConnectionString_host :
    ¬ ∀ (values : Values) (scheme rest : List Char) (url : String) (text : List Char),
      Configured values scheme rest → validateConfig values = (url, []) →
        parseConnectionString url.toList = .ok text →
          text = endpoint ++ "sb://".toList ++ rest := by
  intro hall
  have htext := hall (Collections.Dict.empty.insert "Connection String" (.str "Endpoint=sb://a%c3%a9/"))
    "sb".toList "a%c3%a9/".toList "eventhub://a%c3%a9/" "Endpoint=sb://a%C3%A9/".toList
    ⟨rfl, by decide, List.all_iff_forall_prop.mp (by decide), ⟨'a', rfl, rfl⟩, by decide⟩
    (by decide +kernel) (by decide +kernel)
  exact absurd htext (by decide)

end Eventhub
end Drivers
end Eds
