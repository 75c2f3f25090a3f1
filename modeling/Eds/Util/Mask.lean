import Eds.Util.Urls
import Mathlib.Algebra.BigOperators.Group.List.Basic
import Mathlib.Data.Char
import Mathlib.Data.List.Lex

/-!
# Masked URLs

`mask` keeps the first half of a text, and `maskUrl` masks the parts of a URL that can be
secret.  The host and the keys of the query stand as they are, and the fragment is dropped.
The lemmas on lengths say that more of a query gives a longer text.
-/

namespace Eds
namespace Util

open Collections Lexing Urls

def mask (s : List Char) : List Char :=
  let keep := s.length / 2
  s.take keep ++ List.replicate (s.length - keep) '*'

/-- A password is masked if a colon says that there is one. -/
def maskNetloc (netloc : List Char) : List Char :=
  let (userinfo, found, host) := rpartition '@' netloc
  if found then
    let (user, colon, pw) := partition ':' userinfo
    mask (unquote user) ++ (if colon then ':' :: mask (unquote pw) else []) ++ '@' :: host
  else host

def maskPath (p : List Char) : List Char :=
  if p = ['/'] ∨ p = [] then []
  else '/' :: (match p with
    | '/' :: c :: rest => mask (c :: rest)
    | _ => [])

def queryPairs (query : List Char) : List (List Char) :=
  (parseQs query).items.map fun entry =>
    entry.1 ++ '=' :: mask (List.intercalate [','] entry.2)

/-- The sorted lines of the query, if there are any. -/
def maskQuery (query : List Char) : List Char :=
  let pairs := (queryPairs query).mergeSort fun a b => decide (a ≤ b)
  if pairs = [] then [] else '?' :: List.intercalate ['&'] pairs

def maskParts (sp : SplitResult) : List Char :=
  sp.scheme ++ [':', '/', '/'] ++ maskNetloc sp.netloc ++ maskPath sp.path ++ maskQuery sp.query

def maskUrl (url : String) : String := String.ofList (maskParts (urlsplit url.toList))

/-! ## Masks -/

@[simp] theorem length_mask (s : List Char) : (mask s).length = s.length := by
  simp only [mask, List.length_append, List.length_take, List.length_replicate]
  omega

/-- The two texts look the same through a mask. -/
def Alike (s t : List Char) : Prop :=
  s.length = t.length ∧ s.take (s.length / 2) = t.take (s.length / 2)

instance (s t : List Char) : Decidable (Alike s t) :=
  inferInstanceAs (Decidable (s.length = t.length ∧ _))

theorem Alike.mask {s t : List Char} (h : Alike s t) : mask s = mask t := by
  rw [Util.mask, Util.mask, ← h.1, h.2]

theorem mask_eq_mask {s t : List Char} : mask s = mask t ↔ Alike s t := by
  refine ⟨fun h => ?_, Alike.mask⟩
  have hlength : s.length = t.length := by
    have hmasked := congrArg List.length h
    rwa [length_mask, length_mask] at hmasked
  have hkept : ∀ u : List Char, (mask u).take (u.length / 2) = u.take (u.length / 2) := by
    intro u
    have htake : (u.take (u.length / 2)).length = u.length / 2 := by
      rw [List.length_take]
      omega
    exact List.take_left' htake
  refine ⟨hlength, ?_⟩
  have hhalf := hkept t
  rw [← hlength] at hhalf
  rw [← hkept s, h, hhalf]

/-- A common front makes the two texts no less alike. -/
theorem Alike.append_left {s t : List Char} (h : Alike s t) (front : List Char) :
    Alike (front ++ s) (front ++ t) := by
  refine ⟨by simp only [List.length_append, h.1], ?_⟩
  rw [List.take_append, List.take_append]
  refine congrArg _ ?_
  have hle : (front ++ s).length / 2 - front.length ≤ s.length / 2 := by
    rw [List.length_append]
    omega
  rw [← Nat.min_eq_left hle, ← List.take_take, ← List.take_take, h.2]

/-! ## The length of a query -/

/-- What the values of a key and the separators around them add to the text. -/
def weight (items : List (List Char × List (List Char))) : Nat :=
  (items.map fun entry =>
    entry.1.length + 1 + (entry.2.map fun value => value.length + 1).sum).sum

theorem weight_cons (entry : List Char × List (List Char)) (rest) :
    weight (entry :: rest) =
      entry.1.length + 1 + (entry.2.map fun value => value.length + 1).sum + weight rest := rfl

theorem weight_insertItem {k v : List Char} {vs : List (List Char)}
    {items : List (List Char × List (List Char))}
    (h : ∀ old, (k, old) ∈ items → vs = old ++ [v]) :
    weight items < weight (Dict.insertItem k vs items) := by
  induction items with
  | nil =>
    rw [Dict.insertItem, weight_cons]
    exact Nat.lt_of_lt_of_le (Nat.zero_lt_succ k.length)
      (Nat.le_trans (Nat.le_add_right _ _) (Nat.le_add_right _ _))
  | cons entry rest ih =>
    obtain ⟨k', old⟩ := entry
    by_cases hk : k' = k
    · subst hk
      rw [Dict.insertItem, if_pos rfl, weight_cons, weight_cons, h old List.mem_cons_self]
      simp only [List.map_append, List.sum_append, List.map_cons, List.map_nil, List.sum_cons,
        List.sum_nil]
      omega
    · rw [Dict.insertItem, if_neg hk, weight_cons, weight_cons]
      exact Nat.add_lt_add_left (ih fun old hmem => h old (List.mem_cons_of_mem _ hmem)) _

theorem weight_addValue (parsed : Query) (item : List Char × List Char) :
    weight parsed.items < weight (addValue parsed item).items := by
  refine weight_insertItem (v := item.2) fun old hmem => ?_
  rw [Dict.get?_eq_some.mpr hmem, Option.getD_some]

theorem weight_foldl (parsed : Query) (items : List (List Char × List Char)) :
    weight parsed.items + items.length ≤ weight (items.foldl addValue parsed).items := by
  induction items generalizing parsed with
  | nil => exact Nat.le_refl _
  | cons item rest ih =>
    have hitem := weight_addValue parsed item
    have hrest := ih (addValue parsed item)
    rw [List.foldl_cons, List.length_cons]
    omega

/-- No value has no entry: what is joined is never empty. -/
def HasValues (items : List (List Char × List (List Char))) : Prop :=
  ∀ entry ∈ items, entry.2 ≠ []

theorem hasValues_parseQs (query : List Char) : HasValues (parseQs query).items := by
  have hfold : ∀ (items : List (List Char × List Char)) (parsed : Query),
      HasValues parsed.items → HasValues (items.foldl addValue parsed).items := by
    intro items
    induction items with
    | nil => exact fun _ h => h
    | cons item rest ih =>
      intro parsed h
      refine ih _ fun entry hmem => ?_
      rcases Dict.mem_insertItem hmem with heq | hmem
      · rw [heq]
        exact List.append_ne_nil_of_right_ne_nil _ (List.cons_ne_nil _ _)
      · exact h entry hmem
  exact hfold _ _ (fun _ hmem => absurd hmem List.not_mem_nil)

theorem length_pair {entry : List Char × List (List Char)} (h : entry.2 ≠ []) :
    (entry.1 ++ '=' :: mask (List.intercalate [','] entry.2)).length + 1 =
      entry.1.length + 1 + (entry.2.map fun value => value.length + 1).sum := by
  rw [← length_intercalate ',' h, List.length_append, List.length_cons, length_mask]
  omega

theorem sum_queryPairs (query : List Char) :
    ((queryPairs query).map fun pair => pair.length + 1).sum = weight (parseQs query).items := by
  rw [queryPairs, List.map_map, weight]
  refine congrArg List.sum (List.map_congr_left fun entry hmem => ?_)
  exact length_pair (hasValues_parseQs query entry hmem)

theorem length_maskQuery (query : List Char) :
    (maskQuery query).length = weight (parseQs query).items := by
  rw [← sum_queryPairs, maskQuery]
  have hperm := List.mergeSort_perm (queryPairs query) fun a b => decide (a ≤ b)
  rw [← (hperm.map fun pair => pair.length + 1).sum_eq]
  split
  · next hnil => rw [hnil]; rfl
  · next hpairs => exact length_intercalate '&' hpairs

theorem maskQuery_nil : maskQuery [] = [] := List.length_eq_zero_iff.mp (length_maskQuery [])

/-! ## More of a query -/

theorem parseQsl_append (query rest : List Char) :
    parseQsl (query ++ '&' :: rest) = parseQsl query ++ parseQsl rest := by
  have hsplit : (query ++ '&' :: rest).splitOn '&' = query.splitOn '&' ++ rest.splitOn '&' :=
    List.splitOnP_append_cons query rest (by decide)
  rw [parseQsl, hsplit, List.filterMap_append]
  rfl

/-- A query that starts with some other character than `&` has a first item. -/
theorem parseQsl_cons_ne_nil {c : Char} (h : c ≠ '&') (rest : List Char) :
    parseQsl (c :: rest) ≠ [] := by
  have hsplit : (c :: rest).splitOn '&' = (rest.splitOn '&').modifyHead (c :: ·) := by
    rw [List.splitOn, List.splitOnP_cons_eq_if_modifyHead, if_neg (by simpa using h)]
    rfl
  rw [parseQsl, hsplit]
  cases hrest : rest.splitOn '&' with
  | nil => exact absurd hrest (List.splitOnP_ne_nil _ rest)
  | cons piece pieces =>
    rw [List.modifyHead_cons, List.filterMap_cons, if_neg (List.cons_ne_nil c piece)]
    exact List.cons_ne_nil _ _

theorem length_maskQuery_append (query : List Char) {rest : List Char} (h : parseQsl rest ≠ []) :
    (maskQuery query).length < (maskQuery (query ++ '&' :: rest)).length := by
  rw [length_maskQuery, length_maskQuery, parseQs, parseQs, parseQsl_append, List.foldl_append]
  have hmore := weight_foldl ((parseQsl query).foldl addValue Dict.empty) (parseQsl rest)
  have hpos := List.length_pos_iff.mpr h
  omega

theorem length_maskQuery_pos {query : List Char} (h : parseQsl query ≠ []) :
    0 < (maskQuery query).length := by
  rw [length_maskQuery, parseQs]
  have hmore := weight_foldl Dict.empty (parseQsl query)
  have hpos := List.length_pos_iff.mpr h
  omega

end Util
end Eds
