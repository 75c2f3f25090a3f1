import Eds.Util.Gourl.Queries

/-!
# Queries of any text

A query is read segment by segment.  A segment whose escapes are malformed is dropped, and its
neighbours are not affected; a segment whose escapes are well formed and stand for bytes that are
no UTF-8 ends the reading (`query_eq_iff`).
-/

namespace Eds
namespace Util
namespace Gourl

open Collections Lexing Percent

/-! ## The ways in which a text is not read -/

/-- The escapes are well formed, and what they stand for is no text. -/
def Illegible (s : List Char) : Prop :=
  ∃ bytes, Reads (coding .queryComponent) (utf8 s) bytes ∧ ofUtf8 bytes = none

theorem escape_of_unescapeBytes {s : List Char} {mode : Mode} {i : Nat} {bytes : List UInt8}
    {e : Error} (h : unescapeBytes s mode i bytes = .error e) : ∃ text, e = .escape text := by
  have hmap : ∀ {b : UInt8} {r : Except Error (List UInt8)},
      (b :: ·) <$> r = .error e → r = .error e := by
    intro b r hr
    cases r with
    | ok rest => cases hr
    | error e' => exact hr
  fun_induction unescapeBytes s mode i bytes with
  | case1 i => cases h
  | case2 i x y rest hhex => exact ⟨_, (Except.error.inj h).symm⟩
  | case3 i x y rest hhex hlow => exact ⟨_, (Except.error.inj h).symm⟩
  | case4 i x y rest hhex hlow ih => exact ih (hmap h)
  | case5 i rest hshort => exact ⟨_, (Except.error.inj h).symm⟩
  | case6 i rest _ ih => exact ih (hmap h)
  | case7 i c rest hpercent hplus hescape => exact ⟨_, (Except.error.inj h).symm⟩
  | case8 i c rest hpercent hplus hescape ih => exact ih (hmap h)

/-- A text is read, or it has a malformed escape, or it is illegible. -/
theorem queryUnescape_cases (s : List Char) :
    (∃ t, queryUnescape s = .ok t ∧ ¬ Illegible s) ∨
      (∃ text, queryUnescape s = .error (.escape text) ∧ ¬ Illegible s) ∨
      ∃ bytes, queryUnescape s = .error (.unicode bytes) ∧ Illegible s := by
  rw [queryUnescape, unescape]
  cases hbytes : unescapeBytes s .queryComponent 0 (utf8 s) with
  | error e =>
    obtain ⟨text, rfl⟩ := escape_of_unescapeBytes hbytes
    refine Or.inr (Or.inl ⟨text, rfl, fun hill => ?_⟩)
    obtain ⟨bytes, hreads, -⟩ := hill
    rw [unescapeBytes_iff.mpr hreads] at hbytes
    cases hbytes
  | ok bytes =>
    have hreads := unescapeBytes_iff.mp hbytes
    dsimp only [bind, Except.bind]
    cases htext : ofUtf8 bytes with
    | some text =>
      refine Or.inl ⟨text, rfl, fun hill => ?_⟩
      obtain ⟨bytes', hreads', hnone⟩ := hill
      rw [hreads'.unique hreads, htext] at hnone
      cases hnone
    | none => exact Or.inr (Or.inr ⟨bytes, rfl, bytes, hreads, htext⟩)

/-! ## One segment -/

def segmentKey (seg : List Char) : List Char := (partition '=' seg).1

def segmentValue (seg : List Char) : List Char := (partition '=' seg).2.2

/-- The pair of a segment: it is not empty, it has no semicolon, and both parts are read. -/
def segmentPair? (seg : List Char) : Option (List Char × List Char) :=
  if seg = [] ∨ ';' ∈ seg then none
  else
    match queryUnescape (segmentKey seg), queryUnescape (segmentValue seg) with
    | .ok key, .ok value => some (key, value)
    | _, _ => none

/-- The reading gets past the segment: its key is legible, and its value where the key is read. -/
def Passable (seg : List Char) : Prop :=
  seg ≠ [] → ';' ∉ seg → ¬ Illegible (segmentKey seg) ∧
    ((∃ key, Reads (coding .queryComponent) (utf8 (segmentKey seg)) (utf8 key)) →
      ¬ Illegible (segmentValue seg))

theorem segmentPair?_of_skipped {seg : List Char} (h : seg = [] ∨ ';' ∈ seg) :
    segmentPair? seg = none := if_pos h

/-- Both parts, as the reading takes them. -/
def readPair (seg : List Char) : Except Error (List Char × List Char) := do
  let key ← queryUnescape (segmentKey seg)
  let value ← queryUnescape (segmentValue seg)
  pure (key, value)

/-- What becomes of the values once the parts are read. -/
def settle (v : Values) : Except Error (List Char × List Char) → Except Error Values
  | .ok pair => .ok (v.add pair.1 pair.2)
  | .error (.escape _) => .ok v
  | .error (.value message) => .error (.value message)
  | .error (.unicode bytes) => .error (.unicode bytes)

theorem addSegment_eq {seg : List Char} (hne : seg ≠ []) (hsemi : ';' ∉ seg) (v : Values) :
    GoUrl.addSegment v seg = settle v (readPair seg) := by
  have hcut : partition '=' seg = (segmentKey seg, (partition '=' seg).2.1, segmentValue seg) := rfl
  rw [GoUrl.addSegment, if_neg hsemi, if_neg hne, hcut]
  dsimp only
  rw [readPair]
  cases queryUnescape (segmentKey seg) with
  | ok key =>
    cases queryUnescape (segmentValue seg) with
    | ok value => rfl
    | error e => cases e <;> rfl
  | error e => cases e <;> rfl

theorem segmentPair?_eq {seg : List Char} (hne : seg ≠ []) (hsemi : ';' ∉ seg) :
    segmentPair? seg = (readPair seg).toOption := by
  rw [segmentPair?, if_neg (by simp [hne, hsemi]), readPair]
  cases queryUnescape (segmentKey seg) with
  | error e => rfl
  | ok key =>
    cases queryUnescape (segmentValue seg) with
    | error e => rfl
    | ok value => rfl

/-- A segment that can be passed adds its pair, if it has one. -/
theorem addSegment_of_passable {seg : List Char} (h : Passable seg) (v : Values) :
    GoUrl.addSegment v seg =
      .ok ((segmentPair? seg).elim v fun pair => v.add pair.1 pair.2) := by
  by_cases hskipped : seg = [] ∨ ';' ∈ seg
  · rw [segmentPair?_of_skipped hskipped, GoUrl.addSegment]
    split
    · rfl
    · next hsemi => rw [if_pos (hskipped.resolve_right hsemi)]; rfl
  · rw [not_or] at hskipped
    obtain ⟨hne, hsemi⟩ := hskipped
    obtain ⟨hkey, hvalue⟩ := h hne hsemi
    rw [addSegment_eq hne hsemi, segmentPair?_eq hne hsemi, readPair]
    obtain ⟨key, hread, -⟩ | ⟨text, hread, -⟩ | ⟨bytes, -, hill⟩ :=
      queryUnescape_cases (segmentKey seg)
    · rw [hread]
      have hvalue := hvalue ⟨key, unescape_iff.mp hread⟩
      obtain ⟨value, hread', -⟩ | ⟨text, hread', -⟩ | ⟨bytes, -, hill⟩ :=
        queryUnescape_cases (segmentValue seg)
      · rw [hread']
        rfl
      · rw [hread']
        rfl
      · exact absurd hill hvalue
    · rw [hread]
      rfl
    · exact absurd hill hkey

theorem addSegment_of_not_passable {seg : List Char} (h : ¬ Passable seg) (v : Values) :
    ∃ e, GoUrl.addSegment v seg = .error e := by
  unfold Passable at h
  simp only [Classical.not_imp] at h
  obtain ⟨hne, hsemi, h⟩ := h
  rw [addSegment_eq hne hsemi, readPair]
  obtain ⟨key, hread, hkey⟩ | ⟨text, hread, hkey⟩ | ⟨bytes, hread, -⟩ :=
    queryUnescape_cases (segmentKey seg)
  · rw [hread]
    obtain ⟨value, -, hvalue⟩ | ⟨text, -, hvalue⟩ | ⟨bytes, hread', -⟩ :=
      queryUnescape_cases (segmentValue seg)
    · exact absurd ⟨hkey, fun _ => hvalue⟩ h
    · exact absurd ⟨hkey, fun _ => hvalue⟩ h
    · exact ⟨.unicode bytes, by rw [hread']; rfl⟩
  · refine absurd ⟨hkey, fun hreads => ?_⟩ h
    obtain ⟨key, hreads⟩ := hreads
    have hok : queryUnescape (segmentKey seg) = .ok key := unescape_iff.mpr hreads
    rw [hread] at hok
    cases hok
  · exact ⟨.unicode bytes, by rw [hread]; rfl⟩

/-! ## All segments -/

def Values.ofPairs (pairs : List (List Char × List Char)) : Values :=
  pairs.foldl (fun v pair => v.add pair.1 pair.2) Dict.empty

theorem foldlM_addSegment_of_passable {segs : List (List Char)} (h : ∀ seg ∈ segs, Passable seg)
    (v : Values) :
    segs.foldlM GoUrl.addSegment v =
      .ok ((segs.filterMap segmentPair?).foldl (fun v pair => v.add pair.1 pair.2) v) := by
  induction segs generalizing v with
  | nil => rfl
  | cons seg segs ih =>
    obtain ⟨hseg, hsegs⟩ := List.forall_mem_cons.mp h
    rw [List.foldlM_cons, addSegment_of_passable hseg]
    refine (ih hsegs _).trans ?_
    rw [List.filterMap_cons]
    cases segmentPair? seg with
    | none => rfl
    | some pair => rfl

theorem passable_of_foldlM_addSegment {segs : List (List Char)} {v q : Values}
    (h : segs.foldlM GoUrl.addSegment v = .ok q) : ∀ seg ∈ segs, Passable seg := by
  induction segs generalizing v with
  | nil => exact fun seg hseg => absurd hseg List.not_mem_nil
  | cons seg segs ih =>
    rw [List.foldlM_cons] at h
    by_cases hseg : Passable seg
    · rw [addSegment_of_passable hseg] at h
      exact List.forall_mem_cons.mpr ⟨hseg, ih h⟩
    · obtain ⟨e, he⟩ := addSegment_of_not_passable hseg v
      rw [he] at h
      cases h

/-- A query that is read is built with `add`. -/
theorem exists_built {u : GoUrl} {q : Values} (h : u.query = .ok q) :
    ∃ edits, q = Values.built edits := by
  rw [GoUrl.query, foldlM_addSegment_of_passable (passable_of_foldlM_addSegment h)] at h
  refine ⟨((u.rawQuery.splitOn '&').filterMap segmentPair?).map fun pair => .add pair.1 pair.2, ?_⟩
  rw [← Except.ok.inj h, Values.built, List.foldl_map]
  rfl

/-- A query is the pairs of its segments if and only if each segment can be passed; otherwise the
reading raises. -/
theorem query_eq_iff (u : GoUrl) :
    u.query = .ok (Values.ofPairs ((u.rawQuery.splitOn '&').filterMap segmentPair?)) ↔
      ∀ seg ∈ u.rawQuery.splitOn '&', Passable seg :=
  ⟨passable_of_foldlM_addSegment, fun h => foldlM_addSegment_of_passable h Dict.empty⟩

/-- Two well-formed escapes that are no UTF-8 end the reading of a query with a good pair. -/
theorem query_ne_escaped :
    ¬ ∀ u : GoUrl,
      u.query = .ok (Values.ofPairs ((u.rawQuery.splitOn '&').filterMap segmentPair?)) := by
  intro hall
  have hquery := hall { GoUrl.blank with rawQuery := "a=1&b=%ff%fe".toList }
  have herror : GoUrl.query { GoUrl.blank with rawQuery := "a=1&b=%ff%fe".toList } =
      .error (.unicode [0xff, 0xfe]) := by decide +kernel
  rw [herror] at hquery
  cases hquery

end Gourl
end Util
end Eds
