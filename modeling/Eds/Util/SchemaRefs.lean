import Eds.Event
import Eds.Collections.Traverse

/-!
# The references of a schema

Before a schema is used, each reference that it reaches is looked up, so that none of them fails
later.  A reference means something in the document in which it stands, but the walk remembers it by
its text: what it meets again in another document it passes over.

`Resolved` is what the walk is for, `resolved_iff_clear` says when one that goes through has done it,
and `walk_ends` that it ends.
-/

namespace Eds
namespace Util
namespace Schema

open Collections

variable {Base : Type}

/-! ## The walk -/

/-- Without an end within the fuel, or with an exception. -/
inductive Stop where
  | fuel
  | raised (e : Exn)
  deriving DecidableEq

/-- The texts of the references that were met. -/
abbrev Seen := List String

section Visit

variable (jump : Base → String → Seen → Except Stop Seen) (res : Base)

/-- The value of a key `$ref`, if there is one. -/
def visitRef (value : Option Json) (seen : Seen) : Except Stop Seen :=
  match value with
  | some (.str ref) => if ref ∈ seen then pure seen else jump res ref (ref :: seen)
  | _ => pure seen

mutual

/-- `walk`, up to the references, which are for `jump`. -/
def visit : Json → Seen → Except Stop Seen
  | .obj fields, seen => do
    let seen ← visitRef jump res (fields.lookup "$ref") seen
    visitFields fields seen
  | .arr items, seen => visitItems items seen
  | .null, seen | .bool _, seen | .int _, seen | .float _, seen | .str _, seen => pure seen

def visitFields : List (String × Json) → Seen → Except Stop Seen
  | [], seen => pure seen
  | (key, value) :: rest, seen =>
    if key ≠ "$ref" then do
      let seen ← visit value seen
      visitFields rest seen
    else visitFields rest seen

def visitItems : List Json → Seen → Except Stop Seen
  | [], seen => pure seen
  | item :: rest, seen => do
    let seen ← visit item seen
    visitItems rest seen

end

end Visit

section Walk

variable (lookup : Base → String → Except Exn (Json × Base))

/-- `walk`, with fuel for the references that lead from one to the next. -/
def walk : Nat → Base → Json → Seen → Except Stop Seen
  | 0, res => visit (fun _ _ _ => .error .fuel) res
  | n + 1, res => visit (fun res ref seen =>
      match lookup res ref with
      | .error e => .error (.raised e)
      | .ok (contents, resolver) => walk n resolver contents seen) res

/-- `_resolve_all_refs` -/
def resolveAllRefs (fuel : Nat) (resolver : Base) (root : Json) : Except Stop Unit := do
  let _seen ← walk lookup fuel resolver root []
  pure ()

end Walk

/-! ## What is reached -/

/-- The parts of a node: its items, or the values of its fields. -/
inductive Child : Json → Json → Prop
  | item {vs : List Json} {v : Json} (h : v ∈ vs) : Child (.arr vs) v
  | field {fields : List (String × Json)} {key : String} {v : Json} (hkey : key ≠ "$ref")
      (h : (key, v) ∈ fields) : Child (.obj fields) v
  | ref {fields : List (String × Json)} {v : Json} (h : fields.lookup "$ref" = some v) :
      Child (.obj fields) v

section Reach

variable (lookup : Base → String → Except Exn (Json × Base))

/-- A node in a document is reached from another one through parts and references. -/
inductive Reached : Base × Json → Base × Json → Prop
  | refl (p : Base × Json) : Reached p p
  | part {p : Base × Json} {b : Base} {node v : Json} (h : Reached p (b, node)) (hchild : Child node v) :
      Reached p (b, v)
  | ref {p : Base × Json} {b b' : Base} {fields : List (String × Json)} {ref : String} {contents : Json}
      (h : Reached p (b, .obj fields)) (href : fields.lookup "$ref" = some (.str ref))
      (hlookup : lookup b ref = .ok (contents, b')) : Reached p (b', contents)

/-- The reference stands in the document, in a node that is reached. -/
def Meets (p : Base × Json) (b : Base) (ref : String) : Prop :=
  ∃ fields, Reached lookup p (b, .obj fields) ∧ fields.lookup "$ref" = some (.str ref)

/-- Every reference that is reached resolves in its document. -/
def Resolved (p : Base × Json) : Prop :=
  ∀ b ref, Meets lookup p b ref → ∃ found, lookup b ref = .ok found

/-- The reference resolves, and every one that is reached from there. -/
def ResolvedAt (b : Base) (ref : String) : Prop :=
  ∃ found : Json × Base, lookup b ref = .ok found ∧ Resolved lookup (found.2, found.1)

/-- A text that means different things in two documents resolves in each of them, with what is
reached from there, and so does what stands under a key `$ref` and is not a text. -/
structure Clear (p : Base × Json) : Prop where
  texts : ∀ b b' ref, Meets lookup p b ref → Meets lookup p b' ref → lookup b ref ≠ lookup b' ref →
    ResolvedAt lookup b ref
  values : ∀ b fields v, Reached lookup p (b, .obj fields) → fields.lookup "$ref" = some v →
    (∀ ref, v ≠ .str ref) → Resolved lookup (b, v)

end Reach

section Reach

variable {lookup : Base → String → Except Exn (Json × Base)} {p q : Base × Json} {b b' : Base}
  {ref : String}

theorem Reached.trans {r : Base × Json} (h : Reached lookup p q) (h' : Reached lookup q r) :
    Reached lookup p r := by
  induction h' with
  | refl => exact h
  | part _ hchild ih => exact .part ih hchild
  | ref _ href hlookup ih => exact .ref ih href hlookup

theorem Meets.of_reached (h : Reached lookup p q) (hmeets : Meets lookup q b ref) :
    Meets lookup p b ref := by
  obtain ⟨fields, hreached, href⟩ := hmeets
  exact ⟨fields, h.trans hreached, href⟩

theorem Resolved.of_reached (h : Resolved lookup p) (hq : Reached lookup p q) : Resolved lookup q :=
  fun b ref hmeets => h b ref (hmeets.of_reached hq)

theorem Resolved.resolvedAt (h : Resolved lookup p) (hmeets : Meets lookup p b ref) :
    ResolvedAt lookup b ref := by
  obtain ⟨⟨contents, b'⟩, hlookup⟩ := h b ref hmeets
  obtain ⟨fields, hreached, href⟩ := hmeets
  exact ⟨(contents, b'), hlookup, h.of_reached (.ref hreached href hlookup)⟩

theorem Resolved.clear (h : Resolved lookup p) : Clear lookup p where
  texts _ _ _ hmeets _ _ := h.resolvedAt hmeets
  values _ _ _ hreached hvalue _ := h.of_reached (.part hreached (.ref hvalue))

end Reach

/-! ## What the walk has met -/

/-- The texts of the references in a node, but for what is under a key `$ref`, have been met. -/
inductive Walked (seen : Seen) : Json → Prop
  | leaf {v : Json} (harr : ∀ vs, v ≠ .arr vs) (hobj : ∀ fields, v ≠ .obj fields) : Walked seen v
  | arr {vs : List Json} (h : ∀ v ∈ vs, Walked seen v) : Walked seen (.arr vs)
  | obj {fields : List (String × Json)} (href : ∀ ref, fields.lookup "$ref" = some (.str ref) → ref ∈ seen)
      (h : ∀ key v, (key, v) ∈ fields → key ≠ "$ref" → Walked seen v) : Walked seen (.obj fields)

theorem Walked.mono {seen seen' : Seen} (hsub : seen ⊆ seen') {v : Json} (h : Walked seen v) :
    Walked seen' v := by
  induction h with
  | leaf harr hobj => exact .leaf harr hobj
  | arr _ ih => exact .arr ih
  | obj href _ ih => exact .obj (fun ref h => hsub (href ref h)) ih

theorem Walked.item {seen : Seen} {vs : List Json} {v : Json} (h : Walked seen (.arr vs))
    (hmem : v ∈ vs) : Walked seen v := by
  cases h with
  | leaf harr _ => exact absurd rfl (harr vs)
  | arr h => exact h v hmem

theorem Walked.field {seen : Seen} {fields : List (String × Json)} {key : String} {v : Json}
    (h : Walked seen (.obj fields)) (hmem : (key, v) ∈ fields) (hkey : key ≠ "$ref") :
    Walked seen v := by
  cases h with
  | leaf _ hobj => exact absurd rfl (hobj fields)
  | obj _ h => exact h key v hmem hkey

theorem Walked.ref_mem {seen : Seen} {fields : List (String × Json)} {ref : String}
    (h : Walked seen (.obj fields)) (href : fields.lookup "$ref" = some (.str ref)) : ref ∈ seen := by
  cases h with
  | leaf _ hobj => exact absurd rfl (hobj fields)
  | obj hown _ => exact hown ref href

section Steps

variable {lookup : Base → String → Except Exn (Json × Base)} {p : Base × Json} {seen seen' : Seen}

variable (lookup p) in
/-- Where the text was first met it resolved, and what it resolved to was walked. -/
def Backed (seen : Seen) (ref : String) : Prop :=
  ∃ b contents b', Meets lookup p b ref ∧ lookup b ref = .ok (contents, b') ∧ Walked seen contents

theorem Backed.mono (hsub : seen ⊆ seen') {ref : String} (h : Backed lookup p seen ref) :
    Backed lookup p seen' ref := by
  obtain ⟨b, contents, b', hmeets, hlookup, hwalked⟩ := h
  exact ⟨b, contents, b', hmeets, hlookup, hwalked.mono hsub⟩

variable (lookup p) in
/-- The texts that a part of the walk adds. -/
structure Grows (seen seen' : Seen) : Prop where
  sub : seen ⊆ seen'
  backed : ∀ ref ∈ seen', ref ∈ seen ∨ Backed lookup p seen' ref

theorem Grows.refl (seen : Seen) : Grows lookup p seen seen := ⟨fun _ h => h, fun _ h => Or.inl h⟩

theorem Grows.trans {seen'' : Seen} (h : Grows lookup p seen seen') (h' : Grows lookup p seen' seen'') :
    Grows lookup p seen seen'' where
  sub := List.Subset.trans h.sub h'.sub
  backed ref hmem := by
    rcases h'.backed ref hmem with hmem | hbacked
    · exact (h.backed ref hmem).imp id fun hbacked => hbacked.mono h'.sub
    · exact Or.inr hbacked

variable {jump : Base → String → Seen → Except Stop Seen} {res : Base}

variable (lookup p jump res) in
/-- What is asked of the step to a reference. -/
def Jumps : Prop :=
  ∀ ref seen seen', Meets lookup p res ref → jump res ref (ref :: seen) = .ok seen' →
    Grows lookup p seen seen' ∧ ref ∈ seen'

theorem visitRef_grows (hjump : Jumps lookup p jump res) {value : Option Json}
    (hmeets : ∀ ref, value = some (.str ref) → Meets lookup p res ref)
    (h : visitRef jump res value seen = .ok seen') :
    Grows lookup p seen seen' ∧ ∀ ref, value = some (.str ref) → ref ∈ seen' := by
  unfold visitRef at h
  split at h
  · next ref =>
    have hsame : ∀ ref', some (Json.str ref) = some (.str ref') → ref = ref' := fun ref' h' => by
      cases h'
      rfl
    split at h
    · next hseen =>
      cases h
      exact ⟨.refl _, fun ref' h' => hsame ref' h' ▸ hseen⟩
    · obtain ⟨hgrows, hmem⟩ := hjump ref seen seen' (hmeets ref rfl) h
      exact ⟨hgrows, fun ref' h' => hsame ref' h' ▸ hmem⟩
  · next hnone =>
    cases h
    exact ⟨.refl _, fun ref' h' => absurd h' (hnone ref')⟩

mutual

theorem visit_grows (hjump : Jumps lookup p jump res) : ∀ (node : Json) {seen seen' : Seen},
    Reached lookup p (res, node) → visit jump res node seen = .ok seen' →
      Grows lookup p seen seen' ∧ Walked seen' node
  | .obj fields, seen, seen', hreached, h => by
    rw [visit] at h
    obtain ⟨mid, hmid, h⟩ := bind_eq_ok.mp h
    have hfields := visitFields_grows hjump fields
      (fun key v hmem hkey => .part hreached (.field hkey hmem)) h
    have hown := visitRef_grows hjump (fun ref href => ⟨fields, hreached, href⟩) hmid
    refine ⟨hown.1.trans hfields.1, .obj (fun ref href => hfields.1.sub (hown.2 ref href)) hfields.2⟩
  | .arr items, seen, seen', hreached, h => by
    rw [visit] at h
    obtain ⟨hgrows, hitems⟩ := visitItems_grows hjump items
      (fun v hmem => .part hreached (.item hmem)) h
    exact ⟨hgrows, .arr hitems⟩
  | .null, seen, seen', _, h => by
    cases h
    exact ⟨.refl _, .leaf nofun nofun⟩
  | .bool _, seen, seen', _, h => by
    cases h
    exact ⟨.refl _, .leaf nofun nofun⟩
  | .int _, seen, seen', _, h => by
    cases h
    exact ⟨.refl _, .leaf nofun nofun⟩
  | .float _, seen, seen', _, h => by
    cases h
    exact ⟨.refl _, .leaf nofun nofun⟩
  | .str _, seen, seen', _, h => by
    cases h
    exact ⟨.refl _, .leaf nofun nofun⟩

theorem visitFields_grows (hjump : Jumps lookup p jump res) :
    ∀ (fields : List (String × Json)) {seen seen' : Seen},
      (∀ key v, (key, v) ∈ fields → key ≠ "$ref" → Reached lookup p (res, v)) →
      visitFields jump res fields seen = .ok seen' →
        Grows lookup p seen seen' ∧ ∀ key v, (key, v) ∈ fields → key ≠ "$ref" → Walked seen' v
  | [], seen, seen', _, h => by
    cases h
    exact ⟨.refl _, fun _ _ hmem => absurd hmem List.not_mem_nil⟩
  | (key, value) :: rest, seen, seen', hreached, h => by
    rw [visitFields] at h
    have hrest : ∀ {mid : Seen}, visitFields jump res rest mid = .ok seen' → Grows lookup p mid seen' ∧
        ∀ key v, (key, v) ∈ rest → key ≠ "$ref" → Walked seen' v := fun hmid =>
      visitFields_grows hjump rest (fun key v hmem => hreached key v (List.mem_cons_of_mem _ hmem)) hmid
    split at h
    · next hkey =>
      obtain ⟨mid, hmid, h⟩ := bind_eq_ok.mp h
      obtain ⟨hvalue, hwalked⟩ := visit_grows hjump value (hreached key value List.mem_cons_self hkey) hmid
      obtain ⟨hgrows, hall⟩ := hrest h
      refine ⟨hvalue.trans hgrows, fun key' v hmem hne => ?_⟩
      rcases List.mem_cons.mp hmem with heq | hmem
      · cases heq
        exact hwalked.mono hgrows.sub
      · exact hall key' v hmem hne
    · next hkey =>
      obtain ⟨hgrows, hall⟩ := hrest h
      refine ⟨hgrows, fun key' v hmem hne => ?_⟩
      rcases List.mem_cons.mp hmem with heq | hmem
      · cases heq
        exact absurd hne hkey
      · exact hall key' v hmem hne

theorem visitItems_grows (hjump : Jumps lookup p jump res) : ∀ (items : List Json) {seen seen' : Seen},
    (∀ v ∈ items, Reached lookup p (res, v)) → visitItems jump res items seen = .ok seen' →
      Grows lookup p seen seen' ∧ ∀ v ∈ items, Walked seen' v
  | [], seen, seen', _, h => by
    cases h
    exact ⟨.refl _, fun _ hmem => absurd hmem List.not_mem_nil⟩
  | item :: rest, seen, seen', hreached, h => by
    rw [visitItems] at h
    obtain ⟨mid, hmid, h⟩ := bind_eq_ok.mp h
    obtain ⟨hitem, hwalked⟩ := visit_grows hjump item (hreached item List.mem_cons_self) hmid
    obtain ⟨hgrows, hrest⟩ := visitItems_grows hjump rest
      (fun v hmem => hreached v (List.mem_cons_of_mem _ hmem)) h
    exact ⟨hitem.trans hgrows, List.forall_mem_cons.mpr ⟨hwalked.mono hgrows.sub, hrest⟩⟩

end

theorem walk_grows : ∀ (n : Nat) {b : Base} {node : Json} {seen seen' : Seen},
    Reached lookup p (b, node) → walk lookup n b node seen = .ok seen' →
      Grows lookup p seen seen' ∧ Walked seen' node
  | 0, b, node, seen, seen', hreached, h => by
    rw [walk] at h
    exact visit_grows (fun _ _ _ _ hjump => by cases hjump) node hreached h
  | n + 1, b, node, seen, seen', hreached, h => by
    rw [walk] at h
    refine visit_grows (fun ref seen seen' hmeets hjump => ?_) node hreached h
    cases hlookup : lookup b ref with
    | error e =>
      rw [hlookup] at hjump
      cases hjump
    | ok found =>
      obtain ⟨contents, b'⟩ := found
      rw [hlookup] at hjump
      obtain ⟨fields, hfields, href⟩ := id hmeets
      obtain ⟨hgrows, hwalked⟩ := walk_grows n (.ref hfields href hlookup) hjump
      have hmem : ref ∈ seen' := hgrows.sub List.mem_cons_self
      refine ⟨⟨fun r hr => hgrows.sub (List.mem_cons_of_mem _ hr), fun r hr => ?_⟩, hmem⟩
      rcases hgrows.backed r hr with hr | hbacked
      · rcases List.mem_cons.mp hr with rfl | hr
        · exact Or.inr ⟨b, contents, b', hmeets, hlookup, hwalked⟩
        · exact Or.inl hr
      · exact Or.inr hbacked

end Steps

/-! ## A walk that ends -/

section Ended

variable {lookup : Base → String → Except Exn (Json × Base)} {p : Base × Json} {seen : Seen}

/-- A node that is reached was walked, or all that is reached from it resolves. -/
theorem walked_or_resolved (hbacked : ∀ ref ∈ seen, Backed lookup p seen ref)
    (hroot : Walked seen p.2) (hclear : Clear lookup p) {q : Base × Json} (h : Reached lookup p q) :
    Walked seen q.2 ∨ Resolved lookup q := by
  induction h with
  | refl => exact Or.inl hroot
  | @part b node v hreached hchild ih =>
    rcases ih with hwalked | hresolved
    · cases hchild with
      | item hmem => exact Or.inl (hwalked.item hmem)
      | field hkey hmem => exact Or.inl (hwalked.field hmem hkey)
      | @ref fields _ hvalue =>
        by_cases htext : ∃ ref, v = .str ref
        · obtain ⟨ref, rfl⟩ := htext
          exact Or.inl (.leaf nofun nofun)
        · exact Or.inr (hclear.values b fields v hreached hvalue fun ref heq => htext ⟨ref, heq⟩)
    · exact Or.inr (hresolved.of_reached (.part (.refl _) hchild))
  | @ref b b' fields ref contents hreached href hlookup ih =>
    rcases ih with hwalked | hresolved
    · have hmem : ref ∈ seen := hwalked.ref_mem href
      obtain ⟨b₀, contents₀, b₀', hmeets, hfirst, hcontents⟩ := hbacked ref hmem
      by_cases hsame : lookup b ref = lookup b₀ ref
      · rw [hlookup, hfirst] at hsame
        cases hsame
        exact Or.inl hcontents
      · obtain ⟨found, hfound, hall⟩ := hclear.texts b b₀ ref ⟨fields, hreached, href⟩ hmeets hsame
        rw [hlookup] at hfound
        cases hfound
        exact Or.inr hall
    · exact Or.inr (hresolved.of_reached (.ref (.refl _) href hlookup))

theorem resolved_of_clear (hbacked : ∀ ref ∈ seen, Backed lookup p seen ref)
    (hroot : Walked seen p.2) (hclear : Clear lookup p) : Resolved lookup p := by
  intro b ref hmeets
  obtain ⟨fields, hreached, href⟩ := id hmeets
  rcases walked_or_resolved hbacked hroot hclear hreached with hwalked | hresolved
  · have hmem : ref ∈ seen := hwalked.ref_mem href
    obtain ⟨b₀, contents₀, b₀', hfirstMeets, hfirst, -⟩ := hbacked ref hmem
    by_cases hsame : lookup b ref = lookup b₀ ref
    · exact ⟨_, hsame.trans hfirst⟩
    · obtain ⟨found, hfound, -⟩ := hclear.texts b b₀ ref hmeets hfirstMeets hsame
      exact ⟨found, hfound⟩
  · exact hresolved b ref ⟨fields, .refl _, href⟩

/-- A walk that goes through has met everything, unless a text is unclear. -/
theorem resolved_iff_clear {fuel : Nat} {resolver : Base} {root : Json}
    (h : resolveAllRefs lookup fuel resolver root = .ok ()) :
    Resolved lookup (resolver, root) ↔ Clear lookup (resolver, root) := by
  refine ⟨Resolved.clear, fun hclear => ?_⟩
  obtain ⟨seen, hwalk, -⟩ := bind_eq_ok.mp h
  obtain ⟨hgrows, hwalked⟩ := walk_grows fuel (.refl _) hwalk
  refine resolved_of_clear (fun ref hmem => ?_) hwalked hclear
  exact (hgrows.backed ref hmem).resolve_left List.not_mem_nil

end Ended

/-! ## Enough fuel -/

mutual

/-- The texts anywhere in a value. -/
def texts : Json → List String
  | .str s => [s]
  | .arr items => textsItems items
  | .obj fields => textsFields fields
  | .null | .bool _ | .int _ | .float _ => []

def textsItems : List Json → List String
  | [] => []
  | item :: rest => texts item ++ textsItems rest

def textsFields : List (String × Json) → List String
  | [] => []
  | (_, value) :: rest => texts value ++ textsFields rest

end

theorem texts_item {items : List Json} {v : Json} (h : v ∈ items) : texts v ⊆ textsItems items := by
  induction items with
  | nil => exact absurd h List.not_mem_nil
  | cons item rest ih =>
    rw [textsItems]
    rcases List.mem_cons.mp h with rfl | h
    · exact List.subset_append_left _ _
    · exact List.Subset.trans (ih h) (List.subset_append_right _ _)

theorem texts_field {fields : List (String × Json)} {key : String} {v : Json} (h : (key, v) ∈ fields) :
    texts v ⊆ textsFields fields := by
  induction fields with
  | nil => exact absurd h List.not_mem_nil
  | cons field rest ih =>
    rw [textsFields]
    rcases List.mem_cons.mp h with rfl | h
    · exact List.subset_append_left _ _
    · exact List.Subset.trans (ih h) (List.subset_append_right _ _)

theorem mem_of_lookup {fields : List (String × Json)} {key : String} {v : Json}
    (h : fields.lookup key = some v) : (key, v) ∈ fields := by
  obtain ⟨front, back, rfl, -⟩ := List.lookup_eq_some_iff.mp h
  exact List.mem_append_right _ List.mem_cons_self

/-- The texts that were not met, of all there are. -/
def unseen (every : List String) (seen : Seen) : Nat :=
  (every.filter fun text => text ∉ seen).length

theorem unseen_mono {every : List String} {seen seen' : Seen} (h : seen ⊆ seen') :
    unseen every seen' ≤ unseen every seen := by
  refine (List.monotone_filter_right every fun text htext => ?_).length_le
  exact decide_eq_true fun hmem => of_decide_eq_true htext (h hmem)

theorem unseen_cons {every : List String} {seen : Seen} {ref : String} (hmem : ref ∈ every)
    (hfresh : ref ∉ seen) : unseen every (ref :: seen) < unseen every seen := by
  have hsub := List.monotone_filter_right every (p := fun text => decide (text ∉ ref :: seen))
    (q := fun text => decide (text ∉ seen)) fun text htext =>
      decide_eq_true fun hseen => of_decide_eq_true htext (List.mem_cons_of_mem _ hseen)
  refine Nat.lt_of_le_of_ne hsub.length_le fun heq => ?_
  have hin : ref ∈ every.filter fun text => text ∉ seen :=
    List.mem_filter.mpr ⟨hmem, decide_eq_true hfresh⟩
  rw [← hsub.eq_of_length heq] at hin
  exact of_decide_eq_true (List.mem_filter.mp hin).2 List.mem_cons_self

/-- It ends, and if it goes through it has met more. -/
def Ends (seen : Seen) : Except Stop Seen → Prop
  | .ok seen' => seen ⊆ seen'
  | .error .fuel => False
  | .error (.raised _) => True

theorem Ends.bind {seen : Seen} {r : Except Stop Seen} {k : Seen → Except Stop Seen}
    (h : Ends seen r) (hk : ∀ seen', seen ⊆ seen' → Ends seen' (k seen')) : Ends seen (r >>= k) := by
  cases r with
  | error stop =>
    cases stop with
    | fuel => exact h.elim
    | raised e => exact trivial
  | ok mid =>
    show Ends seen (k mid)
    have hmid := hk mid h
    cases hnext : k mid with
    | ok seen' =>
      rw [hnext] at hmid
      exact List.Subset.trans h hmid
    | error stop =>
      rw [hnext] at hmid
      cases stop with
      | fuel => exact hmid
      | raised e => exact trivial

section Fuel

variable {jump : Base → String → Seen → Except Stop Seen} {res : Base} {every : List String}
  {fuel : Nat}

variable (jump res every fuel) in
/-- What is asked of the step to a reference that is new. -/
def JumpsEnd : Prop :=
  ∀ ref seen, ref ∈ every → ref ∉ seen → unseen every seen ≤ fuel →
    Ends seen (jump res ref (ref :: seen))

theorem visitRef_ends (hjump : JumpsEnd jump res every fuel) {value : Option Json}
    (hvalue : ∀ ref, value = some (.str ref) → ref ∈ every) {seen : Seen}
    (hfuel : unseen every seen ≤ fuel) : Ends seen (visitRef jump res value seen) := by
  unfold visitRef
  split
  · next ref =>
    split
    · exact List.Subset.refl seen
    · next hfresh => exact hjump ref seen (hvalue ref rfl) hfresh hfuel
  · exact List.Subset.refl seen

mutual

theorem visit_ends (hjump : JumpsEnd jump res every fuel) : ∀ (node : Json) {seen : Seen},
    texts node ⊆ every → unseen every seen ≤ fuel → Ends seen (visit jump res node seen)
  | .obj fields, seen, htexts, hfuel => by
    rw [visit]
    rw [texts] at htexts
    refine (visitRef_ends hjump (fun ref href => ?_) hfuel).bind fun mid hmid => ?_
    · refine htexts (texts_field (mem_of_lookup href) ?_)
      rw [texts]
      exact List.mem_singleton_self ref
    · exact visitFields_ends hjump fields htexts (Nat.le_trans (unseen_mono hmid) hfuel)
  | .arr items, seen, htexts, hfuel => by
    rw [visit]
    rw [texts] at htexts
    exact visitItems_ends hjump items htexts hfuel
  | .null, seen, _, _ => List.Subset.refl seen
  | .bool _, seen, _, _ => List.Subset.refl seen
  | .int _, seen, _, _ => List.Subset.refl seen
  | .float _, seen, _, _ => List.Subset.refl seen
  | .str _, seen, _, _ => List.Subset.refl seen

theorem visitFields_ends (hjump : JumpsEnd jump res every fuel) :
    ∀ (fields : List (String × Json)) {seen : Seen}, textsFields fields ⊆ every →
      unseen every seen ≤ fuel → Ends seen (visitFields jump res fields seen)
  | [], seen, _, _ => List.Subset.refl seen
  | (key, value) :: rest, seen, htexts, hfuel => by
    rw [visitFields]
    rw [textsFields] at htexts
    have hrest : ∀ {mid : Seen}, seen ⊆ mid → Ends mid (visitFields jump res rest mid) := fun hmid =>
      visitFields_ends hjump rest (List.Subset.trans (List.subset_append_right _ _) htexts)
        (Nat.le_trans (unseen_mono hmid) hfuel)
    split
    · exact (visit_ends hjump value (List.Subset.trans (List.subset_append_left _ _) htexts) hfuel).bind
        fun mid hmid => hrest hmid
    · exact hrest (List.Subset.refl seen)

theorem visitItems_ends (hjump : JumpsEnd jump res every fuel) : ∀ (items : List Json) {seen : Seen},
    textsItems items ⊆ every → unseen every seen ≤ fuel →
      Ends seen (visitItems jump res items seen)
  | [], seen, _, _ => List.Subset.refl seen
  | item :: rest, seen, htexts, hfuel => by
    rw [visitItems]
    rw [textsItems] at htexts
    refine (visit_ends hjump item (List.Subset.trans (List.subset_append_left _ _) htexts) hfuel).bind
      fun mid hmid => ?_
    exact visitItems_ends hjump rest (List.Subset.trans (List.subset_append_right _ _) htexts)
      (Nat.le_trans (unseen_mono hmid) hfuel)

end

/-- Each step to a reference meets a new text. -/
theorem walk_ends {lookup : Base → String → Except Exn (Json × Base)}
    (hlookup : ∀ b ref contents b', lookup b ref = .ok (contents, b') → texts contents ⊆ every) :
    ∀ (n : Nat) {b : Base} {node : Json} {seen : Seen}, texts node ⊆ every →
      unseen every seen ≤ n → Ends seen (walk lookup n b node seen)
  | 0, b, node, seen, htexts, hfuel => by
    rw [walk]
    refine visit_ends (fun ref seen hmem hfresh hnone => ?_) node htexts hfuel
    have hless := unseen_cons hmem hfresh
    omega
  | n + 1, b, node, seen, htexts, hfuel => by
    rw [walk]
    refine visit_ends (fun ref seen hmem hfresh hfew => ?_) node htexts hfuel
    have hless := unseen_cons hmem hfresh
    split
    · exact trivial
    · next contents b' hfound =>
      have hends := walk_ends hlookup n (b := b') (hlookup b ref contents b' hfound)
        (show unseen every (ref :: seen) ≤ n by omega)
      cases hwalk : walk lookup n b' contents (ref :: seen) with
      | ok seen' =>
        rw [hwalk] at hends
        exact List.Subset.trans (List.subset_cons_self ref seen) hends
      | error stop =>
        rw [hwalk] at hends
        cases stop with
        | fuel => exact hends
        | raised e => exact trivial

end Fuel

end Schema
end Util
end Eds
