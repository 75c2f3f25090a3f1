import Eds.Util.Gourl.Hosts

/-!
# The port of a host

A port is what stands behind the last colon of a host, if it is made of digits.  A host that has
no port, not even an empty one, is kept when a port is put behind it (`splitHostPort_of_unported`,
`HostOk.append_port`).
-/

namespace Eds
namespace Util
namespace Gourl

open Lexing Percent

/-- Without the brackets around it. -/
def unbracketed (host : List Char) : List Char :=
  if host.head? = some '[' ∧ host.getLast? = some ']' then (host.drop 1).dropLast else host

def isPort (digits : List Char) : Bool := digits.all isDigit

/-- No port stands behind the host; an empty one would be a port. -/
def Unported (host : List Char) : Prop :=
  ∀ front digits, host = front ++ ':' :: digits → isPort digits = false

theorem colon_notMem_of_isPort {digits : List Char} (h : isPort digits = true) : ':' ∉ digits :=
  fun hmem => absurd (List.all_eq_true.mp h ':' hmem) (by decide)

theorem validOptionalPort_iff {port : List Char} :
    validOptionalPort port = true ↔ port = [] ∨ ∃ digits, port = ':' :: digits ∧ isPort digits = true := by
  cases port with
  | nil => exact iff_of_true rfl (Or.inl rfl)
  | cons c digits =>
    rw [validOptionalPort, Bool.and_eq_true, beq_iff_eq]
    constructor
    · intro h
      obtain ⟨rfl, hdigits⟩ := h
      exact Or.inr ⟨digits, rfl, hdigits⟩
    · intro h
      obtain ⟨digits', heq, hdigits⟩ := h.resolve_left (List.cons_ne_nil c digits)
      obtain ⟨rfl, rfl⟩ := List.cons.inj heq
      exact ⟨rfl, hdigits⟩

theorem splitHostPort_append (front : List Char) {digits : List Char} (h : isPort digits = true) :
    splitHostPort (front ++ ':' :: digits) = (unbracketed front, digits) := by
  have hvalid : validOptionalPort (':' :: digits) = true :=
    validOptionalPort_iff.mpr (Or.inr ⟨digits, rfl, h⟩)
  rw [splitHostPort, rpartition_append (colon_notMem_of_isPort h), unbracketed]
  dsimp only
  rw [if_pos hvalid]
  dsimp only
  split
  · rfl
  · rfl

theorem splitHostPort_of_unported {host : List Char} (h : Unported host) :
    splitHostPort host = (unbracketed host, []) := by
  rw [splitHostPort, unbracketed]
  by_cases hmem : ':' ∈ host
  · obtain ⟨front, digits, hsplit, hdigits⟩ := exists_last hmem
    have hinvalid : ¬ validOptionalPort (':' :: digits) = true := by
      rw [validOptionalPort_iff]
      intro hvalid
      obtain ⟨digits', heq, hport⟩ := hvalid.resolve_left (List.cons_ne_nil ':' digits)
      rw [← (List.cons.inj heq).2, h front digits hsplit] at hport
      cases hport
    have hcut : rpartition ':' host = (front, true, digits) := by
      rw [hsplit]
      exact rpartition_append hdigits front
    rw [hcut]
    dsimp only
    rw [if_neg hinvalid]
    dsimp only
    split
    · rfl
    · rfl
  · rw [rpartition_of_notMem hmem]
    dsimp only
    split
    · rfl
    · rfl

/-- A host has a port, or it has an empty one, or it has none. -/
theorem port_cases (host : List Char) :
    (∃ front digits, host = front ++ ':' :: digits ∧ isPort digits = true) ∨ Unported host := by
  by_cases h : ∃ front digits, host = front ++ ':' :: digits ∧ isPort digits = true
  · exact Or.inl h
  · refine Or.inr fun front digits hsplit => ?_
    rw [← Bool.not_eq_true]
    exact fun hport => h ⟨front, digits, hsplit, hport⟩

theorem unbracketed_append_colon (front : List Char) :
    unbracketed (front ++ [':']) = front ++ [':'] := by
  refine if_neg fun h => ?_
  rw [List.getLast?_concat] at h
  exact absurd h.2 (by decide)

theorem length_unbracketed_le (host : List Char) : (unbracketed host).length ≤ host.length := by
  unfold unbracketed
  split
  · rw [List.length_dropLast, List.length_drop]
    omega
  · exact Nat.le_refl _

/-! ## A port that is put behind a host -/

theorem validHost_append_port {host digits : List Char} (hvalid : validHost host = true)
    (hnone : Unported host) (hdigits : isPort digits = true) :
    validHost (host ++ ':' :: digits) = true := by
  have hport : validOptionalPort (':' :: digits) = true :=
    validOptionalPort_iff.mpr (Or.inr ⟨digits, rfl, hdigits⟩)
  have hhead : (host ++ ':' :: digits).head? = some '[' ↔ host.head? = some '[' := by
    cases host with
    | nil => exact iff_of_false (fun hc => absurd (Option.some.inj hc) (by decide)) (by decide)
    | cons c host => exact Iff.rfl
  unfold validHost at hvalid ⊢
  by_cases hbracket : host.head? = some '['
  · rw [if_pos hbracket] at hvalid
    rw [if_pos (hhead.mpr hbracket)]
    by_cases hmem : ']' ∈ host
    · obtain ⟨front, back, hsplit, hback⟩ := exists_last hmem
      rw [hsplit, rpartition_append hback] at hvalid
      rcases validOptionalPort_iff.mp hvalid with hnil | ⟨digits', hcolon, hport'⟩
      · have hnotMem : ']' ∉ ':' :: digits := by
          rw [List.mem_cons, not_or]
          exact ⟨by decide, fun hc => absurd (List.all_eq_true.mp hdigits ']' hc) (by decide)⟩
        have hcut : rpartition ']' (host ++ ':' :: digits) = (front, true, ':' :: digits) := by
          rw [hsplit, hnil, List.append_assoc, List.singleton_append]
          exact rpartition_append hnotMem front
        rw [hcut]
        exact hport
      · have hunported := hnone (front ++ [']']) digits' (by rw [hsplit, hcolon]; simp)
        rw [hport'] at hunported
        cases hunported
    · rw [rpartition_of_notMem hmem] at hvalid
      cases hvalid
  · rw [if_neg (hhead.not.mpr hbracket), rpartition_append (colon_notMem_of_isPort hdigits)]
    exact hport

theorem HostOk.append_port {host digits : List Char} (h : HostOk host) (hnone : Unported host)
    (hdigits : isPort digits = true) : HostOk (host ++ ':' :: digits) := by
  refine ⟨fun c hc => ?_, validHost_append_port h.valid hnone hdigits⟩
  rcases List.mem_append.mp hc with hc | hc
  · exact h.chars c hc
  · rcases List.mem_cons.mp hc with rfl | hc
    · decide
    · have hdigit := List.all_eq_true.mp hdigits c hc
      have hlt := lt_of_isDigit hdigit
      have halpha : isAlphanumeric (Char.ofNat c.toUInt8.toNat) = true := by
        rw [toNat_toUInt8 hlt, Char.ofNat_toNat, isAlphanumeric, hdigit, Bool.or_true]
      rw [isHostChar, shouldEscape_of_isAlphanumeric .host halpha, Bool.not_false, Bool.or_true]

end Gourl
end Util
end Eds
