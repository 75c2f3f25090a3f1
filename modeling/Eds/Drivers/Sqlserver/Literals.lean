import Eds.Drivers.Sqlserver.Lexing
import Eds.Lexing.JsonText
import Eds.Util.Reproduce

/-!
# SQL Server literals

The server reads a doubled quote back and keeps every backslash, so that a string is stored as
it is if none of its characters is written with one.  The text of a list or an object with a
string in it, or a key, gets a backslash in front of its first quote, where no JSON text has one.
-/

namespace Eds
namespace Drivers
namespace Sqlserver

open Util Lexing Lexing.Json Collections

theorem quote_not_mem_storedChar {c : Char} (hc : c ≠ '"') : '"' ∉ storedChar c := by
  unfold storedChar escapeChar
  split_ifs
  all_goals simp_all [eq_comm]

theorem stored_cons (c : Char) (s : List Char) : stored (c :: s) = storedChar c ++ stored s := rfl

/-- What is stored has a backslash in front of the first quote. -/
theorem not_unslashed_stored {s : List Char} (h : '"' ∈ s) : ¬ Unslashed (stored s) := by
  induction s with
  | nil => cases h
  | cons c s ih =>
    rw [stored_cons]
    by_cases hc : c = '"'
    · subst hc
      exact fun hunslashed => hunslashed List.mem_cons_self
    · have hmem : '"' ∈ s := (List.mem_cons.mp h).resolve_left fun heq => hc heq.symm
      have hplain : ∀ d ∈ storedChar c, (d != '"') = true := fun d hd => by
        rw [bne_iff_ne]
        exact fun heq => quote_not_mem_storedChar hc (heq ▸ hd)
      intro hunslashed
      refine ih hmem fun hslash => hunslashed ?_
      rw [List.takeWhile_append_of_pos hplain]
      exact List.mem_append_right _ hslash

theorem isBackslashed_of_isUnquotedChar {c : Char} (hc : isUnquotedChar c = true) : isBackslashed c = false := by
  by_contra h
  have hslashed : isBackslashed c = true := by
    rw [← Bool.not_eq_false]
    exact h
  simp only [isBackslashed, Bool.or_eq_true, beq_iff_eq, or_assoc] at hslashed
  rcases hslashed with rfl | rfl | rfl | rfl | rfl | rfl <;> cases hc

/-- Of what is stored for a list or an object the reader makes the value again if the value is
finite and there is neither a string in it nor a key. -/
theorem parse_stored_iff {v : Json} (hprinted : Printed v) :
    (∃ t, parse (stored (stringify v).toList) = some t ∧ Reproduces v t) ↔ Unquoted v ∧ Finite v := by
  constructor
  · rintro ⟨t, hparse, -⟩
    unfold stringify at hparse
    split at hparse
    · next text htext =>
      refine ⟨unquoted_of_marshal v text htext fun hquote => ?_, finite_of_marshalWith true v text htext⟩
      exact not_unslashed_stored hquote (unslashed_of_parse hparse)
    · cases hparse
  · rintro ⟨hunquoted, hfinite⟩
    obtain ⟨text, t, htext, hreads, hreproduces⟩ := reads_marshal v hprinted hfinite
    have hstored : stored text.toList = text.toList := (stored_eq_iff _).mpr fun c hc =>
      isBackslashed_of_isUnquotedChar (unquotedChars_marshal v text htext hprinted hunquoted c hc)
    refine ⟨t, ?_, hreproduces⟩
    rw [stringify, htext, hstored]
    exact hreads.parse

/-- The value is one literal, and the server stores the text with its backslashes. -/
def StoredAs (v : Json) (text : String) : Prop :=
  ∃ literal, quoteValue v = .ok literal ∧
    Tsql.read literal = some [.literal (stored text.toList)]

theorem quoteValue_stored :
    (∀ s, stamp? s = none → StoredAs (.str s) s ∧
      (stored s.toList = s.toList ↔ ∀ c ∈ s.toList, isBackslashed c = false)) ∧
    (∀ vs, StoredAs (.arr vs) (stringify (.arr vs))) ∧
    (∀ fields, StoredAs (.obj fields) (stringify (.obj fields))) ∧
    ∀ v, Printed v →
      ((∃ t, parse (stored (stringify v).toList) = some t ∧ Reproduces v t) ↔ Unquoted v ∧ Finite v) := by
  refine ⟨fun s hs => ⟨⟨_, ?_, read_escaped s⟩, stored_eq_iff _⟩, fun vs => ⟨_, rfl, read_escaped _⟩,
    fun fields => ⟨_, rfl, read_escaped _⟩, fun v hv => parse_stored_iff hv⟩
  rw [quoteValue, quoteStringValue, hs]

theorem printed_small : printed (.float "2.5e-07") := by
  have hexponent : IsExponentText ['e', '-', '0', '7'] :=
    .inr ⟨['-'], [0, 7], rfl, .inr (.inr rfl), List.cons_ne_nil _ _⟩
  exact fun _ => ⟨⟨false, [2], [5], _, .inr ⟨2, [], rfl, by decide⟩, hexponent⟩, rfl⟩

theorem quoteValue_stored_small :
    StoredAs (.str "it's") "it's" ∧
      ∃ t, parse (stored (stringify (.arr [.float "2.5e-07", .bool true])).toList) = some t ∧
        Reproduces (.arr [.float "2.5e-07", .bool true]) t := by
  have hprinted : Printed (.arr [.float "2.5e-07", .bool true]) := ⟨printed_small, trivial, trivial⟩
  have hunquoted : Unquoted (.arr [.float "2.5e-07", .bool true]) := ⟨trivial, trivial, trivial⟩
  have hfinite : Finite (.arr [.float "2.5e-07", .bool true]) := ⟨rfl, trivial, trivial⟩
  exact ⟨(quoteValue_stored.1 "it's" (by decide)).1,
    (quoteValue_stored.2.2.2 _ hprinted).mpr ⟨hunquoted, hfinite⟩⟩

/-- A quote is stored with a backslash, and so are the quotes around a string in a list. -/
theorem quoteValue_quote :
    stamp? "\"" = none ∧ quoteValue (.str "\"") = .ok "'\\\"'" ∧
      Tsql.read "'\\\"'" = some [.literal ['\\', '"']] ∧
      quoteValue (.arr [.str "a"]) = .ok "'[\\\"a\\\"]'" ∧
      Tsql.read "'[\\\"a\\\"]'" = some [.literal ['[', '\\', '"', 'a', '\\', '"', ']']] ∧
      parse ['[', '\\', '"', 'a', '\\', '"', ']'] = none := by
  decide

end Sqlserver
end Drivers
end Eds
