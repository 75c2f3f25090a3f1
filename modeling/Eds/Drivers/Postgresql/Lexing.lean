import Eds.Drivers.Postgresql.Sql
import Eds.Drivers.Lexing

/-!
# PostgreSQL strings as the server reads them

A backslash is an ordinary character.  Nothing is escaped between dollar quotes, so
that a text which holds the closing tag ends early, and so does a text that ends with
all of the tag but its last character.
-/

namespace Eds
namespace Drivers
namespace Postgresql

open Util Lexing Lexing.Dialect

def dialect : Dialect where
  literals := ['\'']
  identifiers := ['"']
  escape := none
  dollars := true
  comments := false

/-- The text without its NULs. -/
def stripped (s : String) : List Char := s.toList.filter (· ≠ '\x00')

def tagName : List Char := ['_', 'H', '_']

/-- All of the tag but its last character. -/
def tagStart : List Char := ['$', '_', 'H', '_']

theorem dollarTag_tagName : dollarTag tagName = tagStart ++ ['$'] := rfl

/-- The tag overlaps itself in one character only. -/
theorem tag_infix_append_tagStart (t : List Char) :
    dollarTag tagName <:+: t ++ tagStart ↔ dollarTag tagName <:+: t ∨ tagStart <:+ t := by
  constructor
  · intro h
    obtain ⟨before, after, heq⟩ := h
    rcases List.append_eq_append_iff.mp heq with ⟨more, ht, _⟩ | ⟨part, hbefore, hpart⟩
    · exact .inl ⟨before, more, ht.symm⟩
    · by_cases hnil : part = []
      · rw [hnil, List.append_nil] at hbefore
        exact .inl ⟨before, [], by rw [List.append_nil, hbefore]⟩
      · have hlast : part.getLast? = some '$' := by
          have hboth := congrArg List.getLast? hbefore
          rw [List.getLast?_append, List.getLast?_append_of_ne_nil _ hnil] at hboth
          exact hboth.symm
        -- of the parts of the tag only the first character is a dollar
        match part, hpart with
        | [c], _ =>
          rw [dollarTag_tagName, ← List.append_assoc] at hbefore
          exact .inr ⟨before, (List.append_inj' hbefore rfl).1⟩
        | [_, d], hpart => cases hpart; cases hlast
        | [_, _, d], hpart => cases hpart; cases hlast
        | [_, _, _, d], hpart => cases hpart; cases hlast
  · intro h
    rcases h with h | h
    · exact h.trans (List.prefix_append t tagStart).isInfix
    · obtain ⟨before, rfl⟩ := h
      exact ⟨before, ['_', 'H', '_'], by simp [dollarTag_tagName, tagStart]⟩

theorem quoteString_toList (s : String) : (quoteString s).toList =
    if (stripped s).all isSafe then enclose '\'' (stripped s)
    else dollarTag tagName ++ (stripped s ++ dollarTag tagName) := by
  have hstripped : (String.ofList (stripped s)).toList = stripped s := String.toList_ofList
  have hquote : quoteString s =
      if (String.ofList (stripped s)).toList.all isSafe then "'" ++ String.ofList (stripped s) ++ "'"
      else "$_H_$" ++ String.ofList (stripped s) ++ "$_H_$" := rfl
  rw [hquote, hstripped]
  split
  · rw [String.toList_append, String.toList_append, hstripped, List.append_assoc]
    rfl
  · rw [String.toList_append, String.toList_append, hstripped, List.append_assoc]
    rfl

theorem not_isSafe_quote : isSafe '\'' = false := by
  rw [isSafe, String.contains_char_eq]
  decide

theorem read_safe {t : List Char} (h : t.all isSafe = true) :
    dialect.lexer.read (enclose '\'' t) = some [.literal t] := by
  have hbody : dialect.Body '\'' t t := by
    refine Body.verbatim (fun hmem => ?_) (.inl rfl)
    have hsafe := List.all_eq_true.mp h _ hmem
    rw [not_isSafe_quote] at hsafe
    cases hsafe
  exact (hbody.readsApart rfl).read_eq

theorem passes_open : dialect.lexer.Passes .plain (dollarTag tagName) (.dollar tagName []) [] :=
  passes_cons rfl (passes_cons rfl (passes_cons rfl (passes_cons rfl (passes_single rfl))))

/-- Between dollar quotes the text is read up to the first closing tag. -/
theorem read_dollar_iff (t : List Char) :
    dialect.lexer.read (dollarTag tagName ++ (t ++ dollarTag tagName)) = some [.literal t] ↔
      ¬ dollarTag tagName <:+: t ∧ ¬ tagStart <:+ t := by
  rw [← not_or, ← tag_infix_append_tagStart, ← unclosed_iff]
  have htext : t ++ dollarTag tagName = (t ++ tagStart) ++ ['$'] := by
    rw [dollarTag_tagName, List.append_assoc]
  constructor
  · intro hread
    by_contra hclosed
    obtain ⟨part, c, rest, hpart, hunclosed, hclose⟩ := exists_first_close hclosed
    rw [List.nil_append] at hclose
    have hpass := passes_open.append (passes_dollar_close (D := dialect) hunclosed hclose)
    have hall : dollarTag tagName ++ (t ++ dollarTag tagName) =
        (dollarTag tagName ++ (part ++ [c])) ++ (rest ++ ['$']) := by
      rw [htext, hpart]
      simp
    rw [hall, Transducer.read, show dialect.lexer.start = .plain from rfl, hpass] at hread
    obtain ⟨more, _, hmore⟩ := Option.map_eq_some_iff.mp hread
    have hvalue : (part ++ [c]).take ((part ++ [c]).length - (dollarTag tagName).length) = t :=
      Token.literal.inj (List.cons.inj hmore).1
    -- the literal that was read is shorter than the text
    have hlength := congrArg List.length hpart
    have hshort := congrArg List.length hvalue
    have hlong := hclose.length_le
    simp only [List.length_append, List.length_cons, List.length_nil, List.length_take, tagStart,
      dollarTag, tagName] at hlength hshort hlong
    omega
  · intro hunclosed
    have hclose : dollarTag tagName <:+ t ++ tagStart ++ ['$'] := by
      rw [← htext]
      exact List.suffix_append _ _
    have hpass := passes_open.append (passes_dollar_close (D := dialect) hunclosed hclose)
    rw [← htext] at hpass
    rw [Transducer.read]
    refine hpass.readFrom_eq.trans ?_
    simp [lexer, finish]

/-- The string is read as one literal exactly if it is in single quotes, or it neither
holds the tag nor ends with the start of it. -/
theorem quoteString_faithful_iff (s : String) :
    dialect.read (quoteString s) = some [.literal (stripped s)] ↔
      (stripped s).all isSafe = true ∨
        (¬ dollarTag tagName <:+: stripped s ∧ ¬ tagStart <:+ stripped s) := by
  rw [Dialect.read, quoteString_toList]
  split
  next hsafe => exact iff_of_true (read_safe hsafe) (.inl hsafe)
  next hsafe => rw [read_dollar_iff, or_iff_right hsafe]

/-- A tag in the text ends the literal, and a statement ends after it. -/
theorem quoteString_injected :
    dialect.read (quoteString "'$_H_$;$_H_$") = some [.literal ['\''], .semicolon, .literal []] ∧
      ¬ ∀ s, dialect.read (quoteString s) = some [.literal (stripped s)] := by
  have hread : dialect.read (quoteString "'$_H_$;$_H_$") =
      some [.literal ['\''], .semicolon, .literal []] := by
    have hsafe : (stripped "'$_H_$;$_H_$").all isSafe = false := by
      rw [show stripped "'$_H_$;$_H_$" = '\'' :: "$_H_$;$_H_$".toList by rfl, List.all_cons,
        not_isSafe_quote]
      rfl
    rw [Dialect.read, quoteString_toList, hsafe]
    decide
  refine ⟨hread, fun h => ?_⟩
  have hone := h "'$_H_$;$_H_$"
  rw [hread] at hone
  cases hone

end Postgresql
end Drivers
end Eds
