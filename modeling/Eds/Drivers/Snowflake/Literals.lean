import Eds.Drivers.Snowflake.Lexing

/-!
# Snowflake literals

A backslash starts an escape in a literal.  Of the escapes nothing is known here but that
two backslashes stand for one.  The text `NULL` is written as it is, and is no literal.
-/

namespace Eds
namespace Drivers
namespace Snowflake

open Util Lexing Lexing.Dialect

/-- The server, given what it takes its escapes for. -/
def reader (unescape : Char → List Char) : Dialect := { dialect with escape := some unescape }

/-- One token, perhaps the argument of a function. -/
def called (fn : String) (t : Token) : List Token :=
  if fn = "" then [t] else fn.toList.map .other ++ [.other '(', t, .other ')']

/-- A list or an object. -/
def isStructured : Json → Bool
  | .arr _ | .obj _ => true
  | _ => false

variable {unescape : Char → List Char} {fn : String}

theorem reads_quoted (h : unescape '\\' = ['\\']) (s : String) :
    (reader unescape).ReadsApart ("'" ++ String.join (s.toList.map escape) ++ "'").toList
      [.literal s.toList] := by
  have hbody : (reader unescape).Body '\'' (String.join (s.toList.map escape)).toList s.toList :=
    body_escaped rfl h s
  rw [String.toList_append, String.toList_append, List.append_assoc]
  exact hbody.readsApart rfl

/-- A function takes what it is called with as its argument. -/
theorem reads_wrap {text : String} {t : Token} (hfn : Callable fn)
    (h : (reader unescape).ReadsApart text.toList [t]) :
    (reader unescape).read (wrap fn text) = some (called fn t) := by
  unfold wrap called
  split
  · exact h.read_eq
  · have hname : (reader unescape).Reads fn.toList (fn.toList.map .other) := Reads.inert hfn
    have hopen : (reader unescape).Reads ['('] [.other '('] := Reads.inert rfl
    have hclose : (reader unescape).Reads [')'] [.other ')'] := Reads.inert rfl
    have hargument : (reader unescape).Reads (text.toList ++ [')']) ([t] ++ [.other ')']) :=
      h.append_reads hclose (List.cons_ne_nil _ _) fun c hc => by
        cases hc
        rfl
    have hall := (hname.append (hopen.append hargument)).apart.read_eq
    rw [Dialect.read, String.toList_append, String.toList_append, String.toList_append,
      List.append_assoc, List.append_assoc]
    exact hall

theorem read_quoteString (h : unescape '\\' = ['\\']) (hfn : Callable fn) {s : String}
    (hs : s ≠ "NULL") :
    (reader unescape).read (quoteString s fn) = some (called fn (.literal s.toList)) := by
  rw [quoteString, if_neg hs]
  exact reads_wrap hfn (reads_quoted h s)

theorem quoteString_eq_null {s : String} : quoteString s fn = "NULL" ↔ s = "NULL" := by
  constructor
  · intro h
    by_contra hs
    rw [quoteString, if_neg hs, wrap] at h
    have hlast := congrArg (fun text => text.toList.getLast?) h
    have hnull : "NULL".toList.getLast? = some 'L' := rfl
    split at hlast
    · rw [String.toList_append, List.getLast?_append, hnull] at hlast
      cases hlast
    · rw [String.toList_append, List.getLast?_append, hnull] at hlast
      cases hlast
  · intro h
    rw [quoteString, if_pos h]

/-- The text of a list or an object starts with its bracket, or is empty. -/
theorem stringify_head {v : Json} (hv : isStructured v = true) :
    stringify v = "" ∨ ∃ rest, stringify v = "[" ++ rest ∨ stringify v = "\x7b" ++ rest := by
  cases v with
  | arr vs =>
    rw [stringify, marshal, marshalWith]
    cases marshalItemsWith true vs with
    | error e => exact .inl rfl
    | ok parts => exact .inr ⟨commas parts ++ "]", .inl (String.append_assoc ..)⟩
  | obj fields =>
    rw [stringify, marshal, marshalWith]
    cases marshalFieldsWith true fields with
    | error e => exact .inl rfl
    | ok parts => exact .inr ⟨_ ++ "\x7d", .inr (String.append_assoc ..)⟩
  | _ => cases hv

theorem stringify_ne_null {v : Json} (hv : isStructured v = true) : stringify v ≠ "NULL" := by
  intro h
  rcases stringify_head hv with hempty | ⟨rest, hlist | hobject⟩
  · rw [hempty] at h
    exact absurd h (by decide)
  · rw [hlist] at h
    have hhead := congrArg (fun text => text.toList.head?) h
    rw [String.toList_append] at hhead
    cases hhead
  · rw [hobject] at h
    have hhead := congrArg (fun text => text.toList.head?) h
    rw [String.toList_append] at hhead
    cases hhead

theorem quoteValue_structured {v : Json} (hv : isStructured v = true) (fn : String) :
    quoteValue v fn = quoteString (stringify v) fn := by
  cases v with
  | arr vs => rfl
  | obj fields => rfl
  | _ => cases hv

/-- A string is one literal unless it is `NULL`, which is the null itself.  A list or an object
is one literal, and so is what the function is called with. -/
theorem quoteValue_faithful (h : unescape '\\' = ['\\']) :
    (∀ s, s ≠ "NULL" → (reader unescape).read (quoteValue (.str s) "") = some [.literal s.toList]) ∧
    (∀ v fn, isStructured v = true → ∃ argument, quoteValue v fn = wrap fn argument ∧
      (reader unescape).read argument = some [.literal (stringify v).toList] ∧
      (Callable fn → (reader unescape).read (quoteValue v fn) =
        some (called fn (.literal (stringify v).toList)))) ∧
    ∀ s fn, quoteValue (.str s) fn = "NULL" ↔ s = "NULL" := by
  refine ⟨fun s hs => read_quoteString h callable_none hs, fun v fn hv => ?_,
    fun s fn => quoteString_eq_null⟩
  have hnull := stringify_ne_null hv
  rw [quoteValue_structured hv]
  refine ⟨"'" ++ String.join ((stringify v).toList.map escape) ++ "'", ?_, ?_, ?_⟩
  · rw [quoteString, if_neg hnull]
  · exact (reads_quoted h _).read_eq
  · exact fun hfn => read_quoteString h hfn hnull

/-- Some of the escapes of the server. -/
def unescapeControl (c : Char) : List Char :=
  if c = 'n' then ['\n'] else if c = 't' then ['\t'] else if c = 'r' then ['\r']
  else if c = '0' then ['\x00'] else [c]

theorem quoteValue_faithful_control :
    (reader unescapeControl).read (quoteValue (.str "a\\n'b") "") =
        some [.literal "a\\n'b".toList] ∧
      (reader unescapeControl).read (quoteValue (.arr [.str "NULL"]) "PARSE_JSON") =
        some (called "PARSE_JSON" (.literal (stringify (.arr [.str "NULL"])).toList)) :=
  have hall := quoteValue_faithful (show unescapeControl '\\' = ['\\'] from rfl)
  have ⟨_, _, _, hcalled⟩ := hall.2.1 (.arr [.str "NULL"]) "PARSE_JSON" rfl
  ⟨hall.1 "a\\n'b" (by decide), hcalled rfl⟩

/-- The row that is deleted for the id `NULL` is the one whose id is null. -/
theorem quoteValue_null :
    (reader unescapeControl).read (quoteValue (.str "NULL") "") = some ("NULL".toList.map .other) ∧
      (toDeleteSql ⟨"user", "NULL", "DELETE", none, none, none⟩).render =
        "DELETE FROM \"user\" WHERE \"id\"=NULL;\n" :=
  have hword : (reader unescapeControl).Reads "NULL".toList ("NULL".toList.map .other) :=
    Reads.inert rfl
  ⟨hword.apart.read_eq, by decide⟩

end Snowflake
end Drivers
end Eds
