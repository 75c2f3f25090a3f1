import Eds.Lexing.Cut

/-!
# The arguments that the server forwards

The consumer is started with the arguments of the server less the server's own.
`collect_command_args` looks at one token after the other, without the parser: a token that names
an ignored flag is dropped, and the token behind it is dropped whatever it is.

If the value of the flag is written behind it, this drops the flag and its value.  A flag that is
alone in its token takes the first token of the next argument with it, and if that is a flag with a
value, the value is forwarded without the flag.  So what is forwarded are the arguments that are not
ignored if and only if such flags come in pairs (`collectCommandArgs_eq_forwarded_iff`).
-/

namespace Eds
namespace Server

open Lexing

/-! ## The filter -/

def serverIgnoreFlags : List String :=
  ["--api-url", "--api-key", "--eds-id", "--silent", "--port", "--health-port", "--renew-interval",
    "--wrapper", "--parent", "--url", "--server", "--keep-logs", "--no-restart", "--mode"]

/-- `arg.split("=")[0]` -/
def flagName (arg : String) : String := String.ofList (partition '=' arg.toList).1

/-- The loop, from a value of `skipping` on. -/
def collectFrom : Bool → List String → List String
  | _, [] => []
  | true, _ :: args => collectFrom false args
  | false, arg :: args =>
    if flagName arg ∈ serverIgnoreFlags then collectFrom true args
    else arg :: collectFrom false args

def collectCommandArgs (args : List String) : List String := collectFrom false args

/-! ## The parser -/

structure Flag where
  names : List String
  takesValue : Bool

/-- The flags of `server`: its own, those of every command and those of the consumer.  `--help`
ends the program and is left out. -/
def serverFlags : List Flag :=
  [⟨["-v", "--verbose"], false⟩, ⟨["-s", "--silent"], false⟩, ⟨["-t", "--timestamp"], false⟩,
    ⟨["--log-file-sink"], true⟩, ⟨["--log-label"], true⟩, ⟨["--schema-validator"], true⟩,
    ⟨["-d", "--data-dir"], true⟩, ⟨["--url"], true⟩, ⟨["--api-key"], true⟩, ⟨["--port"], true⟩,
    ⟨["--eds-id"], true⟩, ⟨["--keep-logs"], false⟩, ⟨["--mode"], true⟩, ⟨["--health-port"], true⟩,
    ⟨["--api-url"], true⟩, ⟨["--server"], true⟩, ⟨["--renew-interval"], true⟩,
    ⟨["--wrapper"], false⟩, ⟨["--parent"], true⟩, ⟨["--no-restart"], false⟩,
    ⟨["--consumer-suffix"], true⟩, ⟨["--maxAckPending"], true⟩, ⟨["--maxPendingBuffer"], true⟩,
    ⟨["--minPendingLatency"], true⟩, ⟨["--maxPendingLatency"], true⟩, ⟨["--restart"], false⟩,
    ⟨["--companyIds"], true⟩]

/-- Whether the flag of the name takes a value, if there is one. -/
def takesValue? (name : String) : Option Bool :=
  (serverFlags.find? fun f => f.names.contains name).map Flag.takesValue

/-- What a token is taken for: the name of a flag, perhaps with a value behind `=`. -/
inductive Token where
  | positional
  | flag (name : String) (takesValue : Bool) (explicit : Option String)
  | other
  deriving DecidableEq

section Parser

variable (negativeNumber : String → Bool)

/-- Short flags that share a dash are `other`. -/
def isCluster : List Char → Bool
  | '-' :: c :: _ => c ≠ '-' && (takesValue? (String.ofList ['-', c])).isSome
  | _ => false

/-- `--flag=value` -/
def explicit? (arg : String) : Option Token :=
  match partition '=' arg.toList with
  | (name, true, value) =>
    (takesValue? (String.ofList name)).map fun takesValue =>
      .flag (String.ofList name) takesValue (some (String.ofList value))
  | _ => none

/-- `_parse_optional`; `negativeNumber` is the pattern of negative numbers. -/
def parseOptional (arg : String) : Token :=
  match arg.toList with
  | '-' :: rest =>
    match takesValue? arg with
    | some takesValue => .flag arg takesValue none
    | none =>
      if rest = [] then .positional
      else match explicit? arg with
        | some token => token
        | none =>
          if isCluster arg.toList = true then .other
          else if negativeNumber arg = true ∨ ' ' ∈ arg.toList then .positional
          else .other
  | _ => .positional

/-- One argument: a boolean flag, a flag with its value behind it, or `--flag=value`. -/
inductive Argument where
  | switch (name : String)
  | separate (name value : String)
  | joined (name value : String)
  deriving DecidableEq

def Argument.name : Argument → String
  | switch name | separate name _ | joined name _ => name

def Argument.tokens : Argument → List String
  | switch name => [name]
  | separate name value => [name, value]
  | joined name value => [String.ofList (name.toList ++ '=' :: value.toList)]

/-- What the parser makes of a list, if it accepts it.  The values are not read any further, so
that this accepts more than `argparse` does. -/
def readArguments : List String → Option (List Argument)
  | [] => some []
  | arg :: rest =>
    match parseOptional negativeNumber arg with
    | .flag name false none => (readArguments rest).map (.switch name :: ·)
    | .flag name true (some value) => (readArguments rest).map (.joined name value :: ·)
    | .flag name true none =>
      match rest with
      | [] => none
      | value :: rest =>
        if parseOptional negativeNumber value = .positional then
          (readArguments rest).map (.separate name value :: ·)
        else none
    | _ => none

/-! ## What is forwarded -/

def Argument.isIgnored (a : Argument) : Bool := decide (a.name ∈ serverIgnoreFlags)

/-- The arguments that are not ignored. -/
def forwarded (args : List Argument) : List String :=
  (args.filter fun a => !a.isIgnored).flatMap Argument.tokens

/-- The flag is alone in its token. -/
def Argument.isBare : Argument → Bool
  | switch _ | joined _ _ => true
  | separate _ _ => false

/-- What is left of the arguments; the first token of the first one is skipped or not. -/
def survivors : Bool → List Argument → List String
  | _, [] => []
  | true, a :: rest => a.tokens.tail ++ survivors false rest
  | false, a :: rest =>
    if a.isIgnored = true then survivors a.isBare rest else a.tokens ++ survivors false rest

def Argument.isLone (a : Argument) : Bool := a.isIgnored && a.isBare

/-- The ignored flags that are alone in their tokens come in pairs, except at the end. -/
def Paired : List Argument → Prop
  | [] | [_] => True
  | a :: b :: rest => if a.isLone = true then b.isLone = true ∧ Paired rest else Paired (b :: rest)

instance decidablePaired : (args : List Argument) → Decidable (Paired args)
  | [] | [_] => isTrue trivial
  | a :: b :: rest =>
    have := decidablePaired rest
    have := decidablePaired (b :: rest)
    inferInstanceAs (Decidable (if a.isLone = true then b.isLone = true ∧ Paired rest
      else Paired (b :: rest)))

/-! ## Tokens -/

theorem names_wellFormed : ∀ f ∈ serverFlags, ∀ name ∈ f.names, '=' ∉ name.toList := by
  decide

theorem notMem_of_takesValue {name : String} {b : Bool} (h : takesValue? name = some b) :
    '=' ∉ name.toList := by
  rw [takesValue?, Option.map_eq_some_iff] at h
  obtain ⟨f, hf, -⟩ := h
  have hname : f.names.contains name = true := by simpa using List.find?_some hf
  exact names_wellFormed f (List.mem_of_find?_eq_some hf) name (List.contains_iff_mem.mp hname)

theorem ignored_wellFormed : ∀ name ∈ serverIgnoreFlags, (takesValue? name).isSome = true ∧
    name.toList.head? = some '-' ∧ name.toList.tail ≠ [] := by
  decide

theorem ignored_takesValue {name : String} (h : name ∈ serverIgnoreFlags) :
    (takesValue? name).isSome = true ∧ ∃ rest, name.toList = '-' :: rest ∧ rest ≠ [] := by
  obtain ⟨htakes, hhead, htail⟩ := ignored_wellFormed name h
  exact ⟨htakes, _, List.eq_cons_of_mem_head? hhead, htail⟩

theorem flagName_self {name : String} (hname : '=' ∉ name.toList) : flagName name = name := by
  rw [flagName, partition_of_notMem hname, String.ofList_toList]

theorem flagName_joined {name value : List Char} (hname : '=' ∉ name) :
    flagName (String.ofList (name ++ '=' :: value)) = String.ofList name := by
  rw [flagName, String.toList_ofList, partition_append hname]

theorem eq_of_explicit {arg : String} {token : Token} (h : explicit? arg = some token) :
    ∃ name b value, token = .flag name b (some value) ∧ takesValue? name = some b ∧
      arg = String.ofList (name.toList ++ '=' :: value.toList) := by
  unfold explicit? at h
  split at h
  · next name value hcut =>
    rw [Option.map_eq_some_iff] at h
    obtain ⟨b, hb, rfl⟩ := h
    have htext := (eq_of_partition hcut).1
    refine ⟨_, b, _, rfl, hb, ?_⟩
    rw [String.toList_ofList, String.toList_ofList, ← htext, String.ofList_toList]
  · cases h

/-- A token that is a flag spells an argument: the name is looked up, and the value is behind
`=` if there is one. -/
theorem eq_of_parseOptional {arg name : String} {b : Bool} {explicit : Option String}
    (h : parseOptional negativeNumber arg = .flag name b explicit) :
    takesValue? name = some b ∧
      match explicit with
      | none => arg = name
      | some value => arg = String.ofList (name.toList ++ '=' :: value.toList) := by
  unfold parseOptional at h
  split at h
  · split at h
    · next b' hb =>
      cases h
      exact ⟨hb, rfl⟩
    · split at h
      · cases h
      split at h
      · next token htoken =>
        obtain ⟨name', b', value, rfl, hb, hvalue⟩ := eq_of_explicit htoken
        cases h
        exact ⟨hb, hvalue⟩
      · split at h
        · cases h
        split at h <;> cases h
  · cases h

theorem parseOptional_ne_positional {arg : String} {rest : List Char}
    (htext : arg.toList = '-' :: rest) (hrest : rest ≠ [])
    (h : (takesValue? arg).isSome = true ∨ (explicit? arg).isSome = true) :
    parseOptional negativeNumber arg ≠ .positional := by
  unfold parseOptional
  rw [htext]
  cases hname : takesValue? arg with
  | some b => exact nofun
  | none =>
    rw [hname] at h
    obtain ⟨token, htoken⟩ := Option.isSome_iff_exists.mp (h.resolve_left Bool.false_ne_true)
    obtain ⟨name, b, value, rfl, -, -⟩ := eq_of_explicit htoken
    rw [htoken]
    show (if rest = [] then Token.positional else Token.flag name b (some value)) ≠ _
    rw [if_neg hrest]
    exact nofun

/-- A token that names an ignored flag is not taken for a value. -/
theorem flagName_notMem_of_positional {arg : String}
    (h : parseOptional negativeNumber arg = .positional) : flagName arg ∉ serverIgnoreFlags := by
  intro hmem
  obtain ⟨htakes, rest, hname, hrest⟩ := ignored_takesValue hmem
  by_cases hequals : '=' ∈ arg.toList
  · obtain ⟨name, value, htext, hnotMem⟩ := List.eq_append_cons_of_mem hequals
    have hcut : partition '=' arg.toList = (name, true, value) := by
      rw [htext, partition_append hnotMem]
    rw [flagName, hcut] at hname htakes
    dsimp only at hname htakes
    have hexplicit : (explicit? arg).isSome = true := by
      rw [explicit?, hcut]
      dsimp only
      rw [Option.isSome_map]
      exact htakes
    rw [String.toList_ofList] at hname
    rw [hname] at htext
    exact parseOptional_ne_positional negativeNumber htext
      (fun hnil => hrest (List.append_eq_nil_iff.mp hnil).1) (Or.inr hexplicit) h
  · rw [flagName_self hequals] at hname htakes
    exact parseOptional_ne_positional negativeNumber hname hrest (Or.inl htakes) h

/-! ## The arguments that are read -/

/-- The first token of the argument names its flag and is not taken for a value; the one behind it
is taken for one. -/
def Argument.Spelled (a : Argument) : Prop :=
  ∃ t, parseOptional negativeNumber t ≠ .positional ∧ flagName t = a.name ∧
    (a.isBare = true ∧ a.tokens = [t] ∨ a.isBare = false ∧ ∃ value, a.tokens = [t, value] ∧
      parseOptional negativeNumber value = .positional)

variable {negativeNumber}

theorem ne_positional_of_flag {arg name : String} {b : Bool} {explicit : Option String}
    (h : parseOptional negativeNumber arg = .flag name b explicit) :
    parseOptional negativeNumber arg ≠ .positional := by
  rw [h]
  exact nofun

theorem spelled_switch {arg name : String} (h : parseOptional negativeNumber arg = .flag name false none) :
    (Argument.switch name).tokens = [arg] ∧ (Argument.switch name).Spelled negativeNumber := by
  obtain ⟨hname, heq⟩ := eq_of_parseOptional negativeNumber h
  have heq : arg = name := heq
  subst heq
  exact ⟨rfl, arg, ne_positional_of_flag h, flagName_self (notMem_of_takesValue hname),
    Or.inl ⟨rfl, rfl⟩⟩

theorem spelled_separate {arg name value : String}
    (h : parseOptional negativeNumber arg = .flag name true none)
    (hvalue : parseOptional negativeNumber value = .positional) :
    (Argument.separate name value).tokens = [arg, value] ∧
      (Argument.separate name value).Spelled negativeNumber := by
  obtain ⟨hname, heq⟩ := eq_of_parseOptional negativeNumber h
  have heq : arg = name := heq
  subst heq
  exact ⟨rfl, arg, ne_positional_of_flag h, flagName_self (notMem_of_takesValue hname),
    Or.inr ⟨rfl, value, rfl, hvalue⟩⟩

theorem spelled_joined {arg name value : String}
    (h : parseOptional negativeNumber arg = .flag name true (some value)) :
    (Argument.joined name value).tokens = [arg] ∧
      (Argument.joined name value).Spelled negativeNumber := by
  obtain ⟨hname, heq⟩ := eq_of_parseOptional negativeNumber h
  have heq : arg = String.ofList (name.toList ++ '=' :: value.toList) := heq
  subst heq
  have hflag : flagName (String.ofList (name.toList ++ '=' :: value.toList)) = name :=
    (flagName_joined (notMem_of_takesValue hname)).trans String.ofList_toList
  exact ⟨rfl, _, ne_positional_of_flag h, hflag, Or.inl ⟨rfl, rfl⟩⟩

/-- The arguments spell the tokens, in order. -/
def Spells (negativeNumber : String → Bool) (args : List Argument) (tokens : List String) : Prop :=
  args.flatMap Argument.tokens = tokens ∧ ∀ a ∈ args, a.Spelled negativeNumber

theorem Spells.cons {a : Argument} {first : List String}
    (ha : a.tokens = first ∧ a.Spelled negativeNumber) {read : Option (List Argument)}
    {rest : List String} (hrest : ∀ {args}, read = some args → Spells negativeNumber args rest)
    {args : List Argument} (h : read.map (a :: ·) = some args) :
    Spells negativeNumber args (first ++ rest) := by
  rw [Option.map_eq_some_iff] at h
  obtain ⟨args', hread, rfl⟩ := h
  obtain ⟨htokens, hspelled⟩ := hrest hread
  refine ⟨?_, List.forall_mem_cons.mpr ⟨ha.2, hspelled⟩⟩
  rw [List.flatMap_cons, htokens, ha.1]

theorem readArguments_spells {tokens : List String} {args : List Argument}
    (h : readArguments negativeNumber tokens = some args) : Spells negativeNumber args tokens := by
  fun_induction readArguments negativeNumber tokens generalizing args with
  | case1 =>
    cases h
    exact ⟨rfl, List.forall_mem_nil _⟩
  | case2 arg rest name hname ih => exact Spells.cons (spelled_switch hname) ih h
  | case3 arg rest name value hname ih => exact Spells.cons (spelled_joined hname) ih h
  | case5 arg name hname value rest hvalue ih =>
    exact Spells.cons (spelled_separate hname hvalue) ih h
  | _ => cases h

/-! ## One argument after the other -/

theorem collectFrom_spells {args : List Argument} {tokens : List String}
    (h : Spells negativeNumber args tokens) (skipping : Bool) :
    collectFrom skipping tokens = survivors skipping args := by
  obtain ⟨rfl, hspelled⟩ := h
  induction args generalizing skipping with
  | nil => cases skipping <;> rfl
  | cons a rest ih =>
    obtain ⟨ha, hrest⟩ := List.forall_mem_cons.mp hspelled
    obtain ⟨t, -, hname, htokens⟩ := ha
    have hignored : a.isIgnored = true ↔ flagName t ∈ serverIgnoreFlags := by
      rw [Argument.isIgnored, decide_eq_true_iff, hname]
    rw [List.flatMap_cons]
    rcases htokens with ⟨hbare, htokens⟩ | ⟨hbare, value, htokens, hvalue⟩
    · cases skipping with
      | true => rw [htokens, survivors, htokens]; exact ih false hrest
      | false =>
        rw [htokens, survivors, htokens, hbare, List.singleton_append, collectFrom]
        by_cases hmem : flagName t ∈ serverIgnoreFlags
        · rw [if_pos hmem, if_pos (hignored.mpr hmem), ih _ hrest]
        · rw [if_neg hmem, if_neg (mt hignored.mp hmem), ih _ hrest]
          rfl
    · have hkept := flagName_notMem_of_positional negativeNumber hvalue
      cases skipping with
      | true =>
        rw [htokens, survivors, htokens, List.cons_append, collectFrom, List.singleton_append,
          collectFrom, if_neg hkept, ih _ hrest]
        rfl
      | false =>
        rw [htokens, survivors, htokens, hbare, List.cons_append, collectFrom]
        by_cases hmem : flagName t ∈ serverIgnoreFlags
        · rw [if_pos hmem, if_pos (hignored.mpr hmem), List.singleton_append, collectFrom, ih _ hrest]
        · rw [if_neg hmem, if_neg (mt hignored.mp hmem), List.singleton_append, collectFrom,
            if_neg hkept, ih _ hrest]
          rfl

/-! ## Lost flags and stray values -/

/-- How many tokens are not taken for a value. -/
def flagCount (negativeNumber : String → Bool) (tokens : List String) : Nat :=
  tokens.countP fun t => decide (parseOptional negativeNumber t ≠ .positional)

theorem flagCount_cons_flag {t : String} (h : parseOptional negativeNumber t ≠ .positional)
    (tokens : List String) :
    flagCount negativeNumber (t :: tokens) = flagCount negativeNumber tokens + 1 :=
  List.countP_cons_of_pos (decide_eq_true h)

theorem flagCount_cons_value {t : String} (h : parseOptional negativeNumber t = .positional)
    (tokens : List String) :
    flagCount negativeNumber (t :: tokens) = flagCount negativeNumber tokens :=
  List.countP_cons_of_neg (by simpa using h)

theorem flagCount_append (tokens tokens' : List String) :
    flagCount negativeNumber (tokens ++ tokens') =
      flagCount negativeNumber tokens + flagCount negativeNumber tokens' :=
  List.countP_append

theorem Argument.Spelled.flagCount_tail {a : Argument} (h : a.Spelled negativeNumber) :
    flagCount negativeNumber a.tokens.tail = 0 := by
  obtain ⟨t, -, -, ⟨-, htokens⟩ | ⟨-, value, htokens, hvalue⟩⟩ := h
  · rw [htokens]
    rfl
  · rw [htokens, List.tail_cons, flagCount_cons_value hvalue]
    rfl

theorem forwarded_cons_ignored {a : Argument} (h : a.isIgnored = true) (args : List Argument) :
    forwarded (a :: args) = forwarded args := by
  rw [forwarded, List.filter_cons_of_neg (by simp [h])]
  rfl

theorem forwarded_cons_kept {a : Argument} (h : ¬ a.isIgnored = true) (args : List Argument) :
    forwarded (a :: args) = a.tokens ++ forwarded args := by
  rw [forwarded, List.filter_cons_of_pos (by simp [h]), List.flatMap_cons]
  rfl

/-- A flag that is skipped is lost for good. -/
theorem flagCount_survivors_le {args : List Argument} (h : ∀ a ∈ args, a.Spelled negativeNumber)
    (skipping : Bool) : flagCount negativeNumber (survivors skipping args) ≤
      flagCount negativeNumber (forwarded args) := by
  induction args generalizing skipping with
  | nil => cases skipping <;> exact Nat.le_refl 0
  | cons a rest ih =>
    obtain ⟨ha, hrest⟩ := List.forall_mem_cons.mp h
    have hle : flagCount negativeNumber (forwarded rest) ≤
        flagCount negativeNumber (forwarded (a :: rest)) := by
      by_cases hignored : a.isIgnored = true
      · exact Nat.le_of_eq (congrArg (flagCount negativeNumber) (forwarded_cons_ignored hignored _).symm)
      · rw [forwarded_cons_kept hignored, flagCount_append]
        omega
    cases skipping with
    | true =>
      rw [survivors, flagCount_append, ha.flagCount_tail, Nat.zero_add]
      exact Nat.le_trans (ih hrest false) hle
    | false =>
      rw [survivors]
      by_cases hignored : a.isIgnored = true
      · rw [if_pos hignored, forwarded_cons_ignored hignored]
        exact ih hrest a.isBare
      · rw [if_neg hignored, forwarded_cons_kept hignored, flagCount_append, flagCount_append]
        have hrestle := ih hrest false
        omega

/-- What is forwarded starts with a flag. -/
theorem value_cons_ne_forwarded {args : List Argument} (h : ∀ a ∈ args, a.Spelled negativeNumber)
    {value : String} (hvalue : parseOptional negativeNumber value = .positional)
    (tokens : List String) : value :: tokens ≠ forwarded args := by
  induction args with
  | nil => exact nofun
  | cons a rest ih =>
    obtain ⟨⟨t, hflag, -, htokens⟩, hrest⟩ := List.forall_mem_cons.mp h
    by_cases hignored : a.isIgnored = true
    · rw [forwarded_cons_ignored hignored]
      exact ih hrest
    · rw [forwarded_cons_kept hignored]
      intro heq
      have hhead : ∃ others, a.tokens = t :: others := by
        rcases htokens with ⟨-, htokens⟩ | ⟨-, value, htokens, -⟩
        · exact ⟨[], htokens⟩
        · exact ⟨[value], htokens⟩
      obtain ⟨others, hothers⟩ := hhead
      rw [hothers] at heq
      exact hflag ((List.cons.inj heq).1 ▸ hvalue)

/-- An argument that is not such a flag does not get through a skip unharmed. -/
theorem skipped_ne_forwarded {b : Argument} {rest : List Argument}
    (h : ∀ a ∈ b :: rest, a.Spelled negativeNumber) (hlone : ¬ b.isLone = true) :
    survivors true (b :: rest) ≠ forwarded (b :: rest) := by
  obtain ⟨⟨t, hflag, -, htokens⟩, hrest⟩ := List.forall_mem_cons.mp h
  rcases htokens with ⟨hbare, htokens⟩ | ⟨-, value, htokens, hvalue⟩
  · have hkept : ¬ b.isIgnored = true := by
      intro hignored
      exact hlone (by rw [Argument.isLone, hignored, hbare]; rfl)
    rw [survivors, forwarded_cons_kept hkept, htokens]
    intro heq
    have hle := flagCount_survivors_le hrest false
    have hcount := congrArg (flagCount negativeNumber) heq
    rw [List.tail_cons, List.nil_append, List.singleton_append, flagCount_cons_flag hflag] at hcount
    omega
  · rw [survivors, htokens]
    exact value_cons_ne_forwarded h hvalue _

theorem survivors_cons_of_not_lone {a : Argument} (h : ¬ a.isLone = true) (rest : List Argument) :
    survivors false (a :: rest) = forwarded (a :: rest) ↔ survivors false rest = forwarded rest := by
  rw [survivors]
  by_cases hignored : a.isIgnored = true
  · have hbare : a.isBare = false := by
      rw [Argument.isLone, hignored, Bool.true_and] at h
      exact Bool.eq_false_iff.mpr h
    rw [if_pos hignored, forwarded_cons_ignored hignored, hbare]
  · rw [if_neg hignored, forwarded_cons_kept hignored]
    exact List.append_right_inj a.tokens

theorem survivors_cons_lone {a : Argument} (h : a.isLone = true) (rest : List Argument) :
    survivors false (a :: rest) = survivors true rest ∧ forwarded (a :: rest) = forwarded rest := by
  rw [Argument.isLone, Bool.and_eq_true] at h
  obtain ⟨hignored, hbare⟩ := h
  rw [survivors, if_pos hignored, hbare]
  exact ⟨rfl, forwarded_cons_ignored hignored rest⟩

theorem survivors_eq_forwarded_iff {args : List Argument}
    (h : ∀ a ∈ args, a.Spelled negativeNumber) :
    survivors false args = forwarded args ↔ Paired args := by
  fun_induction Paired args with
  | case1 => exact ⟨fun _ => trivial, fun _ => rfl⟩
  | case2 a =>
    refine ⟨fun _ => trivial, fun _ => ?_⟩
    by_cases hlone : a.isLone = true
    · obtain ⟨hsurvivors, hforwarded⟩ := survivors_cons_lone hlone []
      rw [hsurvivors, hforwarded]
      rfl
    · exact (survivors_cons_of_not_lone hlone []).mpr rfl
  | case3 a b rest hlone ih =>
    have htail := (List.forall_mem_cons.mp h).2
    obtain ⟨hsurvivors, hforwarded⟩ := survivors_cons_lone hlone (b :: rest)
    rw [hsurvivors, hforwarded]
    by_cases hb : b.isLone = true
    · -- two such flags cancel: the second one is what the first one skips
      obtain ⟨hspelled, hrest⟩ := List.forall_mem_cons.mp htail
      have hboth := hb
      rw [Argument.isLone, Bool.and_eq_true] at hboth
      have hskipped : survivors true (b :: rest) = survivors false rest := by
        obtain ⟨t, -, -, ⟨-, htokens⟩ | ⟨hbare, -⟩⟩ := hspelled
        · rw [survivors, htokens]
          rfl
        · exact absurd (hbare.symm.trans hboth.2) Bool.false_ne_true
      rw [hskipped, forwarded_cons_ignored hboth.1, ih hrest]
      exact (and_iff_right hb).symm
    · exact iff_of_false (skipped_ne_forwarded htail hb) fun hpaired => hb hpaired.1
  | case4 a b rest hlone ih =>
    exact (survivors_cons_of_not_lone hlone (b :: rest)).trans (ih (List.forall_mem_cons.mp h).2)

end Parser

/-- A token that names an ignored flag is dropped with the token behind it, whatever that is, and
the others are kept. -/
theorem collectCommandArgs_eq_forwarded_iff (negativeNumber : String → Bool) (tokens : List String)
    (args : List Argument) (h : readArguments negativeNumber tokens = some args) :
    args.flatMap Argument.tokens = tokens ∧
      collectCommandArgs tokens = survivors false args ∧
      (collectCommandArgs tokens = forwarded args ↔ Paired args) := by
  have hspells := readArguments_spells h
  have hcollect : collectCommandArgs tokens = survivors false args := collectFrom_spells hspells false
  refine ⟨hspells.1, hcollect, ?_⟩
  rw [hcollect]
  exact survivors_eq_forwarded_iff hspells.2

/-- `^-\d+$|^-\d*\.\d+$`, for ASCII digits. -/
def asciiNegative (arg : String) : Bool :=
  match arg.toList with
  | '-' :: rest =>
    match partition '.' rest with
    | (whole, true, fraction) => (whole ++ fraction).all Char.isDigit && fraction ≠ []
    | (whole, false, _) => whole.all Char.isDigit && whole ≠ []
  | _ => false

theorem collectCommandArgs_eq_forwarded_port :
    collectCommandArgs ["--parent", "-1", "--verbose", "--port=9", "--silent"] = ["--verbose"] :=
  (collectCommandArgs_eq_forwarded_iff asciiNegative
    ["--parent", "-1", "--verbose", "--port=9", "--silent"]
    [.separate "--parent" "-1", .switch "--verbose", .joined "--port" "9", .switch "--silent"]
    (by decide)).2.2.mpr (by decide)

/-- A boolean flag takes the next flag with it. -/
theorem collectCommandArgs_silent_verbose :
    readArguments asciiNegative ["--silent", "--verbose"] =
        some [.switch "--silent", .switch "--verbose"] ∧
      forwarded [.switch "--silent", .switch "--verbose"] = ["--verbose"] ∧
      collectCommandArgs ["--silent", "--verbose"] = [] := by
  decide

end Server
end Eds
