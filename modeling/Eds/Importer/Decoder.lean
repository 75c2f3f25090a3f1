import Eds.Importer.Records

/-!
# The decoder of records

`NDJSONDecoder` reads a file line by line and holds one line that is peeked and not yet taken.  Of
its two flags `_has_peeked` says that something was peeked, and `_peeked` is the line, or nothing at
the end.

`Left d records` says which records a decoder still gives.  `more` leaves them as they are and
`decode_raw` takes the first one, so that any order of the two gives each record once
(`decoder_exact`).
-/

namespace Eds
namespace Importer

/-! ## The decoder -/

/-- `rest` are the readings that the file still gives. -/
structure NDJSONDecoder where
  rest : List Reading
  peeked : Option String
  hasPeeked : Bool
  count : Nat

namespace NDJSONDecoder

def opened (lines : List Reading) : NDJSONDecoder := ⟨lines, none, false, 0⟩

/-- The loop of `more`, up to a line that is not blank.  `readline` gives the empty text at the end of
the file only, which is the end of the list here; an `OSError` or `EOFError` counts as the end. -/
def fill : List Reading → Except Exn (Option String) × List Reading
  | [] => (.ok none, [])
  | .cut :: rest => (.ok none, rest)
  | .raised e :: rest => (.error e, rest)
  | .line text :: rest => if strip text = "" then fill rest else (.ok (some (strip text)), rest)

def more (d : NDJSONDecoder) : Except Exn Bool × NDJSONDecoder :=
  if d.hasPeeked = true then (.ok d.peeked.isSome, d)
  else match fill d.rest with
    | (.ok peeked, rest) => (.ok peeked.isSome, { d with rest, peeked, hasPeeked := true })
    | (.error e, rest) => (.error e, { d with rest })

/-- A line that is not JSON is taken too, and not counted. -/
def decodeRaw (json : JsonLib) (d : NDJSONDecoder) : Except Exn String × NDJSONDecoder :=
  match more d with
  | (.error e, d) => (.error e, d)
  | (.ok found, d) =>
    match found, d.peeked with
    | true, some value =>
      match json.checkJson value with
      | .error e => (.error e, { d with peeked := none, hasPeeked := false })
      | .ok () => (.ok value, { d with peeked := none, hasPeeked := false, count := d.count + 1 })
    | _, _ => (.error (.valueError "no more JSON values"), d)

end NDJSONDecoder

/-! ## Calls -/

inductive DecoderCall where
  | more
  | decodeRaw
  deriving DecidableEq

/-- The decoder behind the calls, with the values that `decode_raw` returned. -/
def runCalls (json : JsonLib) : List DecoderCall → NDJSONDecoder → List String × NDJSONDecoder
  | [], d => ([], d)
  | .more :: calls, d => runCalls json calls d.more.2
  | .decodeRaw :: calls, d =>
    let (values, d') := runCalls json calls (d.decodeRaw json).2
    match (d.decodeRaw json).1 with
    | .ok value => (value :: values, d')
    | .error _ => (values, d')

def isValid (json : JsonLib) (record : String) : Bool := (json.checkJson record).toOption.isSome

/-- What `decode_raw` does about the next record. -/
def decoded (json : JsonLib) : Option String → Except Exn String
  | none => .error (.valueError "no more JSON values")
  | some record => (json.checkJson record).map fun _ => record

/-! ## The records that are left -/

/-- No reading fails. -/
def Whole (lines : List Reading) : Prop := ∀ r ∈ lines, ∃ text, r = .line text

/-- The file is readable to its end, and the decoder gives these records yet: nothing is peeked, a
line is, or the end. -/
inductive Left : NDJSONDecoder → List String → Prop
  | unread {rest : List Reading} {count : Nat} (h : Whole rest) :
      Left ⟨rest, none, false, count⟩ (contents rest)
  | peeked {rest : List Reading} {count : Nat} (value : String) (h : Whole rest) :
      Left ⟨rest, some value, true, count⟩ (value :: contents rest)
  | ended {rest : List Reading} {count : Nat} : Left ⟨rest, none, true, count⟩ []

variable (json : JsonLib) {d : NDJSONDecoder} {records : List String}

theorem left_opened {lines : List Reading} (h : Whole lines) :
    Left (.opened lines) (contents lines) := .unread h

theorem fill_spec {lines : List Reading} (h : Whole lines) :
    ∃ rest, NDJSONDecoder.fill lines = (.ok (contents lines).head?, rest) ∧ Whole rest ∧
      contents rest = (contents lines).tail := by
  induction lines with
  | nil => exact ⟨[], rfl, h, rfl⟩
  | cons r rest ih =>
    obtain ⟨⟨text, rfl⟩, hrest⟩ := List.forall_mem_cons.mp h
    rw [NDJSONDecoder.fill, contents, List.filterMap_cons]
    by_cases hblank : strip text = ""
    · have hnone : (Reading.line text).record? = none := if_pos hblank
      rw [if_pos hblank, hnone]
      exact ih hrest
    · have hsome : (Reading.line text).record? = some (strip text) := if_neg hblank
      rw [if_neg hblank, hsome]
      exact ⟨rest, rfl, hrest, rfl⟩

/-- A call of `more` peeks the next record, if it is not peeked yet, and leaves all of them. -/
theorem more_spec (h : Left d records) : ∃ d', d.more = (.ok records.head?.isSome, d') ∧
    Left d' records ∧ d'.hasPeeked = true ∧ d'.count = d.count := by
  cases h with
  | @unread rest count h =>
    obtain ⟨rest', hfill, hwhole, htail⟩ := fill_spec h
    refine ⟨⟨rest', (contents rest).head?, true, count⟩, ?_, ?_, rfl, rfl⟩
    · rw [NDJSONDecoder.more, if_neg Bool.false_ne_true, hfill]
    · cases hrecords : contents rest with
      | nil => exact .ended
      | cons record records =>
        rw [hrecords, List.tail_cons] at htail
        rw [← htail]
        exact .peeked record hwhole
  | peeked value h => exact ⟨_, rfl, .peeked value h, rfl, rfl⟩
  | ended => exact ⟨_, rfl, .ended, rfl, rfl⟩

/-- A call of `decode_raw` takes the next record, and counts it if it is JSON. -/
theorem decodeRaw_spec (h : Left d records) : ∃ d',
    d.decodeRaw json = (decoded json records.head?, d') ∧ Left d' records.tail ∧
      d'.count = d.count + (records.take 1).countP (isValid json) := by
  obtain ⟨d₁, hmore, hleft, hpeeked, hcount⟩ := more_spec h
  rw [NDJSONDecoder.decodeRaw, hmore]
  cases hleft with
  | unread => cases hpeeked
  | ended => exact ⟨_, rfl, .ended, hcount⟩
  | @peeked rest count value hwhole =>
    dsimp only [List.head?_cons, Option.isSome_some, decoded]
    rw [List.take_succ_cons, List.take_zero, List.countP_singleton, isValid]
    cases hjson : json.checkJson value with
    | error e => exact ⟨_, rfl, .unread hwhole, hcount⟩
    | ok u => exact ⟨_, rfl, .unread hwhole, congrArg (· + 1) hcount⟩

/-! ## Any order of calls -/

/-- How often `decode_raw` is called. -/
def taken (calls : List DecoderCall) : Nat := calls.count .decodeRaw

theorem runCalls_spec (calls : List DecoderCall) (h : Left d records) :
    (runCalls json calls d).1 = (records.take (taken calls)).filter (isValid json) ∧
      Left (runCalls json calls d).2 (records.drop (taken calls)) ∧
      (runCalls json calls d).2.count = d.count + (runCalls json calls d).1.length := by
  induction calls generalizing d records with
  | nil => exact ⟨rfl, h, rfl⟩
  | cons call calls ih =>
    cases call with
    | more =>
      obtain ⟨d', hmore, hleft, -, hcount⟩ := more_spec h
      obtain ⟨hvalues, hrest, hcounts⟩ := ih hleft
      have htaken : taken (.more :: calls) = taken calls := List.count_cons_of_ne (by decide)
      have hrun : runCalls json (.more :: calls) d = runCalls json calls d' := by
        rw [runCalls, hmore]
      rw [hrun, htaken]
      exact ⟨hvalues, hrest, hcounts.trans (by rw [hcount])⟩
    | decodeRaw =>
      obtain ⟨d', hdecode, hleft, hcount⟩ := decodeRaw_spec json h
      obtain ⟨hvalues, hrest, hcounts⟩ := ih hleft
      have htaken : taken (.decodeRaw :: calls) = taken calls + 1 := List.count_cons_self
      rw [htaken, ← List.drop_tail]
      cases records with
      | nil =>
        have hrun : runCalls json (.decodeRaw :: calls) d = runCalls json calls d' := by
          rw [runCalls, hdecode]
          rfl
        rw [hrun]
        rw [List.tail_nil, List.take_nil] at hvalues
        exact ⟨hvalues, hrest, hcounts.trans (by rw [hcount]; rfl)⟩
      | cons record records =>
        rw [List.take_succ_cons, List.take_zero, List.countP_singleton] at hcount
        rw [List.take_succ_cons, List.filter_cons]
        cases hjson : json.checkJson record with
        | error e =>
          have hvalid : isValid json record = false := by rw [isValid, hjson]; rfl
          have hrun : runCalls json (.decodeRaw :: calls) d = runCalls json calls d' := by
            rw [runCalls, hdecode, List.head?_cons, decoded, hjson]
            rfl
          rw [hrun, hvalid, if_neg Bool.false_ne_true]
          rw [hvalid, if_neg Bool.false_ne_true] at hcount
          exact ⟨hvalues, hrest, hcounts.trans (by rw [hcount, Nat.add_zero])⟩
        | ok u =>
          have hvalid : isValid json record = true := by rw [isValid, hjson]; rfl
          have hrun : runCalls json (.decodeRaw :: calls) d =
              (record :: (runCalls json calls d').1, (runCalls json calls d').2) := by
            rw [runCalls, hdecode, List.head?_cons, decoded, hjson]
            rfl
          rw [hrun, hvalid, if_pos rfl]
          rw [hvalid, if_pos rfl] at hcount
          refine ⟨congrArg (List.cons record) hvalues, hrest, hcounts.trans ?_⟩
          rw [hcount, List.length_cons]
          omega

/-- What a decoder has returned and what it answers next, when `decode_raw` has been called `n` times. -/
structure Exact (records : List String) (n : Nat) (values : List String)
    (d : NDJSONDecoder) : Prop where
  returned : values = (records.take n).filter (isValid json)
  count : d.count = values.length
  more : d.more.1 = .ok (decide (n < records.length))
  next : (d.decodeRaw json).1 = decoded json records[n]?
  peek : (d.more.2.decodeRaw json).1 = (d.decodeRaw json).1

/-- Behind every sequence of calls on a file that is readable to its end. -/
theorem decoder_exact (lines : List String) (calls : List DecoderCall) :
    Exact json (contents (lines.map .line)) (taken calls)
      (runCalls json calls (.opened (lines.map .line))).1
      (runCalls json calls (.opened (lines.map .line))).2 := by
  have hwhole : Whole (lines.map .line) := by
    intro r hr
    obtain ⟨text, -, rfl⟩ := List.mem_map.mp hr
    exact ⟨text, rfl⟩
  obtain ⟨hvalues, hleft, hcount⟩ := runCalls_spec json calls (left_opened hwhole)
  obtain ⟨d', hmore, hleft', -, -⟩ := more_spec hleft
  obtain ⟨_, hdecode, -, -⟩ := decodeRaw_spec json hleft
  obtain ⟨_, hdecode', -, -⟩ := decodeRaw_spec json hleft'
  rw [List.head?_drop] at hmore hdecode hdecode'
  have hfound : (contents (lines.map .line))[taken calls]?.isSome =
      decide (taken calls < (contents (lines.map .line)).length) := by
    rw [Bool.eq_iff_iff, isSome_getElem?, decide_eq_true_iff]
  refine ⟨hvalues, hcount.trans (Nat.zero_add _), ?_, ?_, ?_⟩
  · rw [← hfound]
    exact congrArg Prod.fst hmore
  · exact congrArg Prod.fst hdecode
  · have hpeeked := congrArg Prod.snd hmore
    exact (congrArg (fun d => (NDJSONDecoder.decodeRaw json d).1) hpeeked).trans
      ((congrArg Prod.fst hdecode').trans (congrArg Prod.fst hdecode).symm)

end Importer
end Eds
