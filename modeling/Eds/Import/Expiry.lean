import Eds.Import.Persisted
import Eds.Lexing.Cut

/-!
# Whether the URLs of a download have expired

A download that fails leaves one error, whose text quotes the first failed worker: the status and
the reason of a response, or the text of what a request or a file raised.  The URLs count as expired
if the digits 403 or 410 are anywhere in it.

`noted` writes down what a request or a file replied, in a list beside the world, and
`expired_iff` says when the text is right about the statuses in that list.
-/

namespace Eds
namespace Import

open Effects Effects.Prog Collections Lexing

variable {W : Type}

/-! ## The replies of a download -/

/-- A response to the request for a file, or what a request or the write of a file raised. -/
inductive Reply where
  | response (status : Int) (reason : String)
  | raised (e : Exn)
  deriving DecidableEq

namespace Reply

/-- The worker that got it fails. -/
def failed : Reply → Bool
  | .response status _ => status ≠ 200
  | .raised _ => true

/-- What the error of the worker quotes. -/
def text : Reply → String
  | .response status reason => s!"{status} {reason}"
  | .raised e => e.str

/-- The URL has expired. -/
def refused : Reply → Bool
  | .response status _ => status = 403 ∨ status = 410
  | .raised _ => false

end Reply

abbrev Noted (W : Type) := W × List Reply

def noting {α : Type} (p : Prog Exn W α) : Prog Exn (Noted W) α :=
  handle (first p) fun e => do
    update fun w => (w.1, w.2 ++ [.raised e])
    raise e

def noted (network : Network W) : Network (Noted W) where
  get url := do
    let resp ← noting (network.get url)
    update fun w => (w.1, w.2 ++ [.response resp.statusCode resp.reason])
    pure resp
  write file content := noting (network.write file content)

/-- The services of the command, with the workers behind the download. -/
def Services.presigned (services : Services W) (network : Network W) : Services (Noted W) :=
  { services.beside (List Reply) with
    files := { (services.beside (List Reply)).files with
      fetchAll := fetchAll (noted network) services.files.baseName } }

/-- The digits that are taken for the status. -/
def mentions (text : String) : Bool :=
  contains (lower text) "403".toList || contains (lower text) "410".toList

/-- The digits tell whether a response refused its URL: they are not in the text that is quoted when
a time cannot be told, and they are in that of the first failed reply if and only if some response
refused. -/
def Telling (files : Files W) (data : List (String × ExportJobTableData)) (replies : List Reply) :
    Prop :=
  match data.mapM (tableInfo files) with
  | .error e => mentions e.str = false
  | .ok _ => ∀ reply, replies.find? Reply.failed = some reply →
    (mentions reply.text = true ↔ ∃ r ∈ replies, r.refused = true)

/-! ## Texts -/

theorem contains_iff (s part : List Char) : contains s part = true ↔ part <:+: s := by
  rw [contains, List.any_eq_true, List.infix_iff_prefix_suffix]
  refine exists_congr fun rest => ?_
  rw [List.mem_tails, List.isPrefixOf_iff_prefix]
  exact and_comm

theorem lower_append (a b : String) : lower (a ++ b) = lower a ++ lower b := by
  rw [lower, String.toList_append, List.flatMap_append]
  rfl

/-- A text before a space that has no digits does not count. -/
theorem mentions_behind {front : String} (hfront : mentions front = false) (text : String) :
    mentions (front ++ " " ++ text) = mentions text := by
  have hpart : ∀ part : List Char, ' ' ∉ part → contains (lower front) part = false →
      contains (lower (front ++ " " ++ text)) part = contains (lower text) part := by
    intro part hspace hnone
    rw [Bool.eq_iff_iff, contains_iff, contains_iff, lower_append, lower_append, List.append_assoc]
    have hcons : lower " " ++ lower text = ' ' :: lower text := rfl
    rw [hcons, infix_append_cons_iff hspace, ← contains_iff, hnone]
    simp
  rw [mentions, Bool.or_eq_false_iff] at hfront
  rw [mentions, mentions, hpart _ (by decide) hfront.1, hpart _ (by decide) hfront.2]

theorem mentions_error (text : String) :
    mentions (s!"error downloading file: {text}") = mentions text := by
  have hsplit : "error downloading file: " = "error downloading file:" ++ " " := by decide +kernel
  show mentions ("error downloading file: " ++ text) = _
  rw [hsplit]
  exact mentions_behind (by decide +kernel) text

theorem mentions_fetching (status : Int) (reason : String) :
    mentions (s!"error fetching data: {status} {reason}") =
      mentions (Reply.response status reason).text := by
  have hsplit : "error fetching data: " = "error fetching data:" ++ " " := by decide +kernel
  have hassoc : "error fetching data: " ++ toString status ++ " " ++ reason =
      "error fetching data:" ++ " " ++ (toString status ++ " " ++ reason) := by
    rw [hsplit]
    simp only [String.append_assoc]
  show mentions ("error fetching data: " ++ toString status ++ " " ++ reason) = _
  rw [hassoc]
  exact mentions_behind (by decide +kernel) _

/-! ## The workers -/

section Workers

variable {network : Network W} {baseName : String → String} {directory : String} {w : Noted W}

theorem noting_spec {α : Type} {p : Prog Exn W α} :
    wp (noting p) (fun _ t => t.2 = w.2) (fun e t => t.2 = w.2 ++ [.raised e]) w := by
  rw [noting, wp_handle, first, wp_on]
  exact wp_any (fun _ _ => rfl) (fun _ _ => rfl)

/-- The error of a future quotes its first failed reply. -/
structure Quotes (fut : Except Exn Nat) (new : List Reply) : Prop where
  returned : ∀ n, fut = .ok n → new.find? Reply.failed = none
  raised : ∀ e, fut = .error e → ∃ reply, new.find? Reply.failed = some reply ∧
    mentions e.str = mentions reply.text

theorem get_spec (url : String) :
    wp ((noted network).get url)
      (fun resp t => t.2 = w.2 ++ [.response resp.statusCode resp.reason])
      (fun e t => t.2 = w.2 ++ [.raised e]) w := by
  show wp (noting (network.get url) >>= fun _ => _) _ _ w
  rw [wp_bind]
  refine wp_post noting_spec fun resp w₁ h₁ => ?_
  show w₁.2 ++ [Reply.response resp.statusCode resp.reason] = _
  rw [h₁]

theorem quotes_response {status : Int} {reason : String} (h : status ≠ 200) :
    Quotes (.error (.exception s!"error fetching data: {status} {reason}"))
      [.response status reason] where
  returned _ hn := by cases hn
  raised e he := by
    cases he
    exact ⟨_, List.find?_cons_of_pos (decide_eq_true h), mentions_fetching status reason⟩

theorem quotes_raised {e : Exn} {new : List Reply} (h : new.find? Reply.failed = some (.raised e)) :
    Quotes (.error e) new where
  returned _ hn := by cases hn
  raised e' he := by
    cases he
    exact ⟨_, h, rfl⟩

theorem downloadFile_replies (url : String) :
    wp (downloadFile (noted network) baseName directory url)
      (fun n t => ∃ new, t.2 = w.2 ++ new ∧ Quotes (.ok n) new)
      (fun e t => ∃ new, t.2 = w.2 ++ new ∧ Quotes (.error e) new) w := by
  rw [downloadFile, wp_bind]
  refine wp_mono (get_spec url) (fun resp w₁ h₁ => ?_) (fun e w₁ h₁ => ?_)
  · split
    · next hstatus => exact ⟨_, h₁, quotes_response hstatus⟩
    · next hstatus =>
      have hfine : ¬ (Reply.response resp.statusCode resp.reason).failed = true :=
        fun hfailed => hstatus (of_decide_eq_true hfailed)
      rw [wp_bind]
      show wp (noting (network.write _ _)) _ _ w₁
      refine wp_mono noting_spec (fun _ w₂ h₂ => ?_) (fun e w₂ h₂ => ?_)
      · rw [wp_pure]
        refine ⟨_, h₂.trans h₁, fun n _ => ?_, fun _ he => by cases he⟩
        rw [List.find?_cons_of_neg hfine, List.find?_nil]
      · refine ⟨[.response resp.statusCode resp.reason, .raised e], ?_, quotes_raised ?_⟩
        · rw [h₂, h₁, List.append_assoc]
          rfl
        · rw [List.find?_cons_of_neg hfine]
          rfl
  · exact ⟨_, h₁, quotes_raised rfl⟩

theorem downloadFile_quotes (url : String) :
    wp (future (downloadFile (noted network) baseName directory url))
      (fun fut t => ∃ new, t.2 = w.2 ++ new ∧ Quotes fut new) (fun _ _ => False) w := by
  show ∃ new, (downloadFile (noted network) baseName directory url w).2.2 = w.2 ++ new ∧
    Quotes (downloadFile (noted network) baseName directory url w).1 new
  rcases wp_elim (downloadFile_replies url) with ⟨n, hn, h⟩ | ⟨e, he, h⟩
  · rw [hn]
    exact h
  · rw [he]
    exact h

/-- The first error of the futures quotes the first failed reply of all. -/
structure QuotesFirst (futs : List (Except Exn Nat)) (new : List Reply) : Prop where
  returned : (∀ fut ∈ futs, ∃ n, fut = .ok n) → new.find? Reply.failed = none
  raised : ∀ front e rest, futs = front ++ .error e :: rest → (∀ fut ∈ front, ∃ n, fut = .ok n) →
    ∃ reply, new.find? Reply.failed = some reply ∧ mentions e.str = mentions reply.text

theorem futures_quote (urls : List String) :
    wp (futures (noted network) baseName directory urls)
      (fun futs t => ∃ new, t.2 = w.2 ++ new ∧ QuotesFirst futs new) (fun _ _ => False) w := by
  induction urls generalizing w with
  | nil =>
    refine ⟨[], (List.append_nil _).symm, fun _ => rfl, fun front e rest h => ?_⟩
    cases front <;> cases h
  | cons url rest ih =>
    rw [futures, wp_bind]
    refine wp_mono (downloadFile_quotes url) (fun fut w₁ h₁ => ?_) (fun _ _ h => h)
    rw [wp_bind]
    refine wp_mono ih (fun more w₂ h₂ => ?_) (fun _ _ h => h)
    obtain ⟨new₁, hw₁, hquotes⟩ := h₁
    obtain ⟨new₂, hw₂, hmore⟩ := h₂
    rw [wp_pure]
    refine ⟨new₁ ++ new₂, by rw [hw₂, hw₁, List.append_assoc], fun hall => ?_,
      fun front e rest hsplit hfront => ?_⟩
    · obtain ⟨⟨n, hn⟩, hrest⟩ := List.forall_mem_cons.mp hall
      rw [List.find?_append, hquotes.returned n hn, hmore.returned hrest]
      rfl
    · cases front with
      | nil =>
        obtain ⟨rfl, -⟩ := List.cons.inj hsplit
        obtain ⟨reply, hfind, htext⟩ := hquotes.raised e rfl
        refine ⟨reply, ?_, htext⟩
        rw [List.find?_append, hfind]
        rfl
      | cons fut' front =>
        obtain ⟨rfl, htail⟩ := List.cons.inj hsplit
        obtain ⟨⟨n, hn⟩, hfront⟩ := List.forall_mem_cons.mp hfront
        obtain ⟨reply, hfind, htext⟩ := hmore.raised front e rest htail hfront
        refine ⟨reply, ?_, htext⟩
        rw [List.find?_append, hquotes.returned n hn, hfind]
        rfl

/-- The errors begin with that of the first future that has one. -/
theorem gather_cons {futs : List (Except Exn Nat)} {e : Exn} {errors : List Exn}
    (h : gather futs = .ok (e :: errors)) :
    ∃ front rest, futs = front ++ .error e :: rest ∧ ∀ fut ∈ front, ∃ n, fut = .ok n := by
  induction futs with
  | nil => cases h
  | cons fut futs ih =>
    cases fut with
    | ok n =>
      obtain ⟨front, rest, rfl, hfront⟩ := ih h
      exact ⟨.ok n :: front, rest, rfl, List.forall_mem_cons.mpr ⟨⟨n, rfl⟩, hfront⟩⟩
    | error e' =>
      obtain ⟨-, more, -, hcons⟩ := gather_raised.mp h
      cases hcons
      exact ⟨[], futs, rfl, fun _ hmem => absurd hmem List.not_mem_nil⟩

/-- An error of the pool, unless it is no `Exception`. -/
theorem fetchAll_quotes (urls : List String) :
    wp (fetchAll (noted network) baseName urls directory) (fun _ _ => True)
      (fun e t => e.isException = true → (∃ msg, e = .exception msg) ∧
        ∃ new reply, t.2 = w.2 ++ new ∧ new.find? Reply.failed = some reply ∧
          mentions e.str = mentions reply.text) w := by
  rw [fetchAll, wp_bind]
  refine wp_mono (futures_quote urls) (fun futs t ht => ?_) (fun _ _ h => h.elim)
  obtain ⟨new, ht, hquotes⟩ := ht
  rw [wp_bind]
  cases hgather : gather futs with
  | error e => exact fun hexn => absurd (hexn.symm.trans (gather_error hgather).1) nofun
  | ok errors =>
    rw [wp_ofExcept_ok]
    cases errors with
    | nil => exact trivial
    | cons e errors =>
      obtain ⟨front, rest, hsplit, hfront⟩ := gather_cons hgather
      obtain ⟨reply, hfind, htext⟩ := hquotes.raised front e rest hsplit hfront
      exact fun _ => ⟨⟨_, rfl⟩, new, reply, ht, hfind, (mentions_error e.str).trans htext⟩

end Workers

/-! ## The decision -/

theorem downloadUrlsExpired_exception (msg : String) :
    downloadUrlsExpired (.exception msg) = mentions msg := rfl

theorem nanosToDt_error {n : Int} {e : Exn} (h : nanosToDt n = .error e) : ∃ msg, e = .exception msg := by
  rw [nanosToDt, instant] at h
  split at h
  · cases h
  · cases h
    exact ⟨_, rfl⟩

theorem finalNanos_error {files : Files W} {urls : List String} {e : Exn}
    (h : finalNanos files urls = .error e) : ∃ msg, e = .exception msg := by
  rw [finalNanos] at h
  generalize (0 : Int) = final at h
  induction urls generalizing final with
  | nil => cases h
  | cons url rest ih =>
    rw [List.foldlM_cons] at h
    cases htime : files.fileTime url with
    | some n =>
      rw [htime] at h
      exact ih _ h
    | none =>
      rw [htime] at h
      cases h
      exact ⟨_, rfl⟩

theorem tableInfo_error {files : Files W} {entry : String × ExportJobTableData} {e : Exn}
    (h : tableInfo files entry = .error e) : ∃ msg, e = .exception msg := by
  rw [tableInfo] at h
  cases hnanos : exportNanos files entry.2 with
  | ok n =>
    rw [hnanos] at h
    cases hdate : nanosToDt n with
    | ok timestamp =>
      simp only [bind, Except.bind, hdate] at h
      cases h
    | error e' =>
      simp only [bind, Except.bind, hdate] at h
      cases h
      exact nanosToDt_error hdate
  | error e' =>
    rw [hnanos] at h
    cases h
    rw [exportNanos] at hnanos
    split at hnanos
    · split at hnanos
      · cases hnanos
      · cases hnanos
        exact ⟨_, rfl⟩
    · exact finalNanos_error hnanos

theorem mapM_tableInfo_error {files : Files W} {data : List (String × ExportJobTableData)} {e : Exn}
    (h : data.mapM (tableInfo files) = .error e) : ∃ msg, e = .exception msg := by
  obtain ⟨entry, -, hentry⟩ := exists_of_mapM_error h
  exact tableInfo_error hentry

section Decision

variable {services : Services W} {network : Network W} {data : List (String × ExportJobTableData)}
  {dir : String} {w : W}

/-- A download fails before its first request, or its error quotes the first failed reply. -/
theorem bulkDownloadData_quotes :
    wp (bulkDownloadData (services.presigned network).files data dir) (fun _ _ => True)
      (fun e t => e.isException = true → (∃ msg, e = .exception msg) ∧
        match data.mapM (tableInfo services.files) with
        | .error e' => e = e' ∧ t.2 = []
        | .ok _ => ∃ reply, t.2.find? Reply.failed = some reply ∧ mentions e.str = mentions reply.text)
      (w, []) := by
  have hsame : data.mapM (tableInfo (services.presigned network).files) =
      data.mapM (tableInfo services.files) := rfl
  rw [bulkDownloadData, hsame]
  cases hdata : data.mapM (tableInfo services.files) with
  | error e => exact fun _ => ⟨mapM_tableInfo_error hdata, rfl, rfl⟩
  | ok infos =>
    dsimp only
    split
    · exact trivial
    · rw [wp_bind]
      refine wp_mono (fetchAll_quotes _) (fun _ _ _ => trivial) (fun e t h hexn => ?_)
      obtain ⟨hmsg, new, reply, ht, hfind, htext⟩ := h hexn
      rw [ht]
      exact ⟨hmsg, reply, hfind, htext⟩

theorem downloadFn_of_failed {job : ExportJobResponse} {tables : List String} {jobId : String} {w w' : W}
    {e : Exn} {t : Noted W} (hdir : services.makeDir jobId w = (.ok dir, w'))
    (hfail : bulkDownloadData (services.presigned network).files (subsetOf job tables) dir (w', []) =
      (.error e, t)) (hexn : e.isException = true) :
    downloadFn (services.presigned network) job tables jobId (w, []) =
      (.error (.downloadStage e.str (downloadUrlsExpired e)), t) := by
  have hmake : (services.presigned network).makeDir jobId (w, []) = (.ok dir, (w', [])) :=
    first_of hdir
  rw [downloadFn]
  refine (bind_of_ok hmake).trans (bind_of_error ?_)
  rw [tryExcept, handle, hfail]
  dsimp only
  rw [if_pos hexn]
  rfl

end Decision

/-- Whether a failed download is taken for one of expired URLs is right, for the responses that came,
if and only if the digits tell. -/
theorem expired_iff (services : Services W) (network : Network W) (job : ExportJobResponse)
    (tables : List String) (jobId dir : String) {w w' : W} {e : Exn} {t : Noted W}
    (hdir : services.makeDir jobId w = (.ok dir, w'))
    (hfail : bulkDownloadData (services.presigned network).files (subsetOf job tables) dir (w', []) =
      (.error e, t)) (hexn : e.isException = true) :
    ∃ expired, downloadFn (services.presigned network) job tables jobId (w, []) =
        (.error (.downloadStage e.str expired), t) ∧
      ((expired = true ↔ ∃ r ∈ t.2, r.refused = true) ↔
        Telling services.files (subsetOf job tables) t.2) := by
  refine ⟨_, downloadFn_of_failed hdir hfail hexn, ?_⟩
  obtain ⟨⟨msg, rfl⟩, hcause⟩ := wp_error bulkDownloadData_quotes hfail hexn
  rw [downloadUrlsExpired_exception, Telling]
  cases hdata : (subsetOf job tables).mapM (tableInfo services.files) with
  | error e' =>
    rw [hdata] at hcause
    obtain ⟨rfl, hnone⟩ := hcause
    rw [hnone]
    simp [Exn.str]
  | ok infos =>
    rw [hdata] at hcause
    obtain ⟨reply, hfind, htext⟩ := hcause
    rw [Exn.str] at htext
    rw [htext, hfind]
    constructor
    · intro h reply' hsame
      rw [← Option.some.inj hsame]
      exact h
    · intro h
      exact h reply rfl

/-! ## A refused URL and a file of October -/

def octoberJob : ExportJobResponse :=
  .ofA ["https://export/202410061730299510000000000000000-1-1-a-1.ndjson.gz"]

/-- Every request for a file ends so. -/
def answering (get : Prog Exn Unit Response) : Network Unit where
  get _ := get
  write _ _ := pure ()

def forbidden : Network Unit :=
  answering (pure { statusCode := 403, reason := "Forbidden", content := [] })

theorem expired_iff_forbidden :
    ∃ expired, downloadFn ((Services.serving octoberJob).presigned forbidden) octoberJob ["a"] "job"
        ((), []) =
      (.error (.downloadStage "error downloading file: error fetching data: 403 Forbidden" expired),
        ((), [.response 403 "Forbidden"])) ∧
      ((expired = true ↔ ∃ r ∈ [Reply.response 403 "Forbidden"], r.refused = true) ↔
        Telling (Services.serving octoberJob).files (subsetOf octoberJob ["a"])
          [.response 403 "Forbidden"]) :=
  expired_iff (Services.serving octoberJob) forbidden octoberJob ["a"] "job" "dir" rfl
    (e := .exception "error downloading file: error fetching data: 403 Forbidden")
    (t := ((), [.response 403 "Forbidden"])) (by rfl) rfl

def unreachable : Exn :=
  .requestsTransport ("HTTPSConnectionPool(host='export', port=443): Max retries exceeded with url: " ++
    "/202410061730299510000000000000000-1-1-a-1.ndjson.gz")

/-- A server that cannot be reached is taken for one that refuses, by the name of the file. -/
theorem october_expired :
    downloadFn ((Services.serving octoberJob).presigned (answering (raise unreachable))) octoberJob ["a"]
        "job" ((), []) =
      (.error (.downloadStage ("error downloading file: " ++ unreachable.str) true),
        ((), [.raised unreachable])) ∧
      ¬ ∃ r ∈ [Reply.raised unreachable], r.refused = true := by
  decide +kernel

end Import
end Eds
