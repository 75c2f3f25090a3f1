import Eds.Consumer.Setup

/-!
# What the server is asked for

The courses that opening a consumer can take, and what holds on all of them.
-/

namespace Eds
namespace Consumer
namespace Setup

open Collections Effects Effects.Prog Effects.Traced Effects.Grading Lexing.Subjects

variable {W : Type}

/-! ## Courses -/

section

variable (py : Dbchange.Interpreter) (b64 : String → Except String (List UInt8)) (cfg : EdsConsumerConfig)

/-- What is done for the identity of the connection. -/
inductive Identified : List Obs → CredentialInfo → Prop where
  | dev {id : String} (h : cfg.credentials = "") : Identified [] ⟨["*"], .str "dev", id⟩
  | file {buf : List UInt8} {claims : List (String × Json)} {info : CredentialInfo}
      (h : cfg.credentials ≠ "") (hclaims : decodeUserClaims py b64 (parseDecoratedJwt py buf) = .ok claims)
      (hinfo : credentialInfo claims = .ok info) : Identified [.opened buf] info

/-- The companies of the connection, or those of the override if the credentials have them all. -/
inductive Chosen (info : CredentialInfo) : List String → Prop where
  | credentials (h : cfg.companyIds = []) : Chosen info info.companyIds
  | override (h : cfg.companyIds ≠ []) (hmem : ∀ cid ∈ cfg.companyIds, cid ∈ info.companyIds) :
      Chosen info cfg.companyIds

/-- What it takes for the server to be asked. -/
structure Admitted (head : List Obs) (info : CredentialInfo) (companies : List String) (max : Int) : Prop where
  identified : Identified py b64 cfg head info
  chosen : Chosen cfg info companies
  positive : 0 < max

/-- Up to the creation of the durable consumer. -/
def opening (head : List Obs) (info : CredentialInfo) (companies : List String) (max : Int)
    (existing : Option ConsumerInfo) : List Obs :=
  head ++ [.connected info, .looked existing, .added (durableOf py cfg info companies max existing)]

/-- A consumer that is created. -/
inductive Complete : List Obs → Prop where
  | intro {head : List Obs} {info : CredentialInfo} {companies : List String} {max : Int}
      {existing : Option ConsumerInfo} {ci : ConsumerInfo} (h : Admitted py b64 cfg head info companies max)
      (hci : ¬ 0 < ci.numWaiting.getD 0) : Complete
        (opening py cfg head info companies max existing ++
          [.inspected ci, .built (processorOf cfg max) ci.consumerSeq])

/-- How far the creation of a consumer gets. -/
inductive Course : List Obs → Prop where
  | unknown : Course []
  | opened {buf : List UInt8} : Course [.opened buf]
  | connected {head : List Obs} {info : CredentialInfo} (h : Identified py b64 cfg head info) :
      Course (head ++ [.connected info])
  | refused {head : List Obs} {info : CredentialInfo} (h : Identified py b64 cfg head info) :
      Course (head ++ [.connected info, .closed])
  | looked {head : List Obs} {info : CredentialInfo} {companies : List String} {max : Int}
      {existing : Option ConsumerInfo} (h : Admitted py b64 cfg head info companies max) :
      Course (opening py cfg head info companies max existing)
  | occupied {head : List Obs} {info : CredentialInfo} {companies : List String} {max : Int}
      {existing : Option ConsumerInfo} {ci : ConsumerInfo} (h : Admitted py b64 cfg head info companies max)
      (hci : 0 < ci.numWaiting.getD 0) :
      Course (opening py cfg head info companies max existing ++ [.inspected ci, .closed])
  | complete {es : List Obs} (h : Complete py b64 cfg es) : Course es

end

/-! ## What the programs add -/

def steps (W : Type) : Grading (SetupState W) (List Obs) where
  Adds es s t := t.trace = s.trace ++ es ∧ t.vars = es.foldl Vars.after s.vars
  one := []
  mul := (· ++ ·)
  refl _ := ⟨(List.append_nil _).symm, rfl⟩
  trans h h' := by
    refine ⟨?_, ?_⟩
    · rw [h'.1, h.1, List.append_assoc]
    · rw [h'.2, h.2, List.foldl_append]

@[simp] theorem steps_mul (es es' : List Obs) : (steps W).mul es es' = es ++ es' := rfl

@[simp] theorem steps_one : (steps W).one = [] := rfl

abbrev Does {α : Type} (p : SetupProg W α) (Q : α → List Obs → Prop) (E : Exn → List Obs → Prop) : Prop :=
  (steps W).Does p Q E

section Programs

variable {α : Type}

theorem does_record (o : Obs) :
    Does (record o : SetupProg W Unit) (fun _ es => es = [o]) fun _ _ => False :=
  does_update (g := steps W) fun _ => ⟨rfl, rfl⟩

theorem does_outside (p : Prog Exn W α) :
    Does (outside p : SetupProg W α) (fun _ es => es = []) fun _ es => es = [] :=
  fun _ => wp_outside (fun _ _ _ => ⟨[], rfl, (List.append_nil _).symm, rfl⟩)
    (fun _ _ _ => ⟨[], rfl, (List.append_nil _).symm, rfl⟩)

theorem does_returns {p : Prog Exn W α} {P : α → Prop} (h : Returns p P) :
    Does (outside p : SetupProg W α) (fun a es => es = [] ∧ P a) fun _ es => es = [] :=
  fun _ => wp_outside (fun _ _ hp => ⟨[], ⟨rfl, h.reply hp⟩, (List.append_nil _).symm, rfl⟩)
    (fun _ _ _ => ⟨[], rfl, (List.append_nil _).symm, rfl⟩)

theorem does_ofExcept {r : Except Exn α} :
    Does (ofExcept r : SetupProg W α) (fun a es => es = [] ∧ r = .ok a) fun _ es => es = [] := by
  cases r with
  | ok a => exact does_pure ⟨rfl, rfl⟩
  | error e => exact does_raise rfl

variable {py : Dbchange.Interpreter} {b64 : String → Except String (List UInt8)} (server : Server W)
  (cfg : EdsConsumerConfig)

theorem does_whenTrue (cond : Bool) (p : Prog Exn W Unit) :
    Does (whenTrue cond p) (fun _ es => es = []) fun _ es => es = [] := by
  cases cond with
  | true => exact does_outside p
  | false => exact does_pure rfl

theorem does_close : Does (close server) (fun _ es => es = [.closed]) fun _ es => es = [.closed] := by
  refine (does_record _).bind (fun _ _ h => h.elim) fun _ es hes => ?_
  subst hes
  exact (does_outside _).mono (fun _ es h => by subst h; rfl) fun _ es h => by subst h; rfl

/-- Nothing is known of the connection yet. -/
def Unproved (es : List Obs) : Prop := es = [] ∨ ∃ buf, es = [.opened buf]

theorem Identified.unproved {head : List Obs} {info : CredentialInfo}
    (h : Identified py b64 cfg head info) : Unproved head := by
  cases h with
  | dev _ => exact .inl rfl
  | file _ _ _ => exact .inr ⟨_, rfl⟩

theorem does_identify :
    Does (identify py b64 server cfg) (fun a es => Identified py b64 cfg es a.1) fun _ es => Unproved es := by
  rw [identify]
  by_cases hcreds : cfg.credentials = ""
  · rw [if_pos hcreds]
    refine (does_outside _).bind (fun _ _ h => .inl h) fun id es hes => ?_
    subst hes
    exact does_pure (.dev hcreds)
  · rw [if_neg hcreds]
    refine (does_outside _).bind (fun _ _ h => .inl h) fun found es hes => ?_
    subst hes
    cases found with
    | none => exact does_raise (.inl rfl)
    | some buf =>
      refine (does_record _).bind (fun _ _ h => h.elim) fun _ es hes => ?_
      subst hes
      refine does_ofExcept.bind (fun _ _ h => ?_) fun claims es ⟨hes, hclaims⟩ => ?_
      · subst h
        exact .inr ⟨buf, rfl⟩
      · subst hes
        refine does_ofExcept.bind (fun _ _ h => ?_) fun info es ⟨hes, hinfo⟩ => ?_
        · subst h
          exact .inr ⟨buf, rfl⟩
        · subst hes
          exact does_pure (.file hcreds hclaims hinfo)

theorem does_newNatsConnection :
    Does (newNatsConnection py b64 server cfg)
      (fun info es => ∃ head, Identified py b64 cfg head info ∧ es = head ++ [.connected info])
      fun _ es => Unproved es := by
  refine (does_identify server cfg).bind (fun _ _ h => h) fun a head hident => ?_
  obtain ⟨info, creds⟩ := a
  refine does_ofExcept.bind (fun _ es h => ?_) fun name es ⟨hes, _⟩ => ?_
  · subst h
    simpa using hident.unproved
  · subst hes
    refine (does_outside _).bind (fun _ es h => ?_) fun _ es hes => ?_
    · subst h
      simpa using hident.unproved
    · subst hes
      refine (does_record _).bind (fun _ _ h => h.elim) fun _ es hes => ?_
      subst hes
      exact does_pure ⟨head, hident, by simp⟩

theorem validateCompanyIds_ok {allowed : List String} {rest validated companies : List String}
    (h : validateCompanyIds allowed validated rest = .ok companies) :
    companies = validated ++ rest ∧ ∀ cid ∈ rest, cid ∈ allowed := by
  induction rest generalizing validated with
  | nil =>
    rw [validateCompanyIds] at h
    split at h
    · cases h
    · cases h
      exact ⟨(List.append_nil _).symm, fun cid hcid => absurd hcid List.not_mem_nil⟩
  | cons cid rest ih =>
    rw [validateCompanyIds] at h
    split at h
    · next hmem =>
      obtain ⟨rfl, hrest⟩ := ih h
      exact ⟨by rw [List.append_assoc, List.singleton_append], List.forall_mem_cons.mpr ⟨hmem, hrest⟩⟩
    · cases h

theorem does_chooseCompanies (info : CredentialInfo) :
    Does (chooseCompanies server cfg info) (fun companies es => es = [] ∧ Chosen cfg info companies)
      fun _ es => es = [.closed] := by
  rw [chooseCompanies]
  by_cases hoverride : cfg.companyIds = []
  · rw [if_pos hoverride]
    exact does_pure ⟨rfl, .credentials hoverride⟩
  · rw [if_neg hoverride]
    cases hvalid : validateCompanyIds info.companyIds [] cfg.companyIds with
    | ok companies =>
      obtain ⟨rfl, hmem⟩ := validateCompanyIds_ok hvalid
      exact does_pure ⟨rfl, .override hoverride hmem⟩
    | error e =>
      refine (does_close server).bind (fun _ _ h => h) fun _ es hes => ?_
      subst hes
      exact does_raise rfl

theorem effectiveMaxAckPending_pos : 0 < cfg.effectiveMaxAckPending := by
  rw [EdsConsumerConfig.effectiveMaxAckPending]
  split
  · assumption
  · decide

theorem batchMax_pos : Returns (batchMax server cfg) (0 < ·) := by
  rw [batchMax]
  have hmax := effectiveMaxAckPending_pos cfg
  cases cfg.driver with
  | none => exact returns_pure hmax
  | some driver =>
    refine (returns_any _).bind fun driverMax _ => returns_pure ?_
    split
    · next h => exact h.1
    · exact hmax

theorem does_addConsumer (info : CredentialInfo) (companies : List String) (max : Int) :
    Does (addConsumer py server cfg info companies max)
      (fun _ es => ∃ existing, es = [.looked existing, .added (durableOf py cfg info companies max existing)])
      fun _ es => es = [] ∨
        ∃ existing, es = [.looked existing, .added (durableOf py cfg info companies max existing)] := by
  refine (does_outside _).bind (fun _ _ h => .inl h) fun existing es hes => ?_
  subst hes
  refine (does_record _).bind (fun _ _ h => h.elim) fun _ es hes => ?_
  subst hes
  refine (does_record _).bind (fun _ _ h => h.elim) fun _ es hes => ?_
  subst hes
  refine (does_outside _).bind (fun _ es h => ?_) fun _ es hes => ?_
  · subst h
    exact .inr ⟨existing, rfl⟩
  · subst hes
    exact does_pure ⟨existing, rfl⟩

theorem does_inspect (name : String) :
    Does (inspect server name) (fun ci es => es = [.inspected ci] ∧ ¬ 0 < ci.numWaiting.getD 0)
      fun _ es => es = [] ∨ ∃ ci : ConsumerInfo, 0 < ci.numWaiting.getD 0 ∧ es = [.inspected ci, .closed] := by
  refine (does_outside _).bind (fun _ _ h => .inl h) fun found es hes => ?_
  subst hes
  cases found with
  | none => exact does_raise (.inl rfl)
  | some ci =>
    refine (does_record _).bind (fun _ _ h => h.elim) fun _ es hes => ?_
    subst hes
    by_cases hwaiting : 0 < ci.numWaiting.getD 0
    · rw [if_pos hwaiting]
      refine (does_close server).bind (fun _ es h => ?_) fun _ es hes => ?_
      · subst h
        exact .inr ⟨ci, hwaiting, rfl⟩
      · subst hes
        exact does_raise (.inr ⟨ci, hwaiting, rfl⟩)
    · rw [if_neg hwaiting]
      exact does_pure ⟨rfl, hwaiting⟩

theorem does_build (info : CredentialInfo) (max : Int) (ci : ConsumerInfo) :
    Does (build server cfg info max ci) (fun _ es => es = [.built (processorOf cfg max) ci.consumerSeq])
      fun _ es => es = [.built (processorOf cfg max) ci.consumerSeq] := by
  refine (does_record _).bind (fun _ _ h => h.elim) fun _ es hes => ?_
  subst hes
  refine (does_whenTrue _ _).bind (fun _ es h => by subst h; rfl) fun _ es hes => ?_
  subst hes
  exact (does_whenTrue _ _).mono (fun _ es h => by subst h; rfl) fun _ es h => by subst h; rfl

theorem does_create :
    Does (create py b64 server cfg) (fun _ es => Complete py b64 cfg es) fun _ es => Course py b64 cfg es := by
  refine (does_newNatsConnection server cfg).bind (fun _ es h => ?_) fun info es hinfo => ?_
  · rcases h with rfl | ⟨buf, rfl⟩
    · exact .unknown
    · exact .opened
  obtain ⟨head, hident, rfl⟩ := hinfo
  refine (does_chooseCompanies server cfg info).bind (fun _ es h => ?_) fun companies es hchosen => ?_
  · subst h
    simpa using Course.refused hident
  obtain ⟨rfl, hchosen⟩ := hchosen
  refine (does_whenTrue _ _).bind (fun _ es h => ?_) fun _ es hes => ?_
  · subst h
    simpa using Course.connected hident
  subst hes
  refine (does_returns (batchMax_pos server cfg)).bind (fun _ es h => ?_) fun max es hmax => ?_
  · subst h
    simpa using Course.connected hident
  obtain ⟨rfl, hmax⟩ := hmax
  have hadmitted : Admitted py b64 cfg head info companies max := ⟨hident, hchosen, hmax⟩
  have hlooked : ∀ existing, Course py b64 cfg (opening py cfg head info companies max existing) :=
    fun _ => .looked hadmitted
  refine (does_addConsumer server cfg info companies max).bind (fun _ es h => ?_) fun name es hadded => ?_
  · rcases h with rfl | ⟨existing, rfl⟩
    · simpa using Course.connected hident
    · simpa [opening] using hlooked existing
  obtain ⟨existing, rfl⟩ := hadded
  refine (does_inspect server name).bind (fun _ es h => ?_) fun ci es hci => ?_
  · rcases h with rfl | ⟨ci, hwaiting, rfl⟩
    · simpa [opening] using hlooked existing
    · have hoccupied : Course py b64 cfg
          (opening py cfg head info companies max existing ++ [.inspected ci, .closed]) :=
        .occupied hadmitted hwaiting
      simpa [opening] using hoccupied
  obtain ⟨rfl, hwaiting⟩ := hci
  have hcomplete : Complete py b64 cfg (opening py cfg head info companies max existing ++
      [.inspected ci, .built (processorOf cfg max) ci.consumerSeq]) := .intro hadmitted hwaiting
  refine (does_build server cfg info max ci).mono (fun _ es h => ?_) fun _ es h => ?_
  · subst h
    simpa [opening] using hcomplete
  · subst h
    exact .complete (by simpa [opening] using hcomplete)

theorem does_start :
    Does (start server : SetupProg W Unit) (fun _ es => es = [.bound]) fun _ es => es = [] := by
  refine (does_asks (g := steps W)).bind (fun _ _ h => h.elim) fun name es hes => ?_
  subst hes
  refine (does_outside _).bind (fun _ es h => by subst h; rfl) fun _ es hes => ?_
  subst hes
  exact (does_record _).mono (fun _ es h => by subst h; rfl) fun _ _ h => h.elim

end Programs

/-! ## What the courses have in common -/

def durableOfObs : Obs → Option Durable
  | .added d => some d
  | _ => none

def bufferOfObs : Obs → Option (List UInt8)
  | .opened buf => some buf
  | _ => none

def lookupOfObs : Obs → Option (Option ConsumerInfo)
  | .looked existing => some existing
  | _ => none

def durables (es : List Obs) : List Durable := es.filterMap durableOfObs

def buffers (es : List Obs) : List (List UInt8) := es.filterMap bufferOfObs

def lookups (es : List Obs) : List (Option ConsumerInfo) := es.filterMap lookupOfObs

/-- The cutoff of a table, where the export has one. -/
def EdsConsumerConfig.cutoff (cfg : EdsConsumerConfig) (table : String) : Option Int :=
  (cfg.exportTableTimestamps.bind (·.get? table)).join

section

variable (py : Dbchange.Interpreter) (b64 : String → Except String (List UInt8)) (cfg : EdsConsumerConfig)

/-- The companies whose changes may be asked for: without credentials all of them, else those that
the credentials grant and an override names. -/
def Entitled (bufs : List (List UInt8)) (company : List Char) : Prop :=
  cfg.credentials = "" ∨ (cfg.companyIds = [] ∨ String.ofList company ∈ cfg.companyIds) ∧
    ∃ buf ∈ bufs, ∃ claims allowed sub, decodeUserClaims py b64 (parseDecoratedJwt py buf) = .ok claims ∧
      allowedSubjects claims = .ok allowed ∧ .str sub ∈ allowed ∧ Grants sub company

/-- Where a new durable consumer begins. -/
inductive Starts : DeliverPolicy → Option StartTime → Prop where
  | everything (h : cfg.deliverAll = true) : Starts .all none
  | earliest {start : Int} {table : String} (h : cfg.deliverAll = false)
      (hstart : cfg.cutoff table = some start) (hle : ∀ table t, cfg.cutoff table = some t → start ≤ t) :
      Starts .byStartTime (some (.date start))
  | now (h : cfg.deliverAll = false) (hnone : ∀ table, cfg.cutoff table = none) : Starts .new none

def Placed (d : Durable) : Option ConsumerInfo → Prop
  | some existing => d.deliverPolicy = existing.deliverPolicy ∧ d.optStartTime = existing.optStartTime ∧
      d.maxWaiting = existing.maxWaiting
  | none => d.maxWaiting = some 1 ∧ Starts cfg d.deliverPolicy d.optStartTime

/-- The server is asked at most once, for the public changes of the companies that may be asked for
and for no other subjects, and what it has is left where it is. -/
structure Confined (es : List Obs) : Prop where
  once : (durables es).length ≤ 1
  isolated : ∀ d ∈ durables es, ∀ ts, (∃ f ∈ d.filterSubjects, covers (tokens f.toList) ts = true) ↔
    ∃ company, Entitled py b64 cfg (buffers es) company ∧ PublicChange company ts
  placed : ∀ d ∈ durables es, ∃ existing ∈ lookups es, Placed cfg d existing

end

/-- A consumer that runs is the only one, and its batches are no longer than what the server leaves
unacknowledged. -/
structure Serving (es : List Obs) : Prop where
  connected : .closed ∉ es
  bound : .bound ∈ es
  built : ∃ d config ci, durables es = [d] ∧ .inspected ci ∈ es ∧ .built config ci.consumerSeq ∈ es ∧
    ci.numWaiting.getD 0 ≤ 0 ∧ 0 < config.maxBatch ∧ config.maxBatch = d.maxAckPending

/-- A consumer that does not run is not subscribed, and its connection is closed last. -/
structure Shut (es : List Obs) : Prop where
  unbound : .bound ∉ es
  closed : (∃ info, .connected info ∈ es) → es.getLast? = some .closed

section Courses

variable {py : Dbchange.Interpreter} {b64 : String → Except String (List UInt8)} {cfg : EdsConsumerConfig}
  {head : List Obs} {info : CredentialInfo} {companies : List String} {max : Int} {es : List Obs}

theorem mem_stamps {t : Int} : t ∈ cfg.stamps ↔ ∃ table, cfg.cutoff table = some t := by
  unfold EdsConsumerConfig.stamps EdsConsumerConfig.cutoff
  cases cfg.exportTableTimestamps with
  | none => simp
  | some d =>
    simp only [Option.elim_some, List.mem_filterMap, Option.bind_some, Option.join_eq_some_iff]
    constructor
    · rintro ⟨⟨table, _⟩, hmem, rfl⟩
      exact ⟨table, Dict.get?_eq_some.mpr hmem⟩
    · rintro ⟨table, hget⟩
      exact ⟨(table, some t), Dict.get?_eq_some.mp hget, rfl⟩

theorem placed_durableOf (existing : Option ConsumerInfo) :
    Placed cfg (durableOf py cfg info companies max existing) existing := by
  cases existing with
  | some ci => exact ⟨rfl, rfl, rfl⟩
  | none =>
    show (placement cfg none).2.2 = some 1 ∧ Starts cfg (placement cfg none).1 (placement cfg none).2.1
    cases hall : cfg.deliverAll with
    | true =>
      rw [placement, if_pos hall]
      exact ⟨rfl, .everything hall⟩
    | false =>
      rw [placement, if_neg (by rw [hall]; exact Bool.false_ne_true)]
      cases hearliest : cfg.earliestTimestamp with
      | some start =>
        obtain ⟨hmem, hle⟩ := List.min?_eq_some_iff.mp hearliest
        obtain ⟨table, htable⟩ := mem_stamps.mp hmem
        exact ⟨rfl, .earliest hall htable fun table t ht => hle t (mem_stamps.mpr ⟨table, ht⟩)⟩
      | none =>
        have hnil : cfg.stamps = [] := List.min?_eq_none_iff.mp hearliest
        refine ⟨rfl, .now hall fun table => Option.eq_none_iff_forall_ne_some.mpr fun t ht => ?_⟩
        have hmem : t ∈ cfg.stamps := mem_stamps.mpr ⟨table, ht⟩
        rw [hnil] at hmem
        exact List.not_mem_nil hmem

theorem Chosen.subset (h : Chosen cfg info companies) {cid : String} (hcid : cid ∈ companies) :
    cid ∈ info.companyIds := by
  cases h with
  | credentials _ => exact hcid
  | override _ hmem => exact hmem cid hcid

theorem Chosen.mem_iff (h : Chosen cfg info companies) (cid : String) :
    cid ∈ companies ↔ (cfg.companyIds = [] ∨ cid ∈ cfg.companyIds) ∧ cid ∈ info.companyIds := by
  cases h with
  | credentials hnil => exact ⟨fun hcid => ⟨.inl hnil, hcid⟩, And.right⟩
  | override hne hmem =>
    exact ⟨fun hcid => ⟨.inr hcid, hmem cid hcid⟩, fun hcid => hcid.1.resolve_left hne⟩

theorem Chosen.nonempty (h : Chosen cfg info companies) (hinfo : info.companyIds ≠ []) : companies ≠ [] := by
  cases h with
  | credentials _ => exact hinfo
  | override hne _ => exact hne

/-- A company that the server is asked for. -/
theorem Admitted.plain (h : Admitted py b64 cfg head info companies max) {cid : String}
    (hcid : cid ∈ companies) : '.' ∉ cid.toList ∧ cid.toList ≠ ['>'] := by
  have hmem := h.chosen.subset hcid
  cases h.identified with
  | dev _ =>
    obtain rfl := List.mem_singleton.mp hmem
    exact ⟨by decide, by decide⟩
  | file _ _ hinfo =>
    obtain ⟨allowed, _, _, hgranted⟩ := credentialInfo_companies hinfo
    obtain ⟨sub, _, hid, _⟩ := (hgranted cid).mp hmem
    exact ⟨hid.dot, hid.plain (by decide)⟩

/-- The companies that are asked for, with the wildcard read as all of them. -/
theorem Admitted.entitled_iff (h : Admitted py b64 cfg head info companies max) (company : List Char) :
    (∃ cid ∈ companies, Fits cid.toList company) ↔ Entitled py b64 cfg (buffers head) company := by
  cases h.identified with
  | @dev id hdev =>
    refine ⟨fun _ => .inl hdev, fun _ => ?_⟩
    obtain ⟨cid, hcid⟩ := List.exists_mem_of_ne_nil companies (h.chosen.nonempty (List.cons_ne_nil "*" []))
    obtain rfl := List.mem_singleton.mp (h.chosen.subset hcid)
    exact ⟨"*", hcid, .inl rfl⟩
  | @file buf claims _ hfile hclaims hinfo =>
    obtain ⟨allowed, hallowed, _, hgranted⟩ := credentialInfo_companies hinfo
    rw [Entitled, or_iff_right hfile]
    constructor
    · rintro ⟨cid, hcid, hfits⟩
      obtain ⟨sub, hsub, hgrants⟩ := (hgranted cid).mp (h.chosen.subset hcid)
      obtain rfl := hfits.resolve_left (hgrants.1.plain (by decide))
      rw [String.ofList_toList]
      exact ⟨((h.chosen.mem_iff cid).mp hcid).1, buf, List.mem_cons_self, claims, allowed, sub, hclaims, hallowed,
        hsub, hgrants⟩
    · rintro ⟨hoverride, buf', hbuf', claims', allowed', sub, hclaims', hallowed', hsub, hgrants⟩
      obtain rfl := List.mem_singleton.mp hbuf'
      obtain rfl := Except.ok.inj (hclaims.symm.trans hclaims')
      obtain rfl := Except.ok.inj (hallowed.symm.trans hallowed')
      refine ⟨String.ofList company, (h.chosen.mem_iff _).mpr ⟨hoverride, ?_⟩, .inr String.toList_ofList⟩
      exact (hgranted _).mpr ⟨sub, hsub, by rwa [String.toList_ofList]⟩

theorem Admitted.isolated (h : Admitted py b64 cfg head info companies max) (ts : List (List Char)) :
    (∃ f ∈ companies.map filterSubject, covers (tokens f.toList) ts = true) ↔
      ∃ company, Entitled py b64 cfg (buffers head) company ∧ PublicChange company ts := by
  constructor
  · rintro ⟨f, hf, hcovers⟩
    obtain ⟨cid, hcid, rfl⟩ := List.mem_map.mp hf
    obtain ⟨hdot, hrest⟩ := h.plain hcid
    obtain ⟨company, hfits, hchange⟩ := (covers_filterSubject hdot hrest ts).mp hcovers
    exact ⟨company, (h.entitled_iff company).mp ⟨cid, hcid, hfits⟩, hchange⟩
  · rintro ⟨company, hentitled, hchange⟩
    obtain ⟨cid, hcid, hfits⟩ := (h.entitled_iff company).mpr hentitled
    obtain ⟨hdot, hrest⟩ := h.plain hcid
    exact ⟨filterSubject cid, List.mem_map_of_mem hcid,
      (covers_filterSubject hdot hrest ts).mpr ⟨company, hfits, hchange⟩⟩

/-- What is done before or after the durable consumer is asked for. -/
def IsAside (es : List Obs) : Prop := durables es = [] ∧ buffers es = [] ∧ lookups es = []

theorem confined_of_none (h : durables es = []) : Confined py b64 cfg es := by
  refine ⟨?_, fun d hd => ?_, fun d hd => ?_⟩
  · rw [h]
    exact Nat.zero_le 1
  · rw [h] at hd
    exact absurd hd List.not_mem_nil
  · rw [h] at hd
    exact absurd hd List.not_mem_nil

theorem Identified.aside (h : Identified py b64 cfg head info) : durables head = [] ∧ lookups head = [] := by
  cases h with
  | dev _ => exact ⟨rfl, rfl⟩
  | file _ _ _ => exact ⟨rfl, rfl⟩

theorem durables_append (es es' : List Obs) : durables (es ++ es') = durables es ++ durables es' :=
  List.filterMap_append

theorem buffers_append (es es' : List Obs) : buffers (es ++ es') = buffers es ++ buffers es' :=
  List.filterMap_append

theorem lookups_append (es es' : List Obs) : lookups (es ++ es') = lookups es ++ lookups es' :=
  List.filterMap_append

theorem Admitted.durables (h : Admitted py b64 cfg head info companies max)
    (existing : Option ConsumerInfo) :
    Setup.durables (opening py cfg head info companies max existing) =
      [durableOf py cfg info companies max existing] := by
  rw [opening, durables_append, h.identified.aside.1]
  rfl

theorem Admitted.confined (h : Admitted py b64 cfg head info companies max) (existing : Option ConsumerInfo)
    {tail : List Obs} (htail : IsAside tail) :
    Confined py b64 cfg (opening py cfg head info companies max existing ++ tail) := by
  obtain ⟨hd, hb, hl⟩ := htail
  have hdurables : Setup.durables (opening py cfg head info companies max existing ++ tail) =
      [durableOf py cfg info companies max existing] := by
    rw [durables_append, h.durables, hd, List.append_nil]
  have hbuffers : buffers (opening py cfg head info companies max existing ++ tail) = buffers head := by
    rw [buffers_append, opening, buffers_append, hb]
    exact (List.append_nil _).trans (List.append_nil _)
  have hlookups : lookups (opening py cfg head info companies max existing ++ tail) = [existing] := by
    rw [lookups_append, opening, lookups_append, h.identified.aside.2, hl]
    rfl
  refine ⟨?_, fun d hd ts => ?_, fun d hd => ?_⟩
  · rw [hdurables]
    exact Nat.le_refl 1
  · rw [hdurables] at hd
    obtain rfl := List.mem_singleton.mp hd
    rw [hbuffers]
    exact h.isolated ts
  · rw [hdurables] at hd
    obtain rfl := List.mem_singleton.mp hd
    rw [hlookups]
    exact ⟨existing, List.mem_singleton_self existing, placed_durableOf existing⟩

/-- Whatever a creation ends with. -/
theorem Course.confined (h : Course py b64 cfg es) {tail : List Obs} (htail : IsAside tail) :
    Confined py b64 cfg (es ++ tail) := by
  have hnone : ∀ {es : List Obs}, durables es = [] → Confined py b64 cfg (es ++ tail) := fun hes =>
    confined_of_none (by rw [durables_append, hes, htail.1]; rfl)
  have haside : ∀ {o o' : Obs}, IsAside [o, o'] → IsAside ([o, o'] ++ tail) := fun ho =>
    ⟨by rw [durables_append, ho.1, htail.1]; rfl, by rw [buffers_append, ho.2.1, htail.2.1]; rfl,
      by rw [lookups_append, ho.2.2, htail.2.2]; rfl⟩
  cases h with
  | unknown => exact hnone rfl
  | opened => exact hnone rfl
  | connected h => exact hnone (by rw [durables_append, h.aside.1]; rfl)
  | refused h => exact hnone (by rw [durables_append, h.aside.1]; rfl)
  | looked h => exact h.confined _ htail
  | occupied h _ =>
    rw [List.append_assoc]
    exact h.confined _ (haside ⟨rfl, rfl, rfl⟩)
  | complete h =>
    cases h with
    | intro h _ =>
      rw [List.append_assoc]
      exact h.confined _ (haside ⟨rfl, rfl, rfl⟩)

theorem Course.confined_self (h : Course py b64 cfg es) : Confined py b64 cfg es := by
  have hall : Confined py b64 cfg (es ++ []) := h.confined ⟨rfl, rfl, rfl⟩
  rwa [List.append_nil] at hall

theorem Complete.serving (h : Complete py b64 cfg es) : Serving (es ++ [.bound]) := by
  cases h with
  | @intro head info companies max existing ci h hci =>
    refine ⟨?_, List.mem_append_right _ List.mem_cons_self, durableOf py cfg info companies max existing,
      processorOf cfg max, ci, ?_, ?_, ?_, Int.not_lt.mp hci, h.positive, rfl⟩
    · rcases h.identified.unproved with rfl | ⟨buf, rfl⟩ <;> simp [opening]
    · rw [durables_append, durables_append, h.durables]
      rfl
    · simp
    · simp

theorem Course.unbound (h : Course py b64 cfg es) : .bound ∉ es := by
  have hhead : ∀ {head : List Obs} {info : CredentialInfo}, Identified py b64 cfg head info → .bound ∉ head := by
    intro head info hident
    rcases hident.unproved with rfl | ⟨buf, rfl⟩ <;> simp
  cases h with
  | unknown => simp
  | opened => simp
  | connected h => simp [hhead h]
  | refused h => simp [hhead h]
  | looked h => simp [opening, hhead h.identified]
  | occupied h _ => simp [opening, hhead h.identified]
  | complete h =>
    cases h with
    | intro h _ => simp [opening, hhead h.identified]

end Courses

/-! ## Opening a consumer -/

section Opening

variable {py : Dbchange.Interpreter} {b64 : String → Except String (List UInt8)} {cfg : EdsConsumerConfig}
  {es : List Obs}

theorem connected_foldl (es : List Obs) (v : Vars) :
    (es.foldl Vars.after v).connected = true ↔ v.connected = true ∨ ∃ info, .connected info ∈ es := by
  induction es generalizing v with
  | nil => simp
  | cons o rest ih =>
    rw [List.foldl_cons, ih]
    cases o <;> simp [Vars.after]

/-- What the fork makes of a creation that failed. -/
theorem shuts (server : Server W) {t : SetupState W} (hcourse : Course py b64 cfg es)
    (ht : (steps W).Adds es ⟨Vars.initial, t.world, []⟩ t) :
    wp (do tryExcept (stop server) fun _ => pure (); pure false : SetupProg W Bool)
      (fun started u => started = false ∧ Confined py b64 cfg u.trace ∧ Shut u.trace)
      (fun e u => e.isException = false ∧ Confined py b64 cfg u.trace) t := by
  obtain ⟨htrace, hvars⟩ := ht
  have htrace : t.trace = es := htrace
  rw [wp_bind]
  have hstop : wp (stop server) (fun _ u => Confined py b64 cfg u.trace ∧ Shut u.trace)
      (fun e u => e.isException = false ∧ Confined py b64 cfg u.trace) t := by
    rw [stop, wp_bind, wp_read]
    by_cases hconnected : t.vars.connected = true
    · rw [if_pos hconnected]
      have hshut : Confined py b64 cfg (es ++ [.closed]) ∧ Shut (es ++ [.closed]) := by
        refine ⟨hcourse.confined ⟨rfl, rfl, rfl⟩, ?_, fun _ => List.getLast?_concat⟩
        simp [hcourse.unbound]
      refine wp_tryExcept (wp_mono (does_close server t) (fun _ u ⟨es', hes', hu⟩ => ?_)
        fun e u ⟨es', hes', hu⟩ => ⟨fun _ => ?_, fun he => ⟨he, ?_⟩⟩)
      · subst hes'
        rw [hu.1, htrace]
        exact hshut
      · subst hes'
        show Confined py b64 cfg u.trace ∧ Shut u.trace
        rw [hu.1, htrace]
        exact hshut
      · subst hes'
        rw [hu.1, htrace]
        exact hshut.1
    · rw [if_neg hconnected]
      show Confined py b64 cfg t.trace ∧ Shut t.trace
      rw [htrace]
      refine ⟨?_, hcourse.unbound, fun hinfo => absurd ?_ hconnected⟩
      · exact hcourse.confined_self
      · rw [hvars]
        exact (connected_foldl es Vars.initial).mpr (.inr hinfo)
  refine wp_tryExcept (wp_mono hstop (fun _ u hu => ⟨rfl, hu⟩) fun e u hu => ⟨fun he => ?_, fun _ => hu⟩)
  rw [hu.1] at he
  cases he

/-- Opening a consumer.  Whatever the server, the driver and the files do, the server is asked at most
once for a durable consumer.  Its filters cover the public changes of the companies that the
credential file grants, and of those that the override names where there is one, and no other
subject.  A durable consumer that is there keeps its place, and a new one begins at the earliest
cutoff, unless everything is asked for.  A consumer that is not started has closed its connection. -/
theorem opens_confined (py : Dbchange.Interpreter) (b64 : String → Except String (List UInt8))
    (server : Server W) (cfg : EdsConsumerConfig) (w : W) :
    wp (openConsumer py b64 server cfg)
      (fun started t => Confined py b64 cfg t.trace ∧ (started = true → Serving t.trace) ∧
        (started = false → Shut t.trace))
      (fun e t => e.isException = false ∧ Confined py b64 cfg t.trace) ⟨Vars.initial, w, []⟩ := by
  have hopen : Does (do create py b64 server cfg; start server; pure true : SetupProg W Bool)
      (fun started es => started = true ∧ ∃ es', Complete py b64 cfg es' ∧ es = es' ++ [.bound])
      fun _ es => Course py b64 cfg es := by
    refine (does_create server cfg).bind (fun _ _ h => h) fun _ es hes => ?_
    refine (does_start server).bind (fun _ es' h => ?_) fun _ es' hes' => ?_
    · subst h
      simpa using Course.complete hes
    · subst hes'
      exact does_pure ⟨rfl, es, hes, by simp⟩
  refine wp_tryExcept (wp_mono (hopen _) (fun started t ⟨es, ⟨hstarted, es', hes', hes⟩, ht⟩ => ?_)
    fun e t ⟨es, hes, ht⟩ => ⟨fun _ => ?_, fun he => ⟨he, ?_⟩⟩)
  · have htrace : t.trace = es' ++ [.bound] := ht.1.trans hes
    rw [htrace]
    refine ⟨(Course.complete hes').confined ⟨rfl, rfl, rfl⟩, fun _ => hes'.serving, fun hfalse => ?_⟩
    rw [hstarted] at hfalse
    cases hfalse
  · refine wp_mono (shuts server hes ht) (fun started u hu => ⟨hu.2.1, fun htrue => ?_, fun _ => hu.2.2⟩)
      fun e u hu => hu
    rw [hu.1] at htrue
    cases htrue
  · have htrace : t.trace = es := ht.1
    rw [htrace]
    exact hes.confined_self

end Opening

end Setup
end Consumer
end Eds
