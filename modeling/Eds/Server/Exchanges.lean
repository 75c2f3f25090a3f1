import Eds.Effects.Graded
import Eds.Server.Notifications

/-!
# What a notification leads to

`Exchange` is the protocol of the notifications in three tables: what is announced before the call,
the call, and what is sent for its value.  `callback_exchanges` says that nothing else ever happens.
-/

namespace Eds
namespace Server
namespace Notifications

open Effects Effects.Prog Effects.Traced Effects.Grading Util

variable {W : Type}

/-! ## The protocol -/

/-- A step of a conversation.  After what `must` be sent and is not, nothing follows. -/
inductive Step where
  | must (o : Bool → Obs)
  | may (o : Bool → Obs)
  | just (o : Obs)

def Step.obs : Step → Bool → Obs
  | must o | may o => o
  | just o => fun _ => o

/-- What the steps leave in the trace, and the exception that cuts them off. -/
inductive Chain : List Step → List Obs → Option Exn → Prop where
  | done : Chain [] [] none
  | sent {s : Step} {rest : List Step} {es : List Obs} {out : Option Exn} (h : Chain rest es out) :
      Chain (s :: rest) (s.obs true :: es) out
  | missed {o : Bool → Obs} {rest : List Step} {es : List Obs} {out : Option Exn}
      (h : Chain rest es out) : Chain (.may o :: rest) (o false :: es) out
  | lost {o : Bool → Obs} {rest : List Step} : Chain (.must o :: rest) [o false] none
  | cut {s : Step} {o : Bool → Obs} {rest : List Step} {e : Exn} (hs : s = .must o ∨ s = .may o)
      (he : e.isException = false) : Chain (s :: rest) [o false] (some e)

def statusStep (sid action message : String) : Step :=
  .may (.published (subject sid action "status") (.packed (status sid action message).toMsgpack))

def outcomeStep (sid action : String) (err : Option Exn) : Step :=
  .must (.published (subject sid action "response") (.packed (outcome sid action err).toMsgpack))

def logsStep (r : SendLogsResponse) : Step :=
  .must (.published (subject r.sessionId "sendlogs" "response") (.packed r.toMsgpack))

def logSteps (logPath : Option String) (sid : String) : List Step :=
  logPath.toList.map fun path => logsStep ⟨path, sid⟩

namespace Notification

variable (n : Notification)

/-- The call that is asked for. -/
def request : Option Call :=
  match n.kind with
  | some .restart => some .restart
  | some .ping => none
  | some .shutdown => (n.text "message").map fun message => .shutdown message (n.flag "deleted")
  | some .pause => some .pause
  | some .unpause => some .unpause
  | some .upgrade => (n.text "version").map .upgrade
  | some .sendlogs => some .sendLogs
  | some .configure => some (.configure ⟨(n.text "url").getD "", n.flag "backfill"⟩)
  | some .imports => some (.backfillInit ⟨n.flag "backfill"⟩)
  | some .driverconfig => some .driverConfig
  | some .validate => do
    let driver ← n.text "driver"
    let config ← n.object "config"
    pure (.validate driver config)
  | none => none

/-- What is sent before the call.  `text` is the text of the notification. -/
def opening (text sid : String) : List Step :=
  match n.kind with
  | some .restart => [statusStep sid "restart" ""]
  | some .ping => (n.text "subject").toList.map fun target => .may (.published target (.raw "pong"))
  | some .upgrade =>
    match n.text "version" with
    | some _ => [statusStep sid "upgrade" ""]
    | none => [statusStep sid "upgrade" (invalidUpgrade text)]
  | _ => []

/-- What is sent for what the call returned. -/
def answers (sid : String) : Reply → List Step
  | .restarted => [outcomeStep sid n.action none]
  | .shutDown => []
  | .paused err => [outcomeStep sid n.action err]
  | .upgraded r =>
    .must (.published (subject r.sessionId "upgrade" "response") (.packed r.toMsgpack)) ::
      logSteps r.logPath r.sessionId
  | .logs r => r.toList.map logsStep
  | .configured r => .must (.responded r.gojson) :: logSteps r.logPath r.sessionId
  | .initiated r =>
    .must (.responded r.gojson) ::
      if r.success then [statusStep sid "import" "", .just (.spawned ⟨n.flag "backfill", r.jobId⟩)]
      else []
  | .imported r =>
    .must (.published (subject r.sessionId "import" "response") (.packed r.toMsgpack)) ::
      logSteps r.logPath r.sessionId
  | .drivers r => [.must (.responded r.gojson)]
  | .validated r => [.must (.responded r.gojson)]

end Notification

def Call.Returns : Call → Reply → Prop
  | .restart, .restarted => True
  | .shutdown _ _, .shutDown => True
  | .pause, .paused _ => True
  | .unpause, .paused _ => True
  | .upgrade _, .upgraded _ => True
  | .sendLogs, .logs _ => True
  | .configure _, .configured _ => True
  | .backfillInit _, .initiated _ => True
  | .importAction _, .imported _ => True
  | .driverConfig, .drivers _ => True
  | .validate _ _, .validated _ => True
  | _, _ => False

/-- A call with its answers; an exception of the closure is the end of it. -/
inductive Asked (c : Call) (answers : String → Reply → List Step) : List Obs → Option Exn → Prop where
  | raised {e : Exn} : Asked c answers [.called c] (some e)
  | returned {r : Reply} {sid : String} {es : List Obs} {out : Option Exn} (hr : c.Returns r)
      (h : Chain (answers sid r) es out) : Asked c answers (.called c :: .returned r :: es) out

/-- What a notification with this text leads to. -/
inductive Exchange (n : Notification) (text : String) : List Obs → Option Exn → Prop where
  | quiet {sid : String} {es : List Obs} {out : Option Exn} (h : n.request = none)
      (hes : Chain (n.opening text sid) es out) : Exchange n text es out
  | cut {sid : String} {es : List Obs} {e : Exn} (hes : Chain (n.opening text sid) es (some e)) :
      Exchange n text es (some e)
  | asked {sid : String} {c : Call} {es es' : List Obs} {out : Option Exn} (h : n.request = some c)
      (hes : Chain (n.opening text sid) es none) (hes' : Asked c n.answers es' out) :
      Exchange n text (es ++ es') out

namespace Chain

variable {o : Bool → Obs} {rest : List Step} {es es' : List Obs} {out : Option Exn}

/-- What may be sent is followed by the rest, whether it went out or not. -/
theorem may_append (h : Chain [.may o] es none) (h' : Chain rest es' out) :
    Chain (.may o :: rest) (es ++ es') out := by
  cases h with
  | sent h =>
    cases h
    exact sent h'
  | missed h =>
    cases h
    exact missed h'

theorem may_cut {e : Exn} (h : Chain [.may o] es (some e)) : Chain (.may o :: rest) es (some e) := by
  cases h with
  | sent h => cases h
  | missed h => cases h
  | cut hs he => exact .cut hs he

end Chain

/-! ## What the protocol allows -/

def callOf : Obs → Option Call
  | .called c => some c
  | _ => none

def replyOf : Obs → Option Reply
  | .returned r => some r
  | _ => none

def bodyOf : Obs → Option (Except String String)
  | .responded body _ => some body
  | _ => none

def calls (es : List Obs) : List Call := es.filterMap callOf

def returns (es : List Obs) : List Reply := es.filterMap replyOf

/-- The answers to the message. -/
def responses (es : List Obs) : List (Except String String) := es.filterMap bodyOf

/-- The JSON of what is returned to a request. -/
def Reply.body : Reply → Option (Except String String)
  | .configured r => some r.gojson
  | .initiated r => some r.gojson
  | .drivers r => some r.gojson
  | .validated r => some r.gojson
  | _ => none

/-- Pings are answered where they say, and everything else goes to a subject of a session. -/
def Notification.Addresses (n : Notification) (target : String) (payload : Payload) : Prop :=
  (n.kind = some .ping ∧ n.text "subject" = some target ∧ payload = .raw "pong") ∨
    ∃ sid action mod fields, target = subject sid action mod ∧ payload = .packed fields ∧
      (action = n.action ∨ action = "sendlogs")

/-- At most one closure is called, the one that is asked for, and it is called unless an exception is
in the way.  The message is answered if and only if a request was handled.  An import is started only
after its answer went out, with the job that was made for it.  The only exception of `Exception`
that gets out is one that a closure raised. -/
structure Orderly (n : Notification) (es : List Obs) (out : Option Exn) : Prop where
  called : calls es = [] ∨ ∃ c, n.request = some c ∧ calls es = [c]
  completed : out = none → calls es = n.request.toList
  answered : responses es = (returns es).filterMap Reply.body
  addressed : ∀ target payload sent, .published target payload sent ∈ es → n.Addresses target payload
  spawned : ∀ req, .spawned req ∈ es → ∃ init : InitBackfillResponse,
    [.called (.backfillInit ⟨n.flag "backfill"⟩), .returned (.initiated init), .responded init.gojson true]
      <+: es ∧ init.success = true ∧ req = ⟨n.flag "backfill", init.jobId⟩
  contained : ∀ e, out = some e → e.isException = true →
    ∃ c, n.request = some c ∧ es.getLast? = some (.called c)

namespace Chain

variable {steps : List Step} {es : List Obs} {out : Option Exn}

theorem mem (h : Chain steps es out) : ∀ o ∈ es, ∃ s ∈ steps, ∃ sent, o = s.obs sent := by
  induction h with
  | done => exact fun o ho => absurd ho List.not_mem_nil
  | @sent s rest es out h ih =>
    intro o ho
    rcases List.mem_cons.mp ho with rfl | ho
    · exact ⟨s, List.mem_cons_self, true, rfl⟩
    · obtain ⟨t, ht, sent, rfl⟩ := ih o ho
      exact ⟨t, List.mem_cons_of_mem _ ht, sent, rfl⟩
  | @missed f rest es out h ih =>
    intro o ho
    rcases List.mem_cons.mp ho with rfl | ho
    · exact ⟨.may f, List.mem_cons_self, false, rfl⟩
    · obtain ⟨t, ht, sent, rfl⟩ := ih o ho
      exact ⟨t, List.mem_cons_of_mem _ ht, sent, rfl⟩
  | @lost f rest =>
    intro o ho
    rw [List.mem_singleton.mp ho]
    exact ⟨.must f, List.mem_cons_self, false, rfl⟩
  | @cut s f rest e hs he =>
    intro o ho
    rw [List.mem_singleton.mp ho]
    refine ⟨s, List.mem_cons_self, false, ?_⟩
    rcases hs with rfl | rfl <;> rfl

/-- What none of the steps is about. -/
theorem filterMap_eq_nil {β : Type} {f : Obs → Option β} (h : Chain steps es out)
    (hf : ∀ s ∈ steps, ∀ sent, f (s.obs sent) = none) : es.filterMap f = [] := by
  rw [List.filterMap_eq_nil_iff]
  intro o ho
  obtain ⟨s, hs, sent, rfl⟩ := h.mem o ho
  exact hf s hs sent

theorem not_exception (h : Chain steps es out) : ∀ e, out = some e → e.isException = false := by
  induction h with
  | done => exact fun e he => nomatch he
  | sent _ ih => exact ih
  | missed _ ih => exact ih
  | lost => exact fun e he => nomatch he
  | cut _ he =>
    intro e' he'
    cases he'
    exact he

/-- What must be sent first. -/
theorem must_cons {o : Bool → Obs} {rest : List Step} (h : Chain (.must o :: rest) es out) :
    (es = [o false]) ∨ ∃ es', es = o true :: es' ∧ Chain rest es' out := by
  cases h with
  | sent h => exact .inr ⟨_, rfl, h⟩
  | lost => exact .inl rfl
  | cut hs he =>
    rcases hs with hs | hs
    · cases hs
      exact .inl rfl
    · cases hs

end Chain

theorem calls_append (es es' : List Obs) : calls (es ++ es') = calls es ++ calls es' :=
  List.filterMap_append

theorem returns_append (es es' : List Obs) : returns (es ++ es') = returns es ++ returns es' :=
  List.filterMap_append

theorem responses_append (es es' : List Obs) : responses (es ++ es') = responses es ++ responses es' :=
  List.filterMap_append

def Call.kind : Call → Action
  | .restart => .restart
  | .shutdown _ _ => .shutdown
  | .pause => .pause
  | .unpause => .unpause
  | .upgrade _ => .upgrade
  | .sendLogs => .sendlogs
  | .configure _ => .configure
  | .backfillInit _ => .imports
  | .importAction _ => .imports
  | .driverConfig => .driverconfig
  | .validate _ _ => .validate

namespace Notification

variable {n : Notification}

theorem kind_of_request {c : Call} (h : n.request = some c) : n.kind = some c.kind := by
  unfold request at h
  cases hkind : n.kind with
  | none =>
    simp only [hkind] at h
    cases h
  | some a =>
    cases a with
    | ping =>
      simp only [hkind] at h
      cases h
    | shutdown =>
      simp only [hkind] at h
      obtain ⟨message, _, rfl⟩ := Option.map_eq_some_iff.mp h
      rfl
    | upgrade =>
      simp only [hkind] at h
      obtain ⟨version, _, rfl⟩ := Option.map_eq_some_iff.mp h
      rfl
    | validate =>
      simp only [hkind] at h
      obtain ⟨driver, _, hconfig⟩ := Option.bind_eq_some_iff.mp h
      obtain ⟨config, _, hcall⟩ := Option.bind_eq_some_iff.mp hconfig
      cases hcall
      rfl
    | _ =>
      simp only [hkind, Option.some.injEq] at h
      rw [← h]
      rfl

/-- Before the call nothing but a status or a pong is sent. -/
theorem opening_may {text sid : String} : ∀ s ∈ n.opening text sid, ∃ target payload,
    s = .may (.published target payload) ∧ n.Addresses target payload := by
  have hstatus : ∀ action message : String, action = n.action →
      ∃ target payload, statusStep sid action message = .may (.published target payload) ∧
        n.Addresses target payload :=
    fun action _ haction =>
      ⟨_, _, rfl, .inr ⟨sid, action, "status", _, rfl, rfl, .inl haction⟩⟩
  intro s hs
  unfold opening at hs
  cases hkind : n.kind with
  | none =>
    simp only [hkind] at hs
    cases hs
  | some a =>
    simp only [hkind] at hs
    cases a with
    | restart =>
      rw [List.mem_singleton.mp hs]
      exact hstatus "restart" "" (kind_name hkind)
    | ping =>
      obtain ⟨target, htarget, rfl⟩ := List.mem_map.mp hs
      exact ⟨target, _, rfl, .inl ⟨hkind, Option.mem_toList.mp htarget, rfl⟩⟩
    | upgrade =>
      cases hversion : n.text "version" with
      | none =>
        simp only [hversion] at hs
        rw [List.mem_singleton.mp hs]
        exact hstatus "upgrade" _ (kind_name hkind)
      | some version =>
        simp only [hversion] at hs
        rw [List.mem_singleton.mp hs]
        exact hstatus "upgrade" "" (kind_name hkind)
    | _ => cases hs

/-- What is sent after the call. -/
inductive Sends (n : Notification) : Step → Prop where
  | publication {target : String} {payload : Payload} {s : Step}
      (hs : s = .must (.published target payload) ∨ s = .may (.published target payload))
      (h : n.Addresses target payload) : Sends n s
  | response {body : Except String String} : Sends n (.must (.responded body))
  | spawn {req : ImportRequest} : Sends n (.just (.spawned req))

theorem addresses_subject {sid action mod : String} {fields : List (String × Json)}
    (h : action = n.action ∨ action = "sendlogs") : n.Addresses (subject sid action mod) (.packed fields) :=
  .inr ⟨sid, action, mod, fields, rfl, rfl, h⟩

theorem sends_logs {r : SendLogsResponse} : n.Sends (logsStep r) :=
  .publication (.inl rfl) (addresses_subject (.inr rfl))

theorem sends_logSteps {logPath : Option String} {sid : String} : ∀ s ∈ logSteps logPath sid, n.Sends s := by
  intro s hs
  obtain ⟨path, _, rfl⟩ := List.mem_map.mp hs
  exact sends_logs

theorem answers_sends {c : Call} {r : Reply} {sid : String} (h : n.request = some c) (hr : c.Returns r) :
    ∀ s ∈ n.answers sid r, n.Sends s := by
  have hname : c.kind.name = n.action := kind_name (kind_of_request h)
  intro s hs
  cases r with
  | restarted =>
    rw [List.mem_singleton.mp hs]
    exact .publication (.inl rfl) (addresses_subject (.inl rfl))
  | shutDown => cases hs
  | paused err =>
    rw [List.mem_singleton.mp hs]
    exact .publication (.inl rfl) (addresses_subject (.inl rfl))
  | upgraded r =>
    cases c with
    | upgrade version =>
      rcases List.mem_cons.mp hs with rfl | hs
      · exact .publication (.inl rfl) (addresses_subject (.inl hname))
      · exact sends_logSteps s hs
    | _ => exact hr.elim
  | logs r =>
    obtain ⟨r, _, rfl⟩ := List.mem_map.mp hs
    exact sends_logs
  | configured r =>
    rcases List.mem_cons.mp hs with rfl | hs
    · exact .response
    · exact sends_logSteps s hs
  | initiated r =>
    cases c with
    | backfillInit req =>
      rcases List.mem_cons.mp hs with rfl | hs
      · exact .response
      · cases hsuccess : r.success with
        | false =>
          rw [hsuccess] at hs
          cases hs
        | true =>
          rw [hsuccess, if_pos rfl, List.mem_cons, List.mem_singleton] at hs
          rcases hs with rfl | rfl
          · exact .publication (.inr rfl) (addresses_subject (.inl hname))
          · exact .spawn
    | _ => exact hr.elim
  | imported r =>
    cases c with
    | importAction req =>
      rcases List.mem_cons.mp hs with rfl | hs
      · exact .publication (.inl rfl) (addresses_subject (.inl hname))
      · exact sends_logSteps s hs
    | _ => exact hr.elim
  | drivers r =>
    rw [List.mem_singleton.mp hs]
    exact .response
  | validated r =>
    rw [List.mem_singleton.mp hs]
    exact .response

theorem Sends.called {s : Step} (h : n.Sends s) (sent : Bool) : callOf (s.obs sent) = none := by
  cases h with
  | publication hs _ => rcases hs with rfl | rfl <;> rfl
  | response => rfl
  | spawn => rfl

theorem Sends.returned {s : Step} (h : n.Sends s) (sent : Bool) : replyOf (s.obs sent) = none := by
  cases h with
  | publication hs _ => rcases hs with rfl | rfl <;> rfl
  | response => rfl
  | spawn => rfl

theorem Sends.addressed {s : Step} (h : n.Sends s) {sent sent' : Bool} {target : String}
    {payload : Payload} (heq : s.obs sent = .published target payload sent') :
    n.Addresses target payload := by
  cases h with
  | publication hs h =>
    rcases hs with rfl | rfl <;> cases heq <;> exact h
  | response => cases heq
  | spawn => cases heq

section

variable {c : Call} {r : Reply} {sid text : String} {es : List Obs} {out : Option Exn}

theorem opening_sends : ∀ s ∈ n.opening text sid, n.Sends s := by
  intro s hs
  obtain ⟨target, payload, rfl, h⟩ := opening_may s hs
  exact .publication (.inr rfl) h

/-- Statuses and logs do not answer the message. -/
theorem logSteps_unanswered {logPath : Option String} : ∀ s ∈ logSteps logPath sid, ∀ sent,
    bodyOf (s.obs sent) = none := by
  intro s hs sent
  obtain ⟨path, _, rfl⟩ := List.mem_map.mp hs
  rfl

theorem responses_must {body : Except String String} {rest : List Step}
    (hrest : ∀ s ∈ rest, ∀ sent, bodyOf (s.obs sent) = none)
    (hes : Chain (.must (.responded body) :: rest) es out) : responses es = [body] := by
  rcases hes.must_cons with rfl | ⟨es', rfl, hes'⟩
  · rfl
  · have hnone : responses es' = [] := hes'.filterMap_eq_nil hrest
    show body :: responses es' = [body]
    rw [hnone]

theorem responses_answers (hes : Chain (n.answers sid r) es out) : responses es = r.body.toList := by
  have hnone : (∀ s ∈ n.answers sid r, ∀ sent, bodyOf (s.obs sent) = none) → responses es = [] :=
    hes.filterMap_eq_nil
  cases r with
  | restarted => exact hnone fun s hs sent => by rw [List.mem_singleton.mp hs]; rfl
  | shutDown => exact hnone fun s hs => absurd hs List.not_mem_nil
  | paused err => exact hnone fun s hs sent => by rw [List.mem_singleton.mp hs]; rfl
  | upgraded r =>
    refine hnone fun s hs sent => ?_
    rcases List.mem_cons.mp hs with rfl | hs
    · rfl
    · exact logSteps_unanswered s hs sent
  | logs r =>
    refine hnone fun s hs sent => ?_
    obtain ⟨r, _, rfl⟩ := List.mem_map.mp hs
    rfl
  | configured r => exact responses_must logSteps_unanswered hes
  | initiated r =>
    refine responses_must (fun s hs sent => ?_) hes
    cases hsuccess : r.success with
    | false =>
      rw [hsuccess] at hs
      cases hs
    | true =>
      rw [hsuccess, if_pos rfl, List.mem_cons, List.mem_singleton] at hs
      rcases hs with rfl | rfl <;> rfl
  | imported r =>
    refine hnone fun s hs sent => ?_
    rcases List.mem_cons.mp hs with rfl | hs
    · rfl
    · exact logSteps_unanswered s hs sent
  | drivers r => exact responses_must (fun s hs => absurd hs List.not_mem_nil) hes
  | validated r => exact responses_must (fun s hs => absurd hs List.not_mem_nil) hes

theorem logSteps_unspawned {logPath : Option String} {req : ImportRequest} :
    ∀ s ∈ logSteps logPath sid, ∀ sent, .spawned req ≠ s.obs sent := by
  intro s hs sent
  obtain ⟨path, _, rfl⟩ := List.mem_map.mp hs
  exact nofun

/-- Only what a backfill was initiated for is spawned. -/
theorem initiated_of_spawn {req : ImportRequest} {s : Step} (hs : s ∈ n.answers sid r) {sent : Bool}
    (heq : .spawned req = s.obs sent) : ∃ init, r = .initiated init := by
  cases r with
  | initiated init => exact ⟨init, rfl⟩
  | shutDown => cases hs
  | logs r =>
    obtain ⟨r, _, rfl⟩ := List.mem_map.mp hs
    cases heq
  | upgraded r =>
    rcases List.mem_cons.mp hs with rfl | hs
    · cases heq
    · exact absurd heq (logSteps_unspawned s hs sent)
  | configured r =>
    rcases List.mem_cons.mp hs with rfl | hs
    · cases heq
    · exact absurd heq (logSteps_unspawned s hs sent)
  | imported r =>
    rcases List.mem_cons.mp hs with rfl | hs
    · cases heq
    · exact absurd heq (logSteps_unspawned s hs sent)
  | _ =>
    rw [List.mem_singleton.mp hs] at heq
    cases heq

/-- A spawned import, behind an answer that went out. -/
theorem spawned_initiated {init : InitBackfillResponse} {req : ImportRequest}
    (hes : Chain (n.answers sid (.initiated init)) es out) (hspawn : .spawned req ∈ es) :
    (∃ es', es = .responded init.gojson true :: es') ∧ init.success = true ∧
      req = ⟨n.flag "backfill", init.jobId⟩ := by
  rcases hes.must_cons with rfl | ⟨es', rfl, hes'⟩
  · cases List.mem_singleton.mp hspawn
  · have hin : .spawned req ∈ es' := (List.mem_cons.mp hspawn).resolve_left nofun
    obtain ⟨s, hs, sent, heq⟩ := hes'.mem _ hin
    cases hsuccess : init.success with
    | false =>
      rw [hsuccess] at hs
      cases hs
    | true =>
      rw [hsuccess, if_pos rfl, List.mem_cons, List.mem_singleton] at hs
      rcases hs with rfl | rfl
      · cases heq
      · cases heq
        exact ⟨⟨es', rfl⟩, rfl, rfl⟩

theorem imports_of_initiated {init : InitBackfillResponse} (h : n.request = some c)
    (hr : c.Returns (.initiated init)) :
    c = .backfillInit ⟨n.flag "backfill"⟩ ∧ n.opening text sid = [] := by
  cases c with
  | backfillInit req =>
    have hkind : n.kind = some .imports := kind_of_request h
    unfold request at h
    simp only [hkind, Option.some.injEq] at h
    refine ⟨h.symm, ?_⟩
    unfold opening
    simp only [hkind]
  | _ => exact hr.elim

end

end Notification

/-- Events that are neither a call nor a part of its answers. -/
structure Preliminary (n : Notification) (es : List Obs) : Prop where
  calls : calls es = []
  returns : returns es = []
  responses : responses es = []
  addressed : ∀ target payload sent, .published target payload sent ∈ es → n.Addresses target payload
  unspawned : ∀ req, .spawned req ∉ es

theorem preliminary_opening {n : Notification} {text sid : String} {es : List Obs} {out : Option Exn}
    (h : Chain (n.opening text sid) es out) : Preliminary n es where
  calls := h.filterMap_eq_nil fun s hs => (Notification.opening_sends s hs).called
  returns := h.filterMap_eq_nil fun s hs => (Notification.opening_sends s hs).returned
  responses := by
    refine h.filterMap_eq_nil fun s hs sent => ?_
    obtain ⟨target, payload, rfl, _⟩ := Notification.opening_may s hs
    rfl
  addressed target payload sent hmem := by
    obtain ⟨s, hs, sent', heq⟩ := h.mem _ hmem
    exact (Notification.opening_sends s hs).addressed heq.symm
  unspawned req hmem := by
    obtain ⟨s, hs, sent, heq⟩ := h.mem _ hmem
    obtain ⟨target, payload, rfl, _⟩ := Notification.opening_may s hs
    cases heq

/-- Nothing is called. -/
theorem Preliminary.orderly {n : Notification} {es : List Obs} {out : Option Exn} (h : Preliminary n es)
    (hcompleted : out = none → n.request = none)
    (hcontained : ∀ e, out = some e → e.isException = false) : Orderly n es out where
  called := .inl h.calls
  completed hout := by rw [hcompleted hout, h.calls]; rfl
  answered := by rw [h.responses, h.returns]; rfl
  addressed := h.addressed
  spawned req hmem := absurd hmem (h.unspawned req)
  contained e he hexception := by
    rw [hcontained e he] at hexception
    cases hexception

/-- The closure raises. -/
theorem Preliminary.orderly_raised {n : Notification} {es : List Obs} {c : Call} {e : Exn}
    (h : Preliminary n es) (hrequest : n.request = some c) : Orderly n (es ++ [.called c]) (some e) where
  called := .inr ⟨c, hrequest, by rw [calls_append, h.calls]; rfl⟩
  completed := nofun
  answered := by
    rw [responses_append, returns_append, h.responses, h.returns]
    rfl
  addressed target payload sent hmem := by
    rcases List.mem_append.mp hmem with hmem | hmem
    · exact h.addressed target payload sent hmem
    · cases List.mem_singleton.mp hmem
  spawned req hmem := by
    rcases List.mem_append.mp hmem with hmem | hmem
    · exact absurd hmem (h.unspawned req)
    · cases List.mem_singleton.mp hmem
  contained _ _ _ := ⟨c, hrequest, List.getLast?_concat⟩

/-- The closure returns. -/
theorem orderly_returned {n : Notification} {text sid sid' : String} {es es' : List Obs}
    {out : Option Exn} {c : Call} {r : Reply} (hrequest : n.request = some c)
    (hopening : Chain (n.opening text sid) es none) (hr : c.Returns r)
    (hes' : Chain (n.answers sid' r) es' out) :
    Orderly n (es ++ .called c :: .returned r :: es') out := by
  have h : Preliminary n es := preliminary_opening hopening
  have hsends := @Notification.answers_sends n c r sid' hrequest hr
  have hcalls : calls (es ++ .called c :: .returned r :: es') = [c] := by
    have hnone : calls es' = [] := hes'.filterMap_eq_nil fun s hs => (hsends s hs).called
    rw [calls_append, h.calls]
    show c :: calls es' = [c]
    rw [hnone]
  refine ⟨.inr ⟨c, hrequest, hcalls⟩, fun _ => by rw [hcalls, hrequest]; rfl, ?_, ?_, ?_, ?_⟩
  · have hnone : returns es' = [] := hes'.filterMap_eq_nil fun s hs => (hsends s hs).returned
    rw [responses_append, returns_append, h.responses, h.returns]
    show responses es' = (r :: returns es').filterMap Reply.body
    rw [hnone, Notification.responses_answers hes', List.filterMap_cons]
    cases r.body <;> rfl
  · intro target payload sent hmem
    rcases List.mem_append.mp hmem with hmem | hmem
    · exact h.addressed target payload sent hmem
    · have hin : .published target payload sent ∈ es' := by simpa using hmem
      obtain ⟨s, hs, sent', heq⟩ := hes'.mem _ hin
      exact (hsends s hs).addressed heq.symm
  · intro req hmem
    have hin : .spawned req ∈ es' := by
      rcases List.mem_append.mp hmem with hmem | hmem
      · exact absurd hmem (h.unspawned req)
      · simpa using hmem
    obtain ⟨s, hs, sent, heq⟩ := hes'.mem _ hin
    obtain ⟨init, rfl⟩ := Notification.initiated_of_spawn hs heq
    obtain ⟨⟨rest, rfl⟩, hsuccess, rfl⟩ := Notification.spawned_initiated hes' hin
    obtain ⟨rfl, hnothing⟩ := @Notification.imports_of_initiated n c sid text init hrequest hr
    rw [hnothing] at hopening
    cases hopening
    exact ⟨init, ⟨rest, rfl⟩, hsuccess, rfl⟩
  · intro e he hexception
    rw [hes'.not_exception e he] at hexception
    cases hexception

theorem Exchange.orderly {n : Notification} {text : String} {es : List Obs} {out : Option Exn}
    (h : Exchange n text es out) : Orderly n es out := by
  cases h with
  | quiet h hes => exact (preliminary_opening hes).orderly (fun _ => h) hes.not_exception
  | cut hes => exact (preliminary_opening hes).orderly nofun hes.not_exception
  | asked h hes hes' =>
    cases hes' with
    | raised => exact (preliminary_opening hes).orderly_raised h
    | returned hr hes' => exact orderly_returned h hes hr hes'

/-! ## What the parts of a callback do -/

/-- From `s` to `t` these events happened. -/
def events (W : Type) : Grading (Traced Unit W Obs) (List Obs) where
  Adds es s t := t.trace = s.trace ++ es
  one := []
  mul := (· ++ ·)
  refl _ := (List.append_nil _).symm
  trans h h' := by rw [h', h, List.append_assoc]

@[simp] theorem events_mul (es es' : List Obs) : (events W).mul es es' = es ++ es' := rfl

@[simp] theorem events_one : (events W).one = [] := rfl

abbrev Does {α : Type} (p : NoticeProg W α) (Q : α → List Obs → Prop) (E : Exn → List Obs → Prop) : Prop :=
  (events W).Does p Q E

/-- A program that takes steps, for some session. -/
abbrev Performs (p : NoticeProg W Unit) (steps : String → List Step) : Prop :=
  Does p (fun _ es => ∃ sid, Chain (steps sid) es none) fun e es => ∃ sid, Chain (steps sid) es (some e)

section Parts

theorem does_note (o : Obs) :
    Does (note o : NoticeProg W Unit) (fun _ es => es = [o]) fun _ _ => False :=
  does_update (g := events W) fun _ => rfl

theorem does_outside {α : Type} (p : Prog Exn W α) :
    Does (outside p : NoticeProg W α) (fun _ es => es = []) fun _ es => es = [] := by
  have hsame : ∀ (s : Traced Unit W Obs) (w : W), (s.inWorld w).trace = s.trace ++ [] :=
    fun _ _ => (List.append_nil _).symm
  exact fun s => wp_outside (fun a w _ => ⟨[], rfl, hsame s w⟩) fun e w _ => ⟨[], rfl, hsame s w⟩

theorem does_session (f : W → String) :
    Does (outside (asks f) : NoticeProg W String) (fun _ es => es = []) fun _ _ => False :=
  fun _ => ⟨[], rfl, (List.append_nil _).symm⟩

theorem does_recorded (o : Bool → Obs) (p : Prog Exn W Unit) :
    Does (recorded o p) (fun _ es => es = [o true]) fun _ es => es = [o false] := by
  refine Does.bind (Q := fun _ es => es = []) (F := fun _ es => es = [o false]) ?_
    (fun _ _ h => h) fun _ es hes => ?_
  · refine Does.handle (does_outside p) fun e es hes => ?_
    subst hes
    refine (does_note (o false)).bind (fun _ _ h => h.elim) fun _ es hes => ?_
    subst hes
    exact does_raise rfl
  · subst hes
    exact (does_note (o true)).mono (fun _ _ h => h) fun _ _ h => h.elim

/-- An attempt contains every exception that is one of `Exception`. -/
theorem does_attempt (o : Bool → Obs) (p : Prog Exn W Unit) :
    Does (attempt (recorded o p)) (fun ok es => es = [o ok])
      fun e es => e.isException = false ∧ es = [o false] := by
  refine Does.tryExcept (F := fun _ es => es = [o false]) ?_ (fun e es hes _ => ?_)
    fun e es hes he => ⟨he, hes⟩
  · refine (does_recorded o p).bind (fun _ _ h => h) fun _ es hes => ?_
    subst hes
    exact does_pure rfl
  · subst hes
    exact does_pure rfl

theorem does_invoke {α : Type} (c : Call) (reply : α → Reply) (p : Prog Exn W α) :
    Does (invoke c reply p) (fun a es => es = [.called c, .returned (reply a)])
      fun _ es => es = [.called c] := by
  refine (does_note (.called c)).bind (fun _ _ h => h.elim) fun _ es hes => ?_
  subst hes
  refine (does_outside p).bind (fun _ es hes => ?_) fun a es hes => ?_
  · subst hes
    rfl
  subst hes
  refine (does_note (.returned (reply a))).bind (fun _ _ h => h.elim) fun _ es hes => ?_
  subst hes
  exact does_pure rfl

/-- The last thing that is sent. -/
theorem performs_attempt {s : Step} {o : Bool → Obs} (hs : s = .must o ∨ s = .may o)
    (p : Prog Exn W Unit) :
    Performs (do let _ ← attempt (recorded o p); pure ()) fun _ => [s] := by
  refine (does_attempt o p).bind (fun e es hes => ?_) fun ok es hes => ?_
  · obtain ⟨he, rfl⟩ := hes
    exact ⟨"", .cut hs he⟩
  · subst hes
    refine does_pure ⟨"", ?_⟩
    rcases hs with rfl | rfl
    · cases ok with
      | true => exact .sent .done
      | false => exact .lost
    · cases ok with
      | true => exact .sent .done
      | false => exact .missed .done

/-- What is sent first, and what follows only if it went out. -/
theorem performs_must {o : Bool → Obs} (p : Prog Exn W Unit) {f : Bool → NoticeProg W Unit}
    {steps : String → List Step} (hlost : f false = pure ()) (hsent : Performs (f true) steps) :
    Performs (do let sent ← attempt (recorded o p); f sent) fun sid => .must o :: steps sid := by
  refine (does_attempt o p).bind (fun e es hes => ?_) fun ok es hes => ?_
  · obtain ⟨he, rfl⟩ := hes
    exact ⟨"", .cut (.inl rfl) he⟩
  · subst hes
    cases ok with
    | true =>
      exact hsent.mono (fun _ es ⟨sid, h⟩ => ⟨sid, .sent h⟩) fun e es ⟨sid, h⟩ => ⟨sid, .sent h⟩
    | false =>
      rw [hlost]
      exact does_pure ⟨"", .lost⟩

variable (handler : Handler W) (channel : Channel W)

theorem performs_publishSimpleStatus (action message : String) :
    Performs (publishSimpleStatus channel action message) fun sid => [statusStep sid action message] := by
  refine (does_session _).bind (fun _ _ h => h.elim) fun sid es hes => ?_
  subst hes
  exact (performs_attempt (s := statusStep sid action message) (.inr rfl) _).mono
    (fun _ es ⟨_, h⟩ => ⟨sid, h⟩) fun e es ⟨_, h⟩ => ⟨sid, h⟩

theorem performs_respondGenerically (action : String) (err : Option Exn) :
    Performs (respondGenerically channel action err) fun sid => [outcomeStep sid action err] := by
  refine (does_session _).bind (fun _ _ h => h.elim) fun sid es hes => ?_
  subst hes
  exact (performs_attempt (s := outcomeStep sid action err) (.inl rfl) _).mono
    (fun _ es ⟨_, h⟩ => ⟨sid, h⟩) fun e es ⟨_, h⟩ => ⟨sid, h⟩

theorem performs_nothing : Performs (pure () : NoticeProg W Unit) fun _ => [] := does_pure ⟨"", .done⟩

theorem performs_sendLogPath (logPath : Option String) (sid : String) :
    Performs (sendLogPath channel logPath sid) fun _ => logSteps logPath sid := by
  cases logPath with
  | none => exact performs_nothing
  | some path => exact performs_attempt (s := logsStep ⟨path, sid⟩) (.inl rfl) _

theorem performs_startImport (backfill : Bool) (init : InitBackfillResponse) :
    Performs (startImport channel backfill init) fun sid =>
      if init.success then [statusStep sid "import" "", .just (.spawned ⟨backfill, init.jobId⟩)]
      else [] := by
  unfold startImport
  cases init.success with
  | false => exact performs_nothing
  | true =>
    refine (performs_publishSimpleStatus channel "import" "").bind (fun e es ⟨sid, h⟩ => ⟨sid, h.may_cut⟩)
      fun _ es ⟨sid, h⟩ => ?_
    refine (does_note _).mono (fun _ es' hes' => ⟨sid, ?_⟩) fun _ _ h => h.elim
    subst hes'
    exact h.may_append (.sent .done)

/-! ### Calls -/

section

variable {α : Type} {c : Call} {reply : α → Reply} {p : Prog Exn W α} {f : α → NoticeProg W Unit}
  {answers : String → Reply → List Step}

/-- A closure that is asked, and what is made of its value. -/
theorem does_asked (hreturns : ∀ a, c.Returns (reply a))
    (hf : ∀ a, Performs (f a) fun sid => answers sid (reply a)) :
    Does (do let a ← invoke c reply p; f a) (fun _ es => Asked c answers es none)
      fun e es => Asked c answers es (some e) := by
  refine (does_invoke c reply p).bind (fun e es hes => ?_) fun a es hes => ?_
  · subst hes
    exact .raised
  · subst hes
    exact (hf a).mono (fun _ es ⟨sid, h⟩ => .returned (hreturns a) h)
      fun e es ⟨sid, h⟩ => .returned (hreturns a) h

end

variable (n : Notification)

theorem asked_callSendLogs :
    Does (callSendLogs handler channel) (fun _ es => Asked .sendLogs n.answers es none)
      fun e es => Asked .sendLogs n.answers es (some e) := by
  refine does_asked (by intro; trivial) fun resp => ?_
  cases resp with
  | none => exact performs_nothing
  | some r => exact performs_attempt (s := logsStep r) (.inl rfl) _

theorem asked_configure (req : ConfigureRequest) :
    Does (configure handler channel req) (fun _ es => Asked (.configure req) n.answers es none)
      fun e es => Asked (.configure req) n.answers es (some e) :=
  does_asked (by intro; trivial) fun resp =>
    performs_must _ rfl (performs_sendLogPath channel resp.logPath resp.sessionId)

theorem asked_upgrade (version : String) :
    Does (upgrade handler channel version) (fun _ es => Asked (.upgrade version) n.answers es none)
      fun e es => Asked (.upgrade version) n.answers es (some e) :=
  does_asked (by intro; trivial) fun resp =>
    performs_must _ rfl (performs_sendLogPath channel resp.logPath resp.sessionId)

theorem asked_importaction :
    Does (importaction handler channel (n.flag "backfill"))
      (fun _ es => Asked (.backfillInit ⟨n.flag "backfill"⟩) n.answers es none)
      fun e es => Asked (.backfillInit ⟨n.flag "backfill"⟩) n.answers es (some e) :=
  does_asked (by intro; trivial) fun init =>
    performs_must _ rfl (performs_startImport channel (n.flag "backfill") init)

theorem asked_runImport (req : ImportRequest) :
    Does (runImport handler channel req) (fun _ es => Asked (.importAction req) n.answers es none)
      fun e es => Asked (.importAction req) n.answers es (some e) :=
  does_asked (by intro; trivial) fun resp =>
    performs_must _ rfl (performs_sendLogPath channel resp.logPath resp.sessionId)

theorem asked_driverconfig :
    Does (driverconfig handler channel) (fun _ es => Asked .driverConfig n.answers es none)
      fun e es => Asked .driverConfig n.answers es (some e) :=
  does_asked (by intro; trivial) fun resp => performs_attempt (.inl rfl) _

theorem asked_validate (driver : String) (config : List (String × Json)) :
    Does (validate handler channel driver config)
      (fun _ es => Asked (.validate driver config) n.answers es none)
      fun e es => Asked (.validate driver config) n.answers es (some e) :=
  does_asked (by intro; trivial) fun resp => performs_attempt (.inl rfl) _

/-! ### Actions -/

/-- A call with nothing announced before it. -/
theorem exchange_of_asked (text : String) {c : Call} {p : NoticeProg W Unit}
    (hrequest : n.request = some c) (hopening : n.opening text "" = [])
    (h : Does p (fun _ es => Asked c n.answers es none) fun e es => Asked c n.answers es (some e)) :
    Does p (fun _ es => Exchange n text es none) fun e es => Exchange n text es (some e) := by
  have hnone : Chain (n.opening text "") [] none := hopening ▸ .done
  exact h.mono (fun _ es hes => .asked hrequest hnone hes) fun e es hes => .asked hrequest hnone hes

/-- A status, and then a call. -/
theorem exchange_of_status (text : String) {action : String} {c : Call} {p : NoticeProg W Unit}
    (hrequest : n.request = some c) (hopening : ∀ sid, n.opening text sid = [statusStep sid action ""])
    (h : Does p (fun _ es => Asked c n.answers es none) fun e es => Asked c n.answers es (some e)) :
    Does (do publishSimpleStatus channel action ""; p) (fun _ es => Exchange n text es none)
      fun e es => Exchange n text es (some e) := by
  refine (performs_publishSimpleStatus channel action "").bind (fun e es ⟨sid, hes⟩ => ?_)
    fun _ es ⟨sid, hes⟩ => ?_
  · have hopened : Chain (n.opening text sid) es (some e) := hopening sid ▸ hes
    exact .cut hopened
  · have hopened : Chain (n.opening text sid) es none := hopening sid ▸ hes
    exact h.mono (fun _ es' hes' => .asked hrequest hopened hes')
      fun e es' hes' => .asked hrequest hopened hes'

/-- Nothing is called. -/
theorem exchange_of_performs {text : String} {p : NoticeProg W Unit}
    (hrequest : n.request = none) (h : Performs p (n.opening text)) :
    Does p (fun _ es => Exchange n text es none) fun e es => Exchange n text es (some e) :=
  h.mono (fun _ _ ⟨_, hes⟩ => .quiet hrequest hes) fun _ _ ⟨_, hes⟩ => .quiet hrequest hes

variable {n}

theorem performs_refused {text : String} (htext : n.gojson = .ok text) :
    Performs (refused n : NoticeProg W Unit) fun _ => [] := by
  unfold refused described
  rw [htext]
  exact performs_nothing

theorem does_dispatch {text : String} (htext : n.gojson = .ok text) :
    Does (dispatch handler channel n) (fun _ es => Exchange n text es none)
      fun e es => Exchange n text es (some e) := by
  unfold dispatch
  have hasked := @exchange_of_asked W n text
  have hstatus := @exchange_of_status W channel n text
  have hperforms := @exchange_of_performs W n text
  unfold Notification.request Notification.opening at hasked hstatus hperforms
  cases hkind : n.kind with
  | none =>
    simp only [hkind] at hperforms
    exact hperforms trivial performs_nothing
  | some a =>
    simp only [hkind] at hasked hstatus hperforms
    cases a with
    | restart =>
      refine hstatus rfl (fun _ => rfl) ?_
      exact does_asked (fun _ => trivial) fun _ => performs_respondGenerically channel n.action none
    | ping =>
      refine hperforms rfl ?_
      unfold ping
      cases n.text "subject" with
      | none => exact performs_refused htext
      | some target => exact performs_attempt (.inr rfl) _
    | shutdown =>
      simp only [shutdown]
      cases hmessage : n.text "message" with
      | none => exact hperforms (by rw [hmessage]; rfl) (performs_refused htext)
      | some message =>
        refine hasked (by rw [hmessage]; rfl) rfl ((does_invoke _ _ _).mono (fun _ es hes => ?_)
          fun _ es hes => ?_)
        · subst hes
          exact @Asked.returned _ _ _ "" _ _ trivial .done
        · subst hes
          exact .raised
    | pause =>
      refine hasked rfl rfl ?_
      exact does_asked (fun _ => trivial) fun err => performs_respondGenerically channel n.action err
    | unpause =>
      refine hasked rfl rfl ?_
      exact does_asked (fun _ => trivial) fun err => performs_respondGenerically channel n.action err
    | upgrade =>
      simp only [upgradeTo]
      cases hversion : n.text "version" with
      | none =>
        simp only [hversion] at hperforms
        refine hperforms rfl ?_
        simp only [described, htext]
        exact performs_publishSimpleStatus channel "upgrade" (invalidUpgrade text)
      | some version =>
        simp only [hversion] at hstatus
        exact hstatus rfl (fun _ => rfl) (asked_upgrade handler channel n version)
    | sendlogs => exact hasked rfl rfl (asked_callSendLogs handler channel n)
    | configure => exact hasked rfl rfl (asked_configure handler channel n _)
    | imports => exact hasked rfl rfl (asked_importaction handler channel n)
    | driverconfig => exact hasked rfl rfl (asked_driverconfig handler channel n)
    | validate =>
      simp only [validateOf]
      cases hdriver : n.text "driver" with
      | none => exact hperforms (by rw [hdriver]; rfl) (performs_refused htext)
      | some driver =>
        cases hconfig : n.object "config" with
        | none => exact hperforms (by rw [hdriver, hconfig]; rfl) (performs_refused htext)
        | some config =>
          exact hasked (by rw [hdriver, hconfig]; rfl) rfl (asked_validate handler channel n driver config)

end Parts

/-! ## Every message -/

section

variable (codec : Codec) (handler : Handler W) (channel : Channel W)

/-- The exception that gets out. -/
def failure {α : Type} : Except Exn α → Option Exn
  | .ok _ => none
  | .error e => some e

theorem Does.failure {p : NoticeProg W Unit} {R : List Obs → Option Exn → Prop}
    (h : Does p (fun _ es => R es none) fun e es => R es (some e)) (s : Traced Unit W Obs) :
    ∃ es, (p s).2.trace = s.trace ++ es ∧ R es (failure (p s).1) := by
  rcases h.result s with ⟨_, es, hok, hes, htrace⟩ | ⟨e, es, herror, hes, htrace⟩
  · exact ⟨es, htrace, hok ▸ hes⟩
  · exact ⟨es, htrace, herror ▸ hes⟩

/-- Whatever the closures return or raise and whatever the connection does: a message that is no
notification is dropped, one that has no JSON text is refused before anything happens, and any
other one leads to an exchange of the protocol, which is orderly.  An import that was started is one
call, whose outcome is published before its logs. -/
theorem callback_exchanges (msg : Msg) (s : Traced Unit W Obs) :
    (match received codec msg with
    | .error _ => callback codec handler channel msg s = (.ok (), s)
    | .ok n =>
      match n.gojson with
      | .error message => callback codec handler channel msg s = (.error (.valueError message), s)
      | .ok text => ∃ es, (callback codec handler channel msg s).2.trace = s.trace ++ es ∧
          Exchange n text es (failure (callback codec handler channel msg s).1) ∧
          Orderly n es (failure (callback codec handler channel msg s).1)) ∧
      ∀ n req, ∃ es, (runImport handler channel req s).2.trace = s.trace ++ es ∧
        Asked (.importAction req) (Notification.answers n) es
          (failure (runImport handler channel req s).1) := by
  refine ⟨?_, fun n req => (asked_runImport handler channel n req).failure s⟩
  unfold callback
  cases received codec msg with
  | error e => rfl
  | ok n =>
    cases htext : n.gojson with
    | error message =>
      simp only [described, htext]
      rfl
    | ok text =>
      simp only [described, htext]
      obtain ⟨es, htrace, hes⟩ := (does_dispatch handler channel htext).failure s
      exact ⟨es, htrace, hes, hes.orderly⟩

end

end Notifications
end Server
end Eds
