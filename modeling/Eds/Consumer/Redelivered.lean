import Eds.Consumer.Handover
import Eds.Drivers.Redelivery
import Eds.Lexing.Codewords

/-!
# One pass over the stream

The stream delivers what has not been acknowledged, in order, to one session after another.
A session is a run of the drain task over the database the session before has left; it may
be cut anywhere, and of what it acknowledged the server has received the first part.

The statements of a batch that was run and not acknowledged are run again.  `Ahead` makes
a session a `Round` of the abstract redelivery, and since the statements of a table keyed
by `id` may be run again, what is outstanding always completes one pass over the stream.
-/

namespace Eds
namespace Consumer

open Effects Effects.Prog Effects.Traced Drivers Drivers.SqlDriverBase Collections

variable {D M W S T : Type}

/-! ## What was taken -/

section Taken

variable {cfg : Config} {env : Env W M}

/-- Every message that was taken is settled before the next one, unless the run is over. -/
def Settles (s : State W M) : Phase M → Prop
  | .idle | .acking _ | .skipping _ | .nacking _ none => settled s.trace = tooks s.trace
  | .taken m | .held m _ | .checked m _ => settled s.trace ++ [m] = tooks s.trace
  | .nacking _ (some _) | .raised _ => settled s.trace <+: tooks s.trace

@[simp] theorem settled_nil : settled ([] : List (Obs M)) = [] := rfl

theorem Settles.of_eq {s : State W M} (h : settled s.trace = tooks s.trace) :
    settled s.trace <+: tooks s.trace := h ▸ List.prefix_rfl

/-- A failed call neither takes nor settles a message. -/
theorem settled_raised {c : Call M} {e : Exn} (t : List (Obs M)) :
    settled (t ++ [.raised c e]) = settled t ∧ tooks (t ++ [.raised c e]) = tooks t := by
  simp [Obs.settled, Obs.taken]

theorem Settles.raised {s : State W M} {m : M} (h : settled s.trace ++ [m] = tooks s.trace)
    {c : Call M} {e : Exn} : settled (s.trace ++ [.raised c e]) <+: tooks (s.trace ++ [.raised c e]) := by
  rw [(settled_raised _).1, (settled_raised _).2, ← h]
  exact List.prefix_append _ _

theorem settles_micro [DecidableEq M] {x y : Phase M × State W M} (h : Micro cfg env x y)
    (hx : Settles x.2 x.1) : Settles y.2 y.1 := by
  cases h with
  | metadata _ => exact hx
  | metadataRaised _ _ => exact Settles.raised hx
  | outOfOrder _ _ => exact Settles.raised hx
  | inOrder _ => exact hx
  | @aside ph s w _ =>
    cases ph with
    | nacking rest next => cases next <;> exact hx
    | _ => exact hx
  | stageRaised _ _ _ => exact Settles.raised hx
  | skipRaised _ _ => exact Settles.raised hx
  | @skipped m seq s =>
    have hs : settled s.trace ++ [m] = tooks s.trace := hx
    simpa [Settles, Obs.settled, Obs.taken] using hs
  | @skipAcked m s r w _ _ =>
    have hs : settled s.trace = tooks s.trace := hx
    cases r <;> simpa [Settles, Obs.settled, Obs.taken] using hs
  | @skipAckCrashed m s e w _ _ =>
    have hs : settled s.trace = tooks s.trace := hx
    simp [Settles, Obs.settled, Obs.taken, hs]
  | @processed m seq s evt b w _ =>
    have hs : settled s.trace ++ [m] = tooks s.trace := hx
    simpa [Settles, Obs.settled, Obs.taken] using hs
  | processRaised _ _ => exact Settles.raised hx
  | @catchUpRaised m s e w _ _ =>
    have hs : settled s.trace = tooks s.trace := hx
    simpa [Settles, Obs.settled, Obs.taken] using hs
  | started _ => exact hx
  | @flushed s w _ =>
    have hs : settled s.trace = tooks s.trace := hx
    simpa [Settles, Obs.settled, Obs.taken] using hs
  | @flushRaised s e w _ _ =>
    have hs : settled s.trace = tooks s.trace := hx
    simp [Settles, Obs.settled, Obs.taken, hs]
  | @acked m rest s w _ =>
    have hs : settled s.trace = tooks s.trace := hx
    simpa [Settles, Obs.settled, Obs.taken] using hs
  | @ackRaised m rest s e w _ _ =>
    have hs : settled s.trace = tooks s.trace := hx
    simp [Settles, Obs.settled, Obs.taken, hs]
  | @ackCrashed m rest s e w _ _ =>
    have hs : settled s.trace = tooks s.trace := hx
    simp [Settles, Obs.settled, Obs.taken, hs]
  | flushDone => exact hx
  | @naked m rest next s r w _ _ =>
    cases next with
    | none =>
      have hs : settled s.trace = tooks s.trace := hx
      cases r <;> simpa [Settles, Obs.settled, Obs.taken] using hs
    | some e =>
      have hs : settled s.trace <+: tooks s.trace := hx
      cases r <;> simpa [Settles, Obs.settled, Obs.taken] using hs
  | @nakCrashed m rest next s e w _ _ =>
    have hs : settled s.trace <+: tooks s.trace := by
      cases next with
      | none => exact Settles.of_eq hx
      | some e => exact hx
    simpa [Settles, Obs.settled, Obs.taken] using hs
  | @nakDone next s => cases next <;> exact hx
  | @crashed ph s c e w hc _ _ =>
    show settled (s.trace ++ [.raised c e]) <+: tooks (s.trace ++ [.raised c e])
    cases hc with
    | metadata => exact Settles.raised hx
    | stage _ => exact Settles.raised hx
    | process => exact Settles.raised hx
    | catchUp =>
      rw [(settled_raised _).1, (settled_raised _).2]
      exact Settles.of_eq hx
    | flush =>
      rw [(settled_raised _).1, (settled_raised _).2]
      exact Settles.of_eq hx

theorem settles_session [DecidableEq M] {s₀ : State W M} {x : Phase M × State W M}
    (h : Session cfg env s₀ x) (h₀ : Settles s₀ .idle) : Settles x.2 x.1 := by
  induction h with
  | start => exact h₀
  | @took s m _ ih =>
    have hs : settled s.trace = tooks s.trace := ih
    simp [Settles, Obs.settled, Obs.taken, hs]
  | giveBack _ ih => exact ih
  | micro _ hxy ih => exact settles_micro hxy ih

theorem Settles.begins {s : State W M} {ph : Phase M} (h : Settles s ph) :
    settled s.trace <+: tooks s.trace := by
  cases ph with
  | idle => exact Settles.of_eq h
  | acking rest => exact Settles.of_eq h
  | skipping m => exact Settles.of_eq h
  | taken m => exact ⟨[m], h⟩
  | held m seq => exact ⟨[m], h⟩
  | checked m seq => exact ⟨[m], h⟩
  | nacking rest next =>
    cases next with
    | none => exact Settles.of_eq h
    | some e => exact h
  | raised e => exact h

/-- The messages handed over are the settled ones that were not skipped. -/
theorem handed_eq_filter {event : M → Option DBChangeEvent} {t : List (Obs M)}
    (h : ∀ o ∈ t, Consistent event o) :
    (handed t).map Handed.msg = (settled t).filter fun m => (event m).isSome := by
  induction t with
  | nil => rfl
  | cons o rest ih =>
    have hrest := ih fun o ho => h o (List.mem_cons_of_mem _ ho)
    have ho := h o List.mem_cons_self
    rw [handed_cons, settled_cons, List.map_append, List.filter_append, hrest]
    congr 1
    cases o with
    | skipped m =>
      have hm : event m = none := ho
      simp [Obs.handed, Obs.settled, hm]
    | processed m seq evt =>
      have hm : event m = some evt := ho
      simp [Obs.handed, Obs.settled, hm]
    | _ => rfl

/-- What is handed over is the beginning of what carries a statement. -/
theorem handed_carrying {event : M → Option DBChangeEvent} {build : DBChangeEvent → Except Exn S}
    {l : Ledger D M S T} {s : SqlState D M} (hl : l.carries = statement event build)
    (hconsistent : ∀ o ∈ s.trace, Consistent event o)
    (hcarry : ∀ m ∈ (handed s.trace).map Handed.msg, (l.carries m).isSome = true) :
    (handed s.trace).map Handed.msg = carrying l.carries (settled s.trace) := by
  rw [handed_eq_filter hconsistent] at hcarry ⊢
  refine List.filter_congr fun m hm => ?_
  cases hevent : event m with
  | none => simp [hl, statement, hevent]
  | some evt =>
    refine (hcarry m (List.mem_filter.mpr ⟨hm, ?_⟩)).symm
    rw [hevent]
    rfl

end Taken

/-! ## Sessions -/

/-- What a session is given: its configuration and surroundings, the last number of the
server, the driver's two flags, and what happens to its drain task. -/
structure Visit (D M : Type) where
  cfg : Config
  rest : Env D M
  sequence : Int
  hasRegistry : Bool
  hasDb : Bool
  moves : List (Bufferer.Move M)

namespace Visit

/-- The messages put into the queue. -/
def delivered (v : Visit D M) : List M := (v.moves.flatMap Bufferer.Move.added).filterMap id

variable [DecidableEq M]

/-- A new processor and a new driver, in upsert mode, over the database `d`. -/
def run (hooks : SqlHooks D) (v : Visit D M) (d : D) : Bufferer (SqlWorld D) M :=
  (Bufferer.initial [] false v.sequence ⟨⟨[], 0, .upsert, v.hasRegistry, v.hasDb⟩, d, []⟩).exec
    v.cfg (sqlEnv hooks v.rest) v.moves

/-- The session `v` between two states of the stream and the database.  It is delivered the
first of the outstanding messages, and the server receives the first of its
acknowledgements. -/
structure Between (hooks : SqlHooks D) (table : D → T) (event : M → Option DBChangeEvent)
    (log : List M) (v : Visit D M) (received : List M) (x y : Delivery M D) : Prop where
  apart : v.rest.Spares (Untouched table)
  steady : Steady v.cfg (sqlEnv hooks v.rest) event
  first : v.delivered <+: outstanding log x.confirmed
  heard : received <+: acked (v.run hooks x.store).processor.trace
  confirmed : y.confirmed = x.confirmed ++ received
  store : table y.store = table (v.run hooks x.store).processor.world.world

variable {hooks : SqlHooks D} {table : D → T} {event : M → Option DBChangeEvent} {log : List M}
  {build : DBChangeEvent → Except Exn S} {render : S → String} {exec : T → S → T} {v : Visit D M}
  {received : List M} {x y : Delivery M D}

theorem tooks_run (d : D) : tooks (v.run hooks d).processor.trace <+: v.delivered := by
  have hsplit : ∀ (l : List M) (q : List (Option M)),
      (l.map some ++ q).filterMap id = l ++ q.filterMap id := by
    intro l q
    rw [List.filterMap_append, List.filterMap_map]
    simp
  rcases Bufferer.accounts_initial v.cfg (sqlEnv hooks v.rest) [] false v.sequence
    ⟨⟨[], 0, .upsert, v.hasRegistry, v.hasDb⟩, d, []⟩ v.moves with hq | ⟨_, hq⟩
  · rw [Bufferer.offered, List.nil_append] at hq
    rw [delivered, hq, hsplit]
    exact List.prefix_append _ _
  · rw [Bufferer.offered, List.nil_append] at hq
    rw [delivered, hq, hsplit]
    exact List.prefix_append _ _

theorem settled_run (d : D) :
    settled (v.run hooks d).processor.trace <+: v.delivered := by
  let b : Bufferer (SqlWorld D) M := Bufferer.initial [] false v.sequence
    ⟨⟨[], 0, .upsert, v.hasRegistry, v.hasDb⟩, d, []⟩
  have hstart : Bufferer.Follows v.cfg (sqlEnv hooks v.rest) b.processor b := ⟨.idle, .start, rfl⟩
  obtain ⟨ph, hsession, _⟩ := Bufferer.follows_exec hstart v.moves
  exact (settles_session hsession rfl).begins.trans (tooks_run d)

theorem acked_run (hdb : Transacts hooks table build render exec fun evt => ∃ m, event m = some evt)
    (hlog : log.Nodup) (h : v.Between hooks table event log received x y) :
    let l : Ledger D M S T := ⟨table, table x.store, statement event build, render, exec⟩
    l.Ahead (v.run hooks x.store).processor := by
  intro l
  have hserves : l.Serves hooks v.rest event build := ⟨hdb, h.apart, rfl⟩
  have hnodup : (tooks (v.run hooks x.store).processor.trace).Nodup := by
    refine (hlog.sublist (outstanding_sublist log x.confirmed)).sublist ?_
    exact ((tooks_run x.store).trans h.first).sublist
  have hstart : l.Mirrors (Bufferer.initial [] false v.sequence
      ⟨⟨[], 0, .upsert, v.hasRegistry, v.hasDb⟩, x.store, []⟩ : Bufferer (SqlWorld D) M).processor [] [] :=
    ⟨rfl, rfl, rfl, rfl, rfl, fun m hm => absurd hm List.not_mem_nil⟩
  refine (Ledger.stands_exec hserves h.steady v.moves ⟨fun _ => ?_, ?_⟩ ?_ hnodup).2
  · exact ⟨List.Sublist.refl [], hstart⟩
  · exact hstart.ahead List.prefix_rfl
  · exact fun o ho => absurd ho List.not_mem_nil

/-- A session is a round of the redelivery. -/
theorem Between.round (h : v.Between hooks table event log received x y)
    (hdb : Transacts hooks table build render exec fun evt => ∃ m, event m = some evt)
    (hlog : log.Nodup) :
    ∃ applied, Round (statement event build) exec log ⟨x.confirmed, table x.store⟩
      ⟨y.confirmed, table y.store⟩ applied received := by
  obtain ⟨done, hpaid, hhanded, hcarry, htable⟩ := acked_run hdb hlog h
  refine ⟨done, ?_, ?_, ?_, h.confirmed⟩
  · have hconsistent : ∀ o ∈ (v.run hooks x.store).processor.trace, Consistent event o :=
      exec_consistent h.steady _ _ _ _ _
    rw [handed_carrying rfl hconsistent hcarry] at hhanded
    exact hhanded.trans (((settled_run x.store).trans h.first).filter _)
  · exact (h.heard.filter _).trans hpaid
  · exact h.store.trans htable

/-- Between any number of sessions. -/
abbrev Reaches (hooks : SqlHooks D) (table : D → T) (event : M → Option DBChangeEvent)
    (log : List M) : Delivery M D → Delivery M D → Prop :=
  Relation.ReflTransGen fun x y => ∃ v received, Between hooks table event log v received x y

theorem caughtUp_reached (hdb : Transacts hooks table build render exec fun evt => ∃ m, event m = some evt)
    (hrun : ∀ ms : List M, Rerunnable exec (ms.filterMap (statement event build)))
    (hlog : log.Nodup) (hreach : Reaches hooks table event log x y) :
    Delivery.caughtUp (statement event build) exec log ⟨y.confirmed, table y.store⟩ =
      Delivery.caughtUp (statement event build) exec log ⟨x.confirmed, table x.store⟩ := by
  refine rounds_caughtUp hlog hrun ?_
  refine hreach.lift (fun z : Delivery M D => (⟨z.confirmed, table z.store⟩ : Delivery M T)) ?_
  rintro z z' ⟨v, received, h⟩
  obtain ⟨applied, hround⟩ := h.round hdb hlog
  exact ⟨applied, received, hround⟩

end Visit

/-! ## The two upsert drivers -/

section Upserts

variable {V : Type} [DecidableEq V] {engine : Engine V} {model : Schema}
  {event : M → Option DBChangeEvent}

/-- Statements that mean agreeing writes may be run again. -/
theorem rerunnable_of_meaning {exec : Table V → S → Table V} {build : DBChangeEvent → Except Exn S}
    {meaning : S → Option (V × Write String (Option V))}
    (hexec : ∀ m s, statement event build m = some s → ∀ t, exec t s = Collections.exec t (meaning s))
    (hagrees : ∀ m s, statement event build m = some s → ∀ k w, meaning s = some (k, w) → w.Agrees)
    (ms : List M) : Rerunnable exec (ms.filterMap (statement event build)) := by
  intro t
  rw [← List.foldl_append]
  refine foldl_replay meaning (fun s hs t => ?_) (fun s hs k w hw => ?_) 0 t
  · obtain ⟨m, _, hm⟩ := List.mem_filterMap.mp hs
    exact hexec m s hm t
  · obtain ⟨m, _, hm⟩ := List.mem_filterMap.mp hs
    exact hagrees m s hm k w hw

theorem postgresql_exec (hpk : model.primaryKeys = ["id"])
    (hevent : ∀ m evt, event m = some evt → Delivered afterObject model evt) (m : M)
    (s : Postgresql.Statement) (h : statement event (Postgresql.toSql · model) m = some s) (t : Table V) :
    s.exec engine t = Collections.exec t (s.meaning engine) := by
  obtain ⟨evt, hm, hbuild⟩ := statement_eq_some h
  exact Postgresql.exec_meaning (Postgresql.toSql_plain hpk (hevent m evt hm) hbuild) t

omit [DecidableEq V] in
theorem postgresql_agrees (hpk : model.primaryKeys = ["id"])
    (hevent : ∀ m evt, event m = some evt → Delivered afterObject model evt) (m : M)
    (s : Postgresql.Statement) (h : statement event (Postgresql.toSql · model) m = some s) (k : V)
    (w : Write String (Option V)) (hw : s.meaning engine = some (k, w)) : w.Agrees := by
  obtain ⟨evt, hm, hbuild⟩ := statement_eq_some h
  exact Postgresql.toSql_agrees hpk (hevent m evt hm) hbuild hw

theorem postgresql_rerunnable (hpk : model.primaryKeys = ["id"])
    (hevent : ∀ m evt, event m = some evt → Delivered afterObject model evt) (ms : List M) :
    Rerunnable (Postgresql.Statement.exec engine)
      (ms.filterMap (statement event (Postgresql.toSql · model))) :=
  rerunnable_of_meaning (postgresql_exec hpk hevent) (postgresql_agrees hpk hevent) ms

theorem mysql_exec (hpk : model.primaryKeys = ["id"]) (m : M) (s : Mysql.Statement)
    (h : statement event (Mysql.toSql · model) m = some s) (t : Table V) :
    s.exec engine t = Collections.exec t (s.meaning engine) := by
  obtain ⟨evt, _, hbuild⟩ := statement_eq_some h
  exact Mysql.exec_meaning (Mysql.toSql_plain hpk hbuild) t

theorem mysql_rerunnable (hpk : model.primaryKeys = ["id"]) (ms : List M) :
    Rerunnable (Mysql.Statement.exec engine)
      (ms.filterMap (statement event (Mysql.toSql · model))) :=
  rerunnable_of_meaning (mysql_exec hpk) (fun _ _ _ _ _ => Mysql.meaning_agrees) ms

/-- Effectively once.  The stream delivers what is not acknowledged to one session after
another, each of which may be cut anywhere, with any call raising, and with a transaction
that raised committed or not.  After any number of them the statements of what is still
outstanding, run on the database as it is, give what one pass over the whole stream gives;
so that nothing acknowledged is lost, nothing run twice is seen, and a database with
nothing outstanding is that of the one pass. -/
theorem effectively_once [DecidableEq M] (engine : Engine V) {model : Schema}
    (hpk : model.primaryKeys = ["id"]) {log : List M} (hlog : log.Nodup)
    (event : M → Option DBChangeEvent) (hooks : SqlHooks D) (table : D → Table V) (d : D) (y : Delivery M D)
    (hreach : Visit.Reaches hooks table event log ⟨[], d⟩ y) :
    (Transacts hooks table (Postgresql.toSql · model) Postgresql.Statement.render
      (Postgresql.Statement.exec engine) (fun evt => ∃ m, event m = some evt) →
      (∀ m evt, event m = some evt → Delivered afterObject model evt) →
      ((outstanding log y.confirmed).filterMap
        (statement event (Postgresql.toSql · model))).foldl (Postgresql.Statement.exec engine)
          (table y.store) =
        (log.filterMap (statement event (Postgresql.toSql · model))).foldl
          (Postgresql.Statement.exec engine) (table d)) ∧
    (Transacts hooks table (Mysql.toSql · model) Mysql.Statement.render
      (Mysql.Statement.exec engine) (fun evt => ∃ m, event m = some evt) →
      ((outstanding log y.confirmed).filterMap
        (statement event (Mysql.toSql · model))).foldl (Mysql.Statement.exec engine)
          (table y.store) =
        (log.filterMap (statement event (Mysql.toSql · model))).foldl
          (Mysql.Statement.exec engine) (table d)) := by
  have hstart : outstanding log [] = log := outstanding_nil log
  refine ⟨fun hdb hevent => ?_, fun hdb => ?_⟩
  · have hcaught := Visit.caughtUp_reached hdb (postgresql_rerunnable hpk hevent) hlog hreach
    rwa [Delivery.caughtUp, Delivery.caughtUp, hstart] at hcaught
  · have hcaught := Visit.caughtUp_reached hdb (mysql_rerunnable hpk) hlog hreach
    rwa [Delivery.caughtUp, Delivery.caughtUp, hstart] at hcaught

end Upserts

/-! ## A table in memory -/

structure Memory (V : Type) where
  rows : Table V

section Replica

variable {V : Type} (said : DBChangeEvent → Except Exn S) (render : S → String)
  (exec : Table V → S → Table V) (stmts : List S)

def texts : List (List Char × S) := stmts.map fun s => ((render s).toList, s)

/-- A database that knows the texts of some statements, and runs what a text consists of. -/
def replica (model : Schema) : SqlHooks (Memory V) where
  getTableVersion _ := pure (true, "v1")
  getSchema _ _ := pure model
  toSql evt _ := ofExcept ((said evt).map render)
  toAppendSql _ _ := raise assertion
  executeInTransaction text :=
    update fun d =>
      ⟨(Lexing.spell (texts render stmts) text.toList.length text.toList).foldl exec d.rows⟩
  onFlushed _ := pure ()
  str _ := "user"

variable {said render exec stmts}

theorem toList_join (ss : List S) :
    (String.join (ss.map render)).toList = (texts render ss).flatMap Prod.fst := by
  induction ss with
  | nil => rfl
  | cons s rest ih =>
    rw [List.map_cons, String.join_cons, String.toList_append, ih]
    rfl

theorem length_le_flatMap {words : List (List Char × S)} (h : ∀ w ∈ words, w.1 ≠ []) :
    words.length ≤ (words.flatMap Prod.fst).length := by
  induction words with
  | nil => exact Nat.le_refl 0
  | cons w rest ih =>
    have hw : 0 < w.1.length := List.length_pos_iff.mpr (h w List.mem_cons_self)
    have hrest := ih fun w hw => h w (List.mem_cons_of_mem _ hw)
    rw [List.flatMap_cons, List.length_append, List.length_cons]
    omega

theorem replica_database {model : Schema} {known : DBChangeEvent → Prop}
    {build : DBChangeEvent → Except Exn S} (hfree : Lexing.PrefixFree (texts render stmts))
    (hsaid : ∀ evt, known evt → build evt = said evt)
    (hstmts : ∀ evt s, said evt = .ok s → s ∈ stmts) :
    Transacts (replica said render exec stmts model) Memory.rows build render exec known where
  getTableVersion _ := within_pure Untouched.refl _
  getSchema _ _ := within_pure Untouched.refl _
  toSql evt _ := by
    show Within _ (ofExcept ((said evt).map render))
    cases said evt with
    | ok s => exact within_pure Untouched.refl _
    | error e => exact within_raise Untouched.refl _
  onFlushed _ := within_pure Untouched.refl _
  builds evt _ hknown := by
    refine returns_pure ?_
    rw [hsaid evt hknown]
    show Returns (ofExcept ((said evt).map render)) _
    cases said evt with
    | ok s => exact returns_pure ⟨s, rfl, rfl⟩
    | error e => exact returns_raise e
  transaction ss d hss := by
    have hwords : ∀ w ∈ texts render ss, w ∈ texts render stmts := by
      intro w hw
      obtain ⟨s, hs, rfl⟩ := List.mem_map.mp hw
      obtain ⟨evt, hknown, hbuild⟩ := hss s hs
      exact List.mem_map_of_mem (hstmts evt s ((hsaid evt hknown).symm.trans hbuild))
    have hlength : (texts render ss).length ≤ ((texts render ss).flatMap Prod.fst).length :=
      length_le_flatMap fun w hw => hfree.nonempty w (hwords w hw)
    show ((Lexing.spell (texts render stmts) (String.join (ss.map render)).toList.length
      (String.join (ss.map render)).toList).foldl exec d.rows) = _
    rw [toList_join, Lexing.spell_flatMap hfree hwords hlength, texts, List.map_map]
    exact congrArg (List.foldl exec d.rows) (List.map_id ss)

end Replica

/-! ### Two sessions over it -/

def userEvent (m : Fin 3) : Option DBChangeEvent := userEvents[m.val]?

/-- The statement of the list that belongs to the operation. -/
def userStatement (stmts : List S) (evt : DBChangeEvent) : Except Exn S :=
  let place := if evt.operation.eqStr "DELETE" then 2 else if evt.operation.eqStr "UPDATE" then 1 else 0
  stmts[place]?.elim (.error .driverStopped) .ok

theorem userStatement_mem {stmts : List S} {evt : DBChangeEvent} {s : S}
    (h : userStatement stmts evt = .ok s) : s ∈ stmts := by
  unfold userStatement at h
  simp only at h
  generalize (if evt.operation.eqStr "DELETE" then 2 else if evt.operation.eqStr "UPDATE" then 1
    else 0 : Nat) = place at h
  cases hget : stmts[place]? with
  | none => rw [hget] at h; cases h
  | some s' => rw [hget] at h; cases h; exact List.mem_of_getElem? hget

/-- A message is its number, and in a `mute` session the first acknowledgement ends it. -/
def userEnv (mute : Bool) : Env (Memory String) (Fin 3) where
  metadata m := pure
    { consumerSeq := m.val + 1, streamSeq := m.val + 1, numDelivered := 1, numPending := 0 }
  ack _ := if mute then raise (.base "KeyboardInterrupt") else pure ()
  nak _ := pure ()
  fromMessage m _ := ofExcept ((userEvent m).elim (.error .driverStopped) .ok)
  toJson _ := .ok ""
  process _ := pure false
  flush := pure ()
  migrateNewTable _ := pure ()
  migrateNewColumns _ _ := pure ()
  getTableVersion _ := pure (true, "v1")
  getSchema _ _ := pure users
  setTableVersion _ _ := pure ()
  validate _ := pure (true, true, "")
  clock w := (0, w)

def userVisit (mute : Bool) : Visit (Memory String) (Fin 3) where
  cfg := Config.pairs
  rest := userEnv mute
  sequence := 0
  hasRegistry := true
  hasDb := true
  moves := [.put (some 0), .put (some 1), .turn, .turn, .put (some 2), .turn]

theorem userEnv_spares (mute : Bool) : (userEnv mute).Spares (Untouched Memory.rows) where
  calls := {
    refl := Untouched.refl
    trans := Untouched.trans
    metadata := fun _ => within_pure Untouched.refl _
    ack := fun _ => by
      cases mute with
      | true => exact within_raise Untouched.refl _
      | false => exact within_pure Untouched.refl _
    nak := fun _ => within_pure Untouched.refl _
    fromMessage := fun m _ => by
      show Within _ (ofExcept ((userEvent m).elim (.error Exn.driverStopped) .ok))
      cases userEvent m with
      | none => exact within_raise Untouched.refl _
      | some evt => exact within_pure Untouched.refl _
    flush := within_pure Untouched.refl _
    validate := fun _ => within_pure Untouched.refl _
    clock := fun _ => rfl }
  migrateNewTable _ := within_pure Untouched.refl _
  migrateNewColumns _ _ := within_pure Untouched.refl _
  getTableVersion _ := within_pure Untouched.refl _
  getSchema _ _ := within_pure Untouched.refl _
  setTableVersion _ _ := within_pure Untouched.refl _

theorem userVisit_steady (hooks : SqlHooks (Memory String)) (mute : Bool) :
    Steady Config.pairs (sqlEnv hooks (userEnv mute)) userEvent := by
  intro m seq s
  match m with
  | 0 => rfl
  | 1 => rfl
  | 2 => rfl

def emptyMemory : Memory String := ⟨fun _ => none⟩

/-- The second session, over what the first one left. -/
def userSessions (hooks : SqlHooks (Memory String)) : Bufferer (SqlWorld (Memory String)) (Fin 3) :=
  (userVisit false).run hooks ((userVisit true).run hooks emptyMemory).processor.world.world

/-- The first session runs two statements and dies over the first acknowledgement; the
second runs them again and is heard. -/
def userDelivery (hooks : SqlHooks (Memory String)) : Delivery (Fin 3) (Memory String) where
  confirmed := [0, 1]
  store := (userSessions hooks).processor.world.world

theorem userDelivery_reached (hooks : SqlHooks (Memory String))
    (hacked : acked (userSessions hooks).processor.trace = [0, 1]) :
    Visit.Reaches hooks Memory.rows userEvent [0, 1, 2] ⟨[], emptyMemory⟩ (userDelivery hooks) := by
  have hlog : outstanding ([0, 1, 2] : List (Fin 3)) [] = [0, 1, 2] := outstanding_nil _
  refine .tail (.single ⟨userVisit true, [], ?_⟩) ⟨userVisit false, [0, 1], ?_⟩
    (b := ⟨[], ((userVisit true).run hooks emptyMemory).processor.world.world⟩)
  · exact ⟨userEnv_spares true, userVisit_steady hooks true, by rw [hlog]; decide, List.nil_prefix,
      rfl, rfl⟩
  · exact ⟨userEnv_spares false, userVisit_steady hooks false, by rw [hlog]; decide,
      hacked ▸ List.prefix_rfl, rfl, rfl⟩

def postgresqlUsers : List Postgresql.Statement :=
  [.upsert "user" [("id", "'u1'"), ("name", "'ada'"), ("updatedDate", "NULL")]
      [.set "name" "'ada'", .set "updatedDate" "NULL"],
    .upsert "user" [("id", "'u1'"), ("name", "'eve'"), ("updatedDate", "NULL")] [.set "name" "'eve'"],
    .delete "user" [("id", "'u1'")]]

def mysqlUsers : List Mysql.Statement :=
  [.replace "user" [("id", "'u1'"), ("name", "'ada'"), ("updatedDate", "NULL")],
    .replace "user" [("id", "'u1'"), ("name", "'eve'"), ("updatedDate", "NULL")],
    .delete "user" [("id", "'u1'")]]

theorem postgresqlUsers_built (m : Fin 3) (evt : DBChangeEvent) (h : userEvent m = some evt) :
    Postgresql.toSql evt users = userStatement postgresqlUsers evt := by
  match m, h with
  | 0, h =>
    cases h
    simp only [Postgresql.toSql, Postgresql.toSqlFromObject, Postgresql.updateSets,
      Postgresql.insertSets, users_columns]
    rfl
  | 1, h =>
    cases h
    simp only [Postgresql.toSql, Postgresql.toSqlFromObject, Postgresql.updateSets,
      Postgresql.insertSets, users_columns]
    rfl
  | 2, h =>
    cases h
    rfl

theorem mysqlUsers_built (m : Fin 3) (evt : DBChangeEvent) (h : userEvent m = some evt) :
    Mysql.toSql evt users = userStatement mysqlUsers evt := by
  match m, h with
  | 0, h =>
    cases h
    simp only [Mysql.toSql, Mysql.toSqlFromObject, users_columns]
    rfl
  | 1, h =>
    cases h
    simp only [Mysql.toSql, Mysql.toSqlFromObject, users_columns]
    rfl
  | 2, h =>
    cases h
    rfl

def postgresqlReplica : SqlHooks (Memory String) :=
  replica (userStatement postgresqlUsers) Postgresql.Statement.render
    (Postgresql.Statement.exec Engine.textual) postgresqlUsers users

def mysqlReplica : SqlHooks (Memory String) :=
  replica (userStatement mysqlUsers) Mysql.Statement.render (Mysql.Statement.exec Engine.textual)
    mysqlUsers users

theorem postgresqlReplica_database :
    Transacts postgresqlReplica Memory.rows (Postgresql.toSql · users) Postgresql.Statement.render
      (Postgresql.Statement.exec Engine.textual) (fun evt => ∃ m, userEvent m = some evt) := by
  refine replica_database ⟨by decide +kernel, by decide +kernel⟩ (fun evt hknown => ?_)
    fun _ _ => userStatement_mem
  obtain ⟨m, hm⟩ := hknown
  exact postgresqlUsers_built m evt hm

theorem mysqlReplica_database :
    Transacts mysqlReplica Memory.rows (Mysql.toSql · users) Mysql.Statement.render
      (Mysql.Statement.exec Engine.textual) (fun evt => ∃ m, userEvent m = some evt) := by
  refine replica_database ⟨by decide +kernel, by decide +kernel⟩ (fun evt hknown => ?_)
    fun _ _ => userStatement_mem
  obtain ⟨m, hm⟩ := hknown
  exact mysqlUsers_built m evt hm

theorem effectively_once_users :
    let log : List (Fin 3) := [0, 1, 2]
    let postgresql := userDelivery postgresqlReplica
    let mysql := userDelivery mysqlReplica
    ((outstanding log postgresql.confirmed).filterMap
        (statement userEvent (Postgresql.toSql · users))).foldl
          (Postgresql.Statement.exec Engine.textual) postgresql.store.rows =
      (log.filterMap (statement userEvent (Postgresql.toSql · users))).foldl
        (Postgresql.Statement.exec Engine.textual) emptyMemory.rows ∧
    ((outstanding log mysql.confirmed).filterMap
        (statement userEvent (Mysql.toSql · users))).foldl
          (Mysql.Statement.exec Engine.textual) mysql.store.rows =
      (log.filterMap (statement userEvent (Mysql.toSql · users))).foldl
        (Mysql.Statement.exec Engine.textual) emptyMemory.rows := by
  have hpostgresql := userDelivery_reached postgresqlReplica (by decide +kernel)
  have hmysql := userDelivery_reached mysqlReplica (by decide +kernel)
  refine ⟨?_, ?_⟩
  · exact (effectively_once Engine.textual (rfl : users.primaryKeys = ["id"]) (by decide) userEvent
      postgresqlReplica Memory.rows emptyMemory _ hpostgresql).1 postgresqlReplica_database
        fun m evt h => userEvents_delivered evt (List.mem_of_getElem? h)
  · exact (effectively_once Engine.textual (rfl : users.primaryKeys = ["id"]) (by decide) userEvent
      mysqlReplica Memory.rows emptyMemory _ hmysql).2 mysqlReplica_database

end Consumer
end Eds
