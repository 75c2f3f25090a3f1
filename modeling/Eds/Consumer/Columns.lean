import Eds.Consumer.Migration

/-!
# No column is dropped

A processor over a SQL driver in upsert mode is handed any messages, is told to flush or
to give back, and idles, in any order.  Every call may fail.  A table then keeps its
columns unless it is made anew, which happens only while no version of it is known; and
as long as no statement failed, the schema that the driver uses for an event has the
columns of the event's own schema, and the table has all of them.
-/

namespace Eds
namespace Consumer

open Effects Effects.Prog Effects.Traced Collections Drivers Drivers.SqlDriverBase Registry

variable {R U M : Type} {laws : Laws R} {ops : RegistryOps R} {engine : DdlEngine U}
  {sql : SqlHooks U} {base : Env U M} {cfg : Config} {evt : DBChangeEvent}

/-! ## The calls that change neither the tables nor the registry -/

theorem calm_second {α : Type} (p : Prog Exn U α) :
    Within (Calm laws) (outside (second p) : SiteProg R U α) :=
  fun _ => ⟨rfl, rfl, fun hinv => ⟨hinv, rfl⟩⟩

theorem calm_outside {α : Type} {p : SiteProg R U α} (hp : Within (Calm laws) p) :
    Within (fun w w' => Calm laws w.world w'.world) (outside p : SqlProg (Site R U) α) :=
  fun w => hp w.world

theorem flush_calm : Within (fun w w' => Calm laws w.world w'.world)
    (SqlDriverBase.flush (siteHooks ops sql) : SqlProg (Site R U) Unit) := by
  have htrans : ∀ {w w' w'' : SqlWorld (Site R U)}, Calm laws w.world w'.world →
      Calm laws w'.world w''.world → Calm laws w.world w''.world := Calm.trans
  have hexecute : ∀ d, Within (fun w w' => Calm laws w.world w'.world)
      (SqlDriverBase.execute (siteHooks ops sql) d : SqlProg (Site R U) Unit) := by
    intro d
    refine (calm_outside (calm_second _)).bind (fun _ => ?_) htrans
    refine Within.bind (fun w => Calm.refl w.world) (fun _ => ?_) htrans
    exact calm_outside (calm_second _)
  refine Within.bind (fun w => Calm.refl w.world) (fun d => ?_) htrans
  show Within _ (if _ then _ else _)
  split
  · split
    · refine (hexecute d).bind (fun _ => ?_) htrans
      exact fun w => Calm.refl w.world
    · exact fun w => Calm.refl w.world
  · exact fun w => Calm.refl w.world

theorem migratingEnv_keeps : (migratingEnv engine .upsert ops sql base).Keeps
    fun w w' => Calm laws w.world w'.world where
  refl w := Calm.refl w.world
  trans h h' := h.trans h'
  metadata _ := calm_outside (calm_second _)
  ack _ := calm_outside (calm_second _)
  nak _ := calm_outside (calm_second _)
  fromMessage _ _ := calm_outside (calm_second _)
  flush := flush_calm
  validate _ := calm_outside (calm_second _)
  clock _ := ⟨rfl, rfl, fun hinv => ⟨hinv, rfl⟩⟩

/-! ## What an event keeps on its way to the driver -/

theorem handleError_never {W α : Type} {env : Env W M} {err : String} :
    Returns (handleError env err : Proc W M α) fun _ => False :=
  (returns_any _).bind fun _ _ => returns_raise _

theorem logged_event {W : Type} {env : Env W M} {skip : Bool} :
    Returns (logged env evt skip) fun r => r.2 = evt := by
  unfold logged
  split
  · exact returns_pure rfl
  · exact returns_raise _

theorem shouldSkip_table {W : Type} {env : Env W M} :
    Returns (shouldSkip cfg env evt) fun r => r.2.table = evt.table := by
  have hlogged : ∀ skip, Returns (logged env evt skip) fun r => r.2.table = evt.table :=
    fun skip s => wp_post (logged_event s) fun r _ hr => congrArg DBChangeEvent.table hr
  unfold shouldSkip
  split
  · exact returns_raise _
  · exact returns_pure rfl
  · split
    · refine (returns_any _).bind fun verdict _ => ?_
      split
      · exact hlogged _
      · split
        · exact hlogged _
        · split
          · exact returns_pure rfl
          · exact returns_pure rfl
    · exact returns_pure rfl

theorem decode_accepts {m : M} {seq : Int}
    (hbase : Returns (base.fromMessage m seq) fun evt => laws.Accepts evt.table) :
    Returns (decode (migratingEnv engine .upsert ops sql base) m seq)
      fun evt => laws.Accepts evt.table := by
  have hdecoded : Returns (outside (outside (second (base.fromMessage m seq))) :
      SqlProg (Site R U) DBChangeEvent) fun evt => laws.Accepts evt.table :=
    returns_outside (returns_outside fun r => wp_on.mpr (hbase r.2))
  intro s
  refine wp_tryExcept (wp_call (fun evt w hw => ?_) (fun e w _ => ⟨fun _ => ?_, fun _ => trivial⟩))
  · exact wp_ok (hdecoded s.world) hw
  · exact wp_mono (handleError_never _) (fun _ _ h => h.elim) (fun _ _ _ => trivial)

/-! ## The three stages -/

section Stages

variable {s : State (SqlWorld (Site R U)) M} {s₀ : Site R U} {w : SqlWorld (Site R U)}

/-- What a call raises gives the batch back, which changes nothing here. -/
theorem stage_advances {α : Type} {c : Call M} {p : SqlProg (Site R U) α}
    {Q : α → SqlWorld (Site R U) → Prop}
    (hp : wp p Q (fun _ w => Advanced laws s₀ w.world) s.world) :
    wp (tryExcept (ask c p) fun e => handleError (migratingEnv engine .upsert ops sql base) e.str)
      (fun a t => Q a t.world) (fun _ t => Advanced laws s₀ t.world.world) s := by
  refine wp_tryExcept (wp_call (fun a w hw => wp_ok hp hw) (fun e w hw => ?_))
  have hadvanced : Advanced laws s₀ w.world := wp_error hp hw
  have hkeeps : (migratingEnv engine .upsert ops sql base).Keeps
    fun w w' => Calm laws w.world w'.world := migratingEnv_keeps
  refine ⟨fun _ => ?_, fun _ => hadvanced⟩
  refine wp_mono (wp_and (handleError_never _) ((handleError_keeps hkeeps e.str).wp _))
    (fun _ _ h => h.1.elim) (fun _ t h => ?_)
  exact hadvanced.trans (h.2.advanced hadvanced.kept)

theorem conform_calm (hops : Lawful ops laws) (hw : laws.inv w.world.world.1)
    (haccepts : laws.Accepts evt.table) :
    wp (conform (migratingEnv engine .upsert ops sql base) evt)
      (fun r w' => Calm laws w.world w'.world ∧ r.table = evt.table ∧ r.modelVersion = evt.modelVersion)
      (fun _ w' => Calm laws w.world w'.world) w := by
  rw [conform, wp_bind]
  refine wp_mono (getSchema_calm hops hw haccepts) (fun schema w₁ h₁ => ?_) (fun _ _ h => h)
  split
  · exact ⟨h₁.1.1, rfl, rfl⟩
  · show wp (if _ then _ else _) _ _ _
    split
    · exact ⟨h₁.1.1, rfl, rfl⟩
    · exact ⟨h₁.1.1, rfl, rfl⟩

theorem noteUse_advances (hs : Advanced laws s₀ w.world) {schema : Schema} {table number version : String}
    (htable : evt.table = .str table) (hnumber : evt.modelVersion = .str number)
    (hnamed : laws.named table) (hversion : laws.version w.world.world.1 table = some version)
    (hcovers : (laws.catalog table number).columns ⊆ (laws.catalog table version).columns)
    (hschema : schema = laws.catalog table version) :
    Advanced laws s₀ (w.world.push (.used evt schema w.world.world.1 w.world.vars.database)) := by
  have hfits : UseAllowed laws w.world.trace
      (.used evt schema w.world.world.1 w.world.vars.database) := by
    intro hclean
    have hcolumns := (hs.kept.sound hclean).columns table version hnamed hversion
    rw [← hschema] at hcolumns hcovers
    exact ⟨table, number, version, htable, hnumber, hversion, hschema, hcovers, hcolumns⟩
  refine ⟨⟨hs.kept.registry, hs.kept.uses.snoc hfits, fun hclean => ?_⟩, hs.grows.known, ?_⟩
  · exact ⟨(hs.kept.sound hclean.left).fresh, (hs.kept.sound hclean.left).columns⟩
  · obtain ⟨es, hes, hkept⟩ := hs.grows.kept
    refine ⟨es ++ [_], by rw [push_trace, hes, List.append_assoc], fun name columns hcolumns => ?_⟩
    rcases hkept name columns hcolumns with hkept | ⟨hnone, schema', hschema', hmem⟩
    · exact Or.inl hkept
    · exact Or.inr ⟨hnone, schema', hschema', List.mem_append_left _ hmem⟩

/-- The driver uses the schema of the version that the registry knows. -/
theorem process_advances (hops : Lawful ops laws) (hs : Advanced laws s₀ w.world)
    (haccepts : laws.Accepts evt.table) (hcovers : Covers laws evt w.world) :
    wp (SqlDriverBase.process (siteHooks ops sql) evt) (fun _ w' => Advanced laws s₀ w'.world)
      (fun _ w' => Advanced laws s₀ w'.world) w := by
  obtain ⟨table, number, version, htable, hnumber, hversion, hcovers⟩ := hcovers
  have hnamed : laws.named table := haccepts table htable
  rw [SqlDriverBase.process, wp_bind, wp_read]
  split
  · rw [wp_bind, tableVersion]
    refine wp_tryExcept ?_
    rw [wp_bind]
    refine wp_mono (getTableVersion_calm hops hs.kept.registry haccepts) (fun answer w₁ h₁ => ?_)
      (fun e w₁ h₁ => ?_)
    · obtain ⟨⟨hcalm₁, _, _⟩, name, hname, hanswer⟩ := h₁
      have hs₁ := hs.trans (hcalm₁.advanced hs.kept)
      rw [htable] at hname
      cases hname
      have hversion₁ : laws.version w₁.world.world.1 table = some version := by
        rw [(hcalm₁.registry hs.kept.registry).2, hversion]
      rw [hversion₁] at hanswer
      rw [hanswer, found, wp_pure, wp_bind, tableSchema]
      refine wp_tryExcept (wp_mono (getSchema_calm hops hs₁.kept.registry haccepts)
        (fun schema w₂ h₂ => ?_) (fun e w₂ h₂ => ?_))
      · obtain ⟨⟨hcalm₂, _, _⟩, name, v, hname, hv, hschema⟩ := h₂
        have hs₂ := hs₁.trans (hcalm₂.advanced hs₁.kept)
        rw [htable] at hname
        cases hname
        cases hv
        have hversion₂ : laws.version w₂.world.world.1 table = some version := by
          rw [(hcalm₂.registry hs₁.kept.registry).2, hversion₁]
        have hs₃ := noteUse_advances hs₂ htable hnumber hnamed hversion₂ hcovers hschema
        have hbuild : ∀ p : Prog Exn U String,
            wp (outside (do noteUse evt schema; outside (second p)) : SqlProg (Site R U) String)
              (fun _ w' => Advanced laws s₀ w'.world) (fun _ w' => Advanced laws s₀ w'.world) w₂ := by
          intro p
          have hcalm : Within (Calm laws) (outside (second p) : SiteProg R U String) := calm_second p
          rw [wp_outside_iff, wp_bind]
          show wp (outside (second p)) _ _ (w₂.world.push _)
          refine wp_mono (hcalm.wp (w₂.world.push _)) (fun _ u hu => ?_) (fun _ u hu => ?_)
          · exact hs₃.trans (hu.advanced hs₃.kept)
          · exact hs₃.trans (hu.advanced hs₃.kept)
        rw [wp_bind, build, wp_bind, wp_read]
        cases w₂.vars.mode with
        | upsert => exact wp_post (hbuild _) fun _ w₃ h₃ => h₃
        | append => exact wp_post (hbuild _) fun _ w₃ h₃ => h₃
      · have hs₂ := hs₁.trans (h₂.advanced hs₁.kept)
        exact ⟨fun _ => hs₂, fun _ => hs₂⟩
    · have hs₁ := hs.trans (h₁.advanced hs.kept)
      exact ⟨fun _ => hs₁, fun _ => hs₁⟩
  · exact hs

end Stages

/-! ## One message -/

theorem Covers.congr {s u : Site R U} {evt' : DBChangeEvent} (h : Covers laws evt s)
    (hinv : laws.inv s.world.1) (hcalm : Calm laws s u) (htable : evt'.table = evt.table)
    (hmodel : evt'.modelVersion = evt.modelVersion) : Covers laws evt' u := by
  obtain ⟨table, number, version, hname, hnumber, hversion, hsub⟩ := h
  refine ⟨table, number, version, htable.trans hname, hmodel.trans hnumber, ?_, hsub⟩
  rw [(hcalm.registry hinv).2, hversion]

/-- The site of a state. -/
def siteOf (s : State (SqlWorld (Site R U)) M) : Site R U := s.world.world

section Messages

variable {s : State (SqlWorld (Site R U)) M} {m : M} {s₀ : Site R U}

theorem calm_advances {α : Type} {p : Proc (SqlWorld (Site R U)) M α}
    (hp : Within (OnWorld fun w w' => Calm laws w.world w'.world) p)
    (hs : Advanced laws s₀ (siteOf s)) :
    wp p (fun _ t => Advanced laws s₀ (siteOf t)) (fun _ t => Advanced laws s₀ (siteOf t)) s :=
  wp_mono (hp.wp s) (fun _ _ ht => hs.trans (ht.advanced hs.kept))
    (fun _ _ ht => hs.trans (ht.advanced hs.kept))

/-- What is known of an event between its migration and the driver. -/
structure Ready (laws : Laws R) (s₀ : Site R U) (evt : DBChangeEvent) (u : Site R U) : Prop where
  advanced : Advanced laws s₀ u
  accepts : laws.Accepts evt.table
  covers : Covers laws evt u

theorem migrate_ready (hops : Lawful ops laws) (hcfg : cfg.supportsMigration = true)
    (haccepts : laws.Accepts evt.table) (hs : Advanced laws s₀ (siteOf s)) :
    wp (migrate cfg (migratingEnv engine .upsert ops sql base) m evt)
      (fun r t => Ready laws s₀ r.2 (siteOf t)) (fun _ t => Advanced laws s₀ (siteOf t)) s := by
  rw [migrate, if_pos hcfg]
  refine stage_advances (Q := fun r w => Ready laws s₀ r.2 w.world)
    (wp_mono (handlePossibleMigration_advances hops hs.kept haccepts) (fun r w hw => ?_)
      (fun _ _ h => hs.trans h))
  obtain ⟨hadvanced, hcovers, htable⟩ := hw
  exact ⟨hs.trans hadvanced, by rw [htable]; exact haccepts, hcovers⟩

theorem trim_ready (hops : Lawful ops laws) (hs : Ready laws s₀ evt (siteOf s)) :
    wp (trim cfg (migratingEnv engine .upsert ops sql base) m evt)
      (fun r t => Ready laws s₀ r (siteOf t)) (fun _ t => Advanced laws s₀ (siteOf t)) s := by
  rw [trim]
  split
  · refine stage_advances (Q := fun r w => Ready laws s₀ r w.world)
      (wp_mono (conform_calm hops hs.advanced.kept.registry hs.accepts) (fun r w hw => ?_)
        (fun _ _ h => hs.advanced.trans (h.advanced hs.advanced.kept)))
    obtain ⟨hcalm, htable, hmodel⟩ := hw
    refine ⟨hs.advanced.trans (hcalm.advanced hs.advanced.kept), ?_, ?_⟩
    · rw [htable]
      exact hs.accepts
    · exact hs.covers.congr hs.advanced.kept.registry hcalm htable hmodel
  · exact hs

theorem hand_advances {seq : Int} (hops : Lawful ops laws) (hs : Ready laws s₀ evt (siteOf s)) :
    wp (hand (migratingEnv engine .upsert ops sql base) m seq evt)
      (fun _ t => Advanced laws s₀ (siteOf t)) (fun _ t => Advanced laws s₀ (siteOf t)) s := by
  rw [hand, wp_bind]
  exact wp_post (stage_advances (Q := fun _ w => Advanced laws s₀ w.world)
    (process_advances hops hs.advanced hs.accepts hs.covers)) fun _ _ h => h

theorem processMessage_advances [DecidableEq M] (hops : Lawful ops laws)
    (hbase : ∀ m seq, Returns (base.fromMessage m seq) fun evt => laws.Accepts evt.table)
    (hcfg : cfg.supportsMigration = true) (hs : Advanced laws s₀ (siteOf s)) :
    wp (processMessage cfg (migratingEnv engine .upsert ops sql base) m)
      (fun _ t => Advanced laws s₀ (siteOf t)) (fun _ t => Advanced laws s₀ (siteOf t)) s := by
  have hkeeps : (migratingEnv engine .upsert ops sql base).Keeps
    fun w w' => Calm laws w.world w'.world := migratingEnv_keeps
  rw [processMessage, wp_bind]
  refine wp_post (calm_advances (receive_keeps hkeeps m) hs) fun seq t ht => ?_
  rw [wp_bind]
  refine wp_mono (wp_and (calm_advances (decode_keeps hkeeps m seq) ht)
    (decode_accepts (hbase m seq) t)) (fun evt t ht => ?_) (fun _ _ h => h.1)
  obtain ⟨ht, haccepts⟩ := ht
  have hjudged : Returns (ask (.shouldSkip m)
      (shouldSkip cfg (migratingEnv engine .upsert ops sql base) evt) : Proc _ M _)
      fun r => r.2.table = evt.table := by
    intro t
    exact wp_call (fun r w hw => wp_ok (shouldSkip_table _) hw) (fun _ _ _ => trivial)
  rw [wp_bind]
  refine wp_mono (wp_and (calm_advances (within_ask (shouldSkip_keeps hkeeps evt)) ht) (hjudged t))
    (fun verdict t ht => ?_) (fun _ _ h => h.1)
  obtain ⟨ht, htable⟩ := ht
  obtain ⟨skipIt, evt'⟩ := verdict
  cases skipIt with
  | true => exact calm_advances (skip_keeps hkeeps m) ht
  | false =>
    have haccepts' : laws.Accepts evt'.table := by
      rw [htable]
      exact haccepts
    simp only [Bool.false_eq_true, if_false]
    rw [wp_bind]
    refine wp_post (migrate_ready hops hcfg haccepts' ht) fun migrated t ht => ?_
    rw [wp_bind]
    refine wp_post (trim_ready hops ht) fun evt t ht => ?_
    rw [wp_bind]
    refine wp_post (hand_advances hops ht) fun wantsFlush t ht => ?_
    exact calm_advances (settle_keeps hkeeps m wantsFlush migrated.1) ht

end Messages

/-! ## Runs -/

/-- What the consumer asks of the processor. -/
inductive Turn (M : Type) where
  | message (m : M)
  | idle
  | flush
  | giveBack

/-- The state after a call, whether it returned or raised. -/
def Turn.run {W : Type} [DecidableEq M] (cfg : Config) (env : Env W M) (s : State W M) :
    Turn M → State W M
  | message m => (processMessage cfg env m s).2
  | idle => (onIdle cfg env s).2
  | flush => (Consumer.flush env s).2
  | giveBack => (nackEverything env s).2

def runTurns {W : Type} [DecidableEq M] (cfg : Config) (env : Env W M) (turns : List (Turn M))
    (s : State W M) : State W M := turns.foldl (Turn.run cfg env) s

theorem turn_advances [DecidableEq M] (hops : Lawful ops laws)
    (hbase : ∀ m seq, Returns (base.fromMessage m seq) fun evt => laws.Accepts evt.table)
    (hcfg : cfg.supportsMigration = true) {s : State (SqlWorld (Site R U)) M} {s₀ : Site R U}
    (hs : Advanced laws s₀ (siteOf s)) (turn : Turn M) :
    Advanced laws s₀ (siteOf (turn.run cfg (migratingEnv engine .upsert ops sql base) s)) := by
  have hkeeps : (migratingEnv engine .upsert ops sql base).Keeps
    fun w w' => Calm laws w.world w'.world := migratingEnv_keeps
  cases turn with
  | message m =>
    exact wp_state (I := fun t => Advanced laws s₀ (siteOf t))
      (processMessage_advances hops hbase hcfg hs)
  | idle =>
    exact wp_state (I := fun t => Advanced laws s₀ (siteOf t))
      (calm_advances (onIdle_keeps hkeeps) hs)
  | flush =>
    exact wp_state (I := fun t => Advanced laws s₀ (siteOf t))
      (calm_advances (flush_keeps hkeeps) hs)
  | giveBack =>
    exact wp_state (I := fun t => Advanced laws s₀ (siteOf t))
      (calm_advances (nackEverything_keeps hkeeps) hs)

/-- By induction on the turns. -/
theorem runTurns_advances [DecidableEq M] (hops : Lawful ops laws)
    (hbase : ∀ m seq, Returns (base.fromMessage m seq) fun evt => laws.Accepts evt.table)
    (hcfg : cfg.supportsMigration = true) (turns : List (Turn M))
    {s : State (SqlWorld (Site R U)) M} {s₀ : Site R U} (hs : Advanced laws s₀ (siteOf s)) :
    Advanced laws s₀
      (siteOf (runTurns cfg (migratingEnv engine .upsert ops sql base) turns s)) := by
  induction turns generalizing s with
  | nil => exact hs
  | cons turn rest ih => exact ih (turn_advances hops hbase hcfg hs turn)

/-- Over any registry with the laws, any statement builders and any messages: what the driver
uses fits as long as no statement failed before, and between any two moments of a run a
table keeps its columns or was made anew with no known version. -/
theorem migration_never_drops_columns [DecidableEq M] (laws : Laws R) (ops : RegistryOps R)
    (hops : Lawful ops laws) (engine : DdlEngine U) (sql : SqlHooks U) (base : Env U M)
    (hbase : ∀ m seq, Returns (base.fromMessage m seq) fun evt => laws.Accepts evt.table)
    (cfg : Config) (hcfg : cfg.supportsMigration = true) (s : State (SqlWorld (Site R U)) M)
    (hinv : laws.inv (siteOf s).world.1) (htrace : (siteOf s).trace = [])
    (hsound : Sound laws (siteOf s)) (before after : List (Turn M)) :
    let env := migratingEnv engine .upsert ops sql base
    let s₁ := siteOf (runTurns cfg env before s)
    let s₂ := siteOf (runTurns cfg env (before ++ after) s)
    (∀ pre evt schema registry db post, s₂.trace = pre ++ .used evt schema registry db :: post →
      Unfailing pre → SiteObs.Fits laws (.used evt schema registry db)) ∧ Grows laws s₁ s₂ := by
  intro env s₁ s₂
  have hstart : Kept laws (siteOf s) := by
    refine ⟨hinv, ?_, fun _ => hsound⟩
    rw [htrace]
    exact guarded_nil
  have hfirst : Advanced laws (siteOf s) s₁ :=
    runTurns_advances hops hbase hcfg before ⟨hstart, Grows.refl (siteOf s)⟩
  have hsecond : Advanced laws s₁ s₂ := by
    have hrun : s₂ = siteOf (runTurns cfg env after (runTurns cfg env before s)) :=
      congrArg siteOf List.foldl_append
    rw [hrun]
    exact runTurns_advances hops hbase hcfg after ⟨hfirst.kept, Grows.refl s₁⟩
  refine ⟨fun pre evt schema registry db post htrace hclean => ?_, hsecond.grows⟩
  exact hsecond.kept.uses pre _ post htrace hclean

/-! ## A column is added -/

section Users

/-- The registry is open, and the table has the columns of `v1`. -/
def userSite : Site (Registry.State Unit) Unit where
  vars :=
    { database := ⟨fun name => if name = "user" then some ["id"] else none, fun _ => none⟩
      view := Database.report ⟨fun name => if name = "user" then some ["id"] else none, fun _ => none⟩ }
  world := (userRegistryOpened, ())
  trace := []

def userState : State (SqlWorld (Site (Registry.State Unit) Unit)) Int :=
  ⟨⟨[], none, 0⟩, ⟨⟨[], 0, .upsert, true, true⟩, userSite, []⟩, []⟩

/-- The first message is at `v2`, the others at `v1`. -/
def userBase : Env Unit Int :=
  { Env.obliging with
    fromMessage := fun m _ => pure
      { operation := .str "INSERT", table := .str "user"
        modelVersion := .str (if m = 1 then "v2" else "v1"), object := none
        diff := .null, timestamp := 0, schemaValidatedPath := none } }

def userConfig : Config := { Config.pairs with supportsMigration := true, hasRegistry := true }

theorem userSite_sound : Sound (apiLaws userRegistry userCatalog) userSite where
  fresh := rfl
  columns table version _ hversion := by
    have hknown : (apiLaws userRegistry userCatalog).version userRegistryOpened table = some version :=
      hversion
    rw [userRegistryOpened_version] at hknown
    split at hknown
    · next htable =>
      subst htable
      cases hknown
      exact ⟨["id"], rfl, by decide +kernel⟩
    · cases hknown

/-- The version goes forward and back again. -/
theorem migration_never_drops_columns_user :
    let env := migratingEnv .obliging .upsert (apiOps userRegistry) SqlHooks.constant userBase
    let s := siteOf (runTurns userConfig env [.message 1, .message 2] userState)
    s.vars.database.tables "user" = some ["id", "name"] ∧
      Grows (apiLaws userRegistry userCatalog) (siteOf userState) s := by
  intro env s
  have hlawful : Lawful (apiOps userRegistry) (apiLaws userRegistry userCatalog) :=
    apiRegistry_lawful rfl userRegistry_catalogued
  have hbase : ∀ m seq, Returns (userBase.fromMessage m seq)
      fun evt => (apiLaws userRegistry userCatalog).Accepts evt.table := by
    intro m seq
    refine returns_pure fun name hname => ?_
    cases hname
    show Name "user"
    decide
  refine ⟨by decide +kernel, ?_⟩
  exact (migration_never_drops_columns _ _ hlawful .obliging SqlHooks.constant userBase hbase
    userConfig rfl userState userRegistryOpened_inv rfl userSite_sound [] [.message 1, .message 2]).2

end Users

end Consumer
end Eds
