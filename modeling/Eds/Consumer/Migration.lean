import Eds.Consumer.Frames
import Eds.Consumer.SqlComposition
import Eds.Drivers.Migration
import Eds.Effects.History
import Eds.Registry.Lawful

/-!
# The processor, the registry and the tables of the destination

Three schemas meet when an event is handed to a SQL driver: the one that the event was
made with, the one of the version that the registry knows, and the columns that the
table has.  The driver writes by the second.

`Sound` relates the registry and the tables: a table has all columns of the version
that the registry knows of it.  A migration restores it before it records a version,
and the version of an event is either recorded or adds no column to the one that is.
-/

namespace Eds
namespace Consumer

open Effects Effects.Prog Effects.Traced Collections Drivers Drivers.SqlDriverBase Registry

variable {R U M : Type}

/-! ## The surroundings of the processor -/

/-- The schema that the driver uses for an event, with the registry and the tables it meets. -/
def noteUse (evt : DBChangeEvent) (schema : Schema) : SiteProg R U Unit :=
  update fun s => s.push (.used evt schema s.world.1 s.vars.database)

/-- `sql` has the statement builders and the execution of a batch, which leave the schema of the
database alone. -/
def siteHooks (ops : RegistryOps R) (sql : SqlHooks U) : SqlHooks (Site R U) where
  getTableVersion table := outside (first (ops.getTableVersion table))
  getSchema table version := outside (first (ops.getSchema table version))
  toSql evt schema := do
    noteUse evt schema
    outside (second (sql.toSql evt schema))
  toAppendSql evt schema := do
    noteUse evt schema
    outside (second (sql.toAppendSql evt schema))
  executeInTransaction text := outside (second (sql.executeInTransaction text))
  onFlushed count := outside (second (sql.onFlushed count))
  str := sql.str

/-- The migrations and the registry over the rest of the world, whose calls are those of
`base`. -/
def siteEnv (engine : DdlEngine U) (mode : IngestMode) (ops : RegistryOps R) (base : Env U M) :
    Env (Site R U) M where
  metadata m := outside (second (base.metadata m))
  ack m := outside (second (base.ack m))
  nak m := outside (second (base.nak m))
  fromMessage m seq := outside (second (base.fromMessage m seq))
  toJson := base.toJson
  process evt := outside (second (base.process evt))
  flush := outside (second base.flush)
  migrateNewTable := migrateNewTable engine mode
  migrateNewColumns := migrateNewColumns engine mode
  getTableVersion table := outside (first (ops.getTableVersion table))
  getSchema table version := outside (first (ops.getSchema table version))
  setTableVersion table version := outside (first (ops.setTableVersion table version))
  validate evt := outside (second (base.validate evt))
  clock s := ((base.clock s.world.2).1, s.inWorld (s.world.1, (base.clock s.world.2).2))

/-- `assert self._db is not None` -/
def whileOpen {D α : Type} (p : Prog Exn D α) : SqlProg D α := do
  let hasDb ← read SqlDriverBase.hasDb
  if hasDb then outside p else raise assertion

/-- The environment of a processor with a SQL driver and a registry. -/
def migratingEnv (engine : DdlEngine U) (mode : IngestMode) (ops : RegistryOps R) (sql : SqlHooks U)
    (base : Env U M) : Env (SqlWorld (Site R U)) M :=
  { sqlEnv (siteHooks ops sql) (siteEnv engine mode ops base) with
    migrateNewTable := fun schema => whileOpen (migrateNewTable engine mode schema)
    migrateNewColumns := fun schema columns =>
      whileOpen (migrateNewColumns engine mode schema columns) }

/-! ## The three schemas -/

/-- What the driver uses covers the event and is covered by the table. -/
def SiteObs.Fits (laws : Laws R) : SiteObs R → Prop
  | .used evt schema r db => ∃ table number version, evt.table = .str table ∧
      evt.modelVersion = .str number ∧ laws.version r table = some version ∧
      schema = laws.catalog table version ∧ (laws.catalog table number).columns ⊆ schema.columns ∧
      db.HasColumns table schema.columns
  | _ => True

/-- A use is required to fit as long as no statement and no refresh has failed. -/
def UseAllowed (laws : Laws R) (pre : List (SiteObs R)) (o : SiteObs R) : Prop :=
  Unfailing pre → SiteObs.Fits laws o

/-- Tables with a known version have the columns of that version. -/
structure Sound (laws : Laws R) (s : Site R U) : Prop where
  fresh : s.vars.Fresh
  columns : ∀ table version, laws.named table → laws.version s.world.1 table = some version →
    s.vars.database.HasColumns table (laws.catalog table version).columns

structure Kept (laws : Laws R) (s : Site R U) : Prop where
  registry : laws.inv s.world.1
  uses : Guarded (UseAllowed laws) s.trace
  sound : Unfailing s.trace → Sound laws s

/-- The columns of a table are still there, or the table was made anew and had no known
version. -/
structure Grows (laws : Laws R) (s u : Site R U) : Prop where
  known : ∀ table, laws.version u.world.1 table = none → laws.version s.world.1 table = none
  kept : ∃ es, u.trace = s.trace ++ es ∧ ∀ table columns,
    s.vars.database.tables table = some columns →
      u.vars.database.HasColumns table columns ∨
        (laws.version s.world.1 table = none ∧ ∃ schema, schema.table = table ∧ .creating schema ∈ es)

/-- The end of a step that began in `s`. -/
structure Advanced (laws : Laws R) (s u : Site R U) : Prop where
  kept : Kept laws u
  grows : Grows laws s u

/-- Nothing has happened but that the registry may have been read. -/
structure Calm (laws : Laws R) (s u : Site R U) : Prop where
  vars : u.vars = s.vars
  trace : u.trace = s.trace
  registry : laws.inv s.world.1 → laws.Steady s.world.1 u.world.1

section Relations

variable {laws : Laws R} {s t u : Site R U}

theorem Grows.refl (s : Site R U) : Grows laws s s :=
  ⟨fun _ h => h, [], (List.append_nil _).symm, fun _ columns h =>
    Or.inl ⟨columns, h, List.Subset.refl _⟩⟩

theorem Grows.trans (h : Grows laws s t) (h' : Grows laws t u) : Grows laws s u := by
  obtain ⟨es, hes, hkept⟩ := h.kept
  obtain ⟨es', hes', hkept'⟩ := h'.kept
  refine ⟨fun table hnone => h.known table (h'.known table hnone), es ++ es', ?_, ?_⟩
  · rw [hes', hes, List.append_assoc]
  · intro table columns hcolumns
    rcases hkept table columns hcolumns with ⟨all, hall, hsub⟩ | ⟨hnone, schema, hschema, hmem⟩
    · rcases hkept' table all hall with ⟨all', hall', hsub'⟩ | ⟨hnone, schema, hschema, hmem⟩
      · exact Or.inl ⟨all', hall', fun c hc => hsub' (hsub hc)⟩
      · exact Or.inr ⟨h.known table hnone, schema, hschema, List.mem_append_right _ hmem⟩
    · exact Or.inr ⟨hnone, schema, hschema, List.mem_append_left _ hmem⟩

theorem Calm.refl (s : Site R U) : Calm laws s s := ⟨rfl, rfl, fun h => ⟨h, rfl⟩⟩

theorem Calm.trans (h : Calm laws s t) (h' : Calm laws t u) : Calm laws s u where
  vars := h'.vars.trans h.vars
  trace := h'.trace.trans h.trace
  registry hinv := (h.registry hinv).trans (h'.registry (h.registry hinv).1)

theorem Calm.kept (h : Calm laws s u) (hs : Kept laws s) : Kept laws u where
  registry := (h.registry hs.registry).1
  uses := by
    rw [h.trace]
    exact hs.uses
  sound hclean := by
    rw [h.trace] at hclean
    obtain ⟨hfresh, hcolumns⟩ := hs.sound hclean
    refine ⟨by rw [Target.Fresh, h.vars]; exact hfresh, fun table version hnamed hversion => ?_⟩
    rw [(h.registry hs.registry).2] at hversion
    rw [h.vars]
    exact hcolumns table version hnamed hversion

theorem Calm.grows (h : Calm laws s u) (hinv : laws.inv s.world.1) : Grows laws s u where
  known table hnone := by
    rw [← (h.registry hinv).2]
    exact hnone
  kept := by
    refine ⟨[], by rw [h.trace, List.append_nil], fun table columns hcolumns => Or.inl ?_⟩
    rw [h.vars]
    exact ⟨columns, hcolumns, List.Subset.refl _⟩

theorem Advanced.trans (h : Advanced laws s t) (h' : Advanced laws t u) : Advanced laws s u :=
  ⟨h'.kept, h.grows.trans h'.grows⟩

theorem Calm.advanced (h : Calm laws s u) (hs : Kept laws s) : Advanced laws s u :=
  ⟨h.kept hs, h.grows hs.registry⟩

theorem fits_of_about {mode : IngestMode} {table : String} {o : SiteObs R}
    (h : o.About mode table) : SiteObs.Fits laws o := by
  cases o with
  | used evt schema r db => exact h.elim
  | _ => exact trivial

theorem uses_of_touches {mode : IngestMode} {table : String} (h : Touches mode table s u)
    (hs : Guarded (UseAllowed laws) s.trace) : Guarded (UseAllowed laws) u.trace := by
  obtain ⟨es, hes, habout⟩ := h.trace
  rw [hes]
  exact hs.append fun o ho _ _ => fits_of_about (habout o ho)

theorem unfailing_of_touches {mode : IngestMode} {table : String} (h : Touches mode table s u)
    (hclean : Unfailing u.trace) : Unfailing s.trace := by
  obtain ⟨es, hes, _⟩ := h.trace
  rw [hes] at hclean
  exact hclean.left

/-! ## The registry is read and written -/

def withRegistry (s : Site R U) (r : R) : Site R U := s.inWorld (r, s.world.2)

theorem calm_withRegistry {r : R} (h : laws.Steady s.world.1 r) : Calm laws s (withRegistry s r) :=
  ⟨rfl, rfl, fun _ => h⟩

theorem registryCall_spec {α : Type} {p : Prog Exn R α} {Q : α → R → Prop} {X : Exn → R → Prop}
    {w : SqlWorld (Site R U)} (h : wp p Q X w.world.world.1) :
    wp (outside (outside (first p)) : SqlProg (Site R U) α)
      (fun a w' => ∃ r, Q a r ∧ w' = w.inWorld (withRegistry w.world r))
      (fun e w' => ∃ r, X e r ∧ w' = w.inWorld (withRegistry w.world r)) w := by
  rw [wp_outside_iff, wp_outside_iff, first, wp_on]
  exact wp_mono h (fun a r ha => ⟨r, ha, rfl⟩) (fun e r he => ⟨r, he, rfl⟩)

/-- A version may be recorded for a table that has its columns. -/
theorem setTableVersion_advances {ops : RegistryOps R} (hops : Lawful ops laws) {name v : String}
    {w : SqlWorld (Site R U)} (hw : Kept laws w.world) (hnamed : laws.named name)
    (hcolumns : Unfailing w.world.trace →
      w.world.vars.database.HasColumns name (laws.catalog name v).columns) :
    wp (outside (outside (first (ops.setTableVersion (.str name) (.str v)))) : SqlProg (Site R U) Unit)
      (fun _ w' => Advanced laws w.world w'.world ∧ laws.version w'.world.world.1 name = some v)
      (fun _ w' => Advanced laws w.world w'.world) w := by
  have hset : ∀ r, laws.inv r →
      laws.version r = Function.update (laws.version w.world.world.1) name (some v) →
      Advanced laws w.world (withRegistry w.world r) := by
    intro r hinv hversion
    refine ⟨⟨hinv, hw.uses, fun hclean => ⟨(hw.sound hclean).fresh, fun table version ht hv => ?_⟩⟩,
      fun table hnone => ?_, [], (List.append_nil _).symm, fun table columns h => ?_⟩
    · have hv' : Function.update (laws.version w.world.world.1) name (some v) table = some version := by
        rw [← hversion]
        exact hv
      by_cases htable : table = name
      · subst htable
        rw [Function.update_self] at hv'
        rw [← Option.some.inj hv']
        exact hcolumns hclean
      · rw [Function.update_of_ne htable] at hv'
        exact (hw.sound hclean).columns table version ht hv'
    · have hnone' : Function.update (laws.version w.world.world.1) name (some v) table = none := by
        rw [← hversion]
        exact hnone
      by_cases htable : table = name
      · subst htable
        rw [Function.update_self] at hnone'
        cases hnone'
      · rw [Function.update_of_ne htable] at hnone'
        exact hnone'
    · exact Or.inl ⟨columns, h, List.Subset.refl _⟩
  refine wp_mono (registryCall_spec (hops.setTableVersion name v _ hnamed hw.registry))
    (fun _ w' hw' => ?_) (fun _ w' hw' => ?_)
  · obtain ⟨r, ⟨hinv, hversion⟩, rfl⟩ := hw'
    refine ⟨hset r hinv hversion, ?_⟩
    show laws.version r name = some v
    rw [hversion, Function.update_self]
  · obtain ⟨r, ⟨hinv, hversion | hversion⟩, rfl⟩ := hw'
    · exact (calm_withRegistry ⟨hinv, hversion⟩).advanced hw
    · exact hset r hinv hversion

/-! ## The two migrations -/

section Migrations

variable {engine : DdlEngine U} {schema : Schema}

theorem kept_of_touches {mode : IngestMode} {table : String} (htouch : Touches mode table s u)
    (hs : Kept laws s) (hsound : Unfailing u.trace → Sound laws u) : Kept laws u where
  registry := by
    rw [htouch.registry]
    exact hs.registry
  uses := uses_of_touches htouch hs.uses
  sound := hsound

theorem not_unfailing_of_failed {es : List (SiteObs R)} (htrace : u.trace = s.trace ++ es)
    (hfailed : ∃ o ∈ es, o.Failed) : ¬ Unfailing u.trace := by
  obtain ⟨o, ho, hfailed⟩ := hfailed
  intro hclean
  exact hclean o (by rw [htrace]; exact List.mem_append_right _ ho) hfailed

/-- The table had no known version. -/
theorem migrateNewTable_advances (hs : Kept laws s)
    (hunknown : laws.version s.world.1 schema.table = none) :
    wp (migrateNewTable engine .upsert schema)
      (fun _ u => Advanced laws s u ∧ u.vars.database.HasColumns schema.table schema.columns)
      (fun _ u => Advanced laws s u) s := by
  have hgrows : ∀ u, Touches .upsert schema.table s u →
      (∃ es, u.trace = s.trace ++ .creating schema :: es) → Grows laws s u := by
    intro u htouch hcreating
    obtain ⟨es, hes⟩ := hcreating
    refine ⟨fun table hnone => ?_, _, hes, fun table columns hcolumns => ?_⟩
    · rw [← htouch.registry]
      exact hnone
    · by_cases htable : table = schema.table
      · exact Or.inr ⟨htable ▸ hunknown, schema, htable.symm, List.mem_cons_self⟩
      · refine Or.inl ⟨columns, ?_, List.Subset.refl _⟩
        rw [htouch.tables table htable, hcolumns]
  have htouches : Within (Touches .upsert schema.table)
      (migrateNewTable engine .upsert schema : SiteProg R U Unit) := migrateNewTable_touches
  have hannounces : Within (fun s u => ∃ es, u.trace = s.trace ++ .creating schema :: es)
      (migrateNewTable engine .upsert schema : SiteProg R U Unit) := migrateNewTable_announces
  have hends : wp (migrateNewTable engine .upsert schema)
      (fun _ u => u.vars.Fresh ∧ u.vars.database.HasColumns schema.table schema.columns)
      (fun _ u => ¬ Unfailing u.trace) s := by
    refine wp_mono (wp_and migrateNewTable_makes (honest_migrateNewTable schema s))
      (fun _ _ h => h.1) (fun _ u h => ?_)
    obtain ⟨_, es, hes, hfailed⟩ := h
    exact not_unfailing_of_failed hes hfailed
  refine wp_mono (wp_and (wp_and (htouches.wp s) (hannounces.wp s)) hends) (fun _ u hu => ?_)
    (fun _ u hu => ?_)
  · obtain ⟨⟨htouch, hcreating⟩, hfresh, hcolumns⟩ := hu
    refine ⟨⟨kept_of_touches htouch hs fun hclean => ⟨hfresh, fun table version hnamed hv => ?_⟩,
      hgrows u htouch hcreating⟩, hcolumns⟩
    rw [htouch.registry] at hv
    have htable : table ≠ schema.table := by
      intro heq
      rw [heq, hunknown] at hv
      cases hv
    obtain ⟨all, hall, hsub⟩ :=
      (hs.sound (unfailing_of_touches htouch hclean)).columns table version hnamed hv
    exact ⟨all, by rw [htouch.tables table htable, hall], hsub⟩
  · obtain ⟨⟨htouch, hcreating⟩, hfailing⟩ := hu
    exact ⟨kept_of_touches htouch hs fun hclean => absurd hclean hfailing,
      hgrows u htouch hcreating⟩

/-- The table has the columns of the version that is known, and the missing ones are added. -/
theorem migrateNewColumns_advances {version : String} {columns : List String} (hs : Kept laws s)
    (hnamed : laws.named schema.table)
    (hversion : laws.version s.world.1 schema.table = some version)
    (hcover : ∀ c ∈ schema.columns, c ∈ (laws.catalog schema.table version).columns ∨ c ∈ columns) :
    wp (migrateNewColumns engine .upsert schema columns)
      (fun _ u => Advanced laws s u ∧
        (Unfailing u.trace → u.vars.database.HasColumns schema.table schema.columns))
      (fun _ u => Advanced laws s u) s := by
  have htouches : Within (Touches .upsert schema.table)
      (migrateNewColumns engine .upsert schema columns : SiteProg R U Unit) :=
    migrateNewColumns_touches
  have hwidens : Within (fun s u => Widens schema.table s.vars.database u.vars.database)
      (migrateNewColumns engine .upsert schema columns : SiteProg R U Unit) :=
    migrateNewColumns_widens
  have hgrows : ∀ u, Touches .upsert schema.table s u →
      Widens schema.table s.vars.database u.vars.database → Grows laws s u := by
    intro u htouch hwidens
    obtain ⟨es, hes, _⟩ := htouch.trace
    refine ⟨fun table hnone => ?_, es, hes, fun table columns hcolumns => Or.inl ?_⟩
    · rw [← htouch.registry]
      exact hnone
    · exact hwidens.hasColumns ⟨columns, hcolumns, List.Subset.refl _⟩
  have hends : wp (migrateNewColumns engine .upsert schema columns)
      (fun _ u => Unfailing s.trace → u.vars.Fresh ∧
        u.vars.database.HasColumns schema.table schema.columns)
      (fun _ u => ¬ Unfailing u.trace) s := by
    by_cases hclean : Unfailing s.trace
    · have hsound := hs.sound hclean
      obtain ⟨all, hall, hsub⟩ := hsound.columns _ _ hnamed hversion
      refine wp_mono (wp_and (migrateNewColumns_makes hall hsound.fresh)
        (honest_migrateNewColumns schema columns s)) (fun _ u h _ => ?_) (fun _ u h => ?_)
      · obtain ⟨⟨hfresh, all', hall', hsub'⟩, _⟩ := h
        refine ⟨hfresh, all', hall', fun c hc => hsub' ?_⟩
        rcases hcover c hc with hold | hnew
        · exact List.mem_append_left _ (hsub hold)
        · exact List.mem_append_right _ hnew
      · obtain ⟨_, es, hes, hfailed⟩ := h
        exact not_unfailing_of_failed hes hfailed
    · refine wp_mono (honest_migrateNewColumns schema columns s) (fun _ _ _ h => absurd h hclean)
        (fun _ u h => ?_)
      obtain ⟨es, hes, hfailed⟩ := h
      exact not_unfailing_of_failed hes hfailed
  refine wp_mono (wp_and (wp_and (htouches.wp s) (hwidens.wp s)) hends) (fun _ u hu => ?_)
    (fun _ u hu => ?_)
  · obtain ⟨⟨htouch, hwidens⟩, hmade⟩ := hu
    refine ⟨⟨kept_of_touches htouch hs fun hclean => ?_, hgrows u htouch hwidens⟩, fun hclean => ?_⟩
    · have hclean' := unfailing_of_touches htouch hclean
      refine ⟨(hmade hclean').1, fun table version' ht hv => ?_⟩
      rw [htouch.registry] at hv
      exact hwidens.hasColumns ((hs.sound hclean').columns table version' ht hv)
    · exact (hmade (unfailing_of_touches htouch hclean)).2
  · obtain ⟨⟨htouch, hwidens⟩, hfailing⟩ := hu
    exact ⟨kept_of_touches htouch hs fun hclean => absurd hclean hfailing,
      hgrows u htouch hwidens⟩

end Migrations

end Relations

/-! ## A possible migration -/

/-- The end of `handle_possible_migration`, with both schemas at hand. -/
def migrateColumns {W : Type} (env : Env W M) (evt : DBChangeEvent) (newschema oldschema : Schema) :
    Prog Exn W (Bool × DBChangeEvent) :=
  let columns := newschema.columns.filter fun c => !oldschema.columns.contains c
  if columns = [] then pure (false, evt)
  else do
    env.migrateNewColumns newschema columns
    match extendDiff columns evt.diff with
    | .error e => raise e
    | .ok diff => do
      env.setTableVersion evt.table evt.modelVersion
      pure (true, { evt with diff := diff })

/-- The version that the registry knows covers the one of the event. -/
def Covers (laws : Laws R) (evt : DBChangeEvent) (s : Site R U) : Prop :=
  ∃ table number version, evt.table = .str table ∧ evt.modelVersion = .str number ∧
    laws.version s.world.1 table = some version ∧
    (laws.catalog table number).columns ⊆ (laws.catalog table version).columns

section Possible

variable {laws : Laws R} {ops : RegistryOps R} {engine : DdlEngine U} {sql : SqlHooks U}
  {base : Env U M} {w : SqlWorld (Site R U)} {evt : DBChangeEvent}

theorem found_fst {known : Option String} {version : String} (h : found known = (true, version)) :
    known = some version := by
  cases known with
  | none => cases h
  | some v =>
    cases h
    rfl

theorem eqStr_iff {v : Json} {text : String} : v.eqStr text = true ↔ v = .str text := by
  cases v <;> simp [Json.eqStr]

theorem wp_whileOpen {α : Type} {p : SiteProg R U α} {Q : α → SqlWorld (Site R U) → Prop}
    {X : Exn → SqlWorld (Site R U) → Prop}
    (hp : wp p (fun a s => Q a (w.inWorld s)) (fun e s => X e (w.inWorld s)) w.world)
    (hX : X assertion w) : wp (whileOpen p) Q X w := by
  rw [whileOpen, wp_bind, wp_read]
  split
  · exact wp_outside_iff.mpr hp
  · exact hX

theorem getTableVersion_calm (hops : Lawful ops laws) (hw : laws.inv w.world.world.1) {table : Json}
    (haccepts : laws.Accepts table) :
    wp (outside (outside (first (ops.getTableVersion table))) : SqlProg (Site R U) _)
      (fun a w' => (Calm laws w.world w'.world ∧ w'.vars = w.vars ∧ w'.trace = w.trace) ∧
        ∃ name, table = .str name ∧ a = found (laws.version w'.world.world.1 name))
      (fun _ w' => Calm laws w.world w'.world) w := by
  refine wp_mono (registryCall_spec (hops.getTableVersion table _ haccepts hw)) (fun a w' h => ?_)
    (fun _ w' h => ?_)
  · obtain ⟨r, ⟨hsteady, name, hname, ha⟩, rfl⟩ := h
    refine ⟨⟨calm_withRegistry hsteady, rfl, rfl⟩, name, hname, ?_⟩
    rw [ha, ← hsteady.2]
    rfl
  · obtain ⟨r, hsteady, rfl⟩ := h
    exact calm_withRegistry hsteady

theorem getSchema_calm (hops : Lawful ops laws) (hw : laws.inv w.world.world.1) {table version : Json}
    (haccepts : laws.Accepts table) :
    wp (outside (outside (first (ops.getSchema table version))) : SqlProg (Site R U) _)
      (fun schema w' => (Calm laws w.world w'.world ∧ w'.vars = w.vars ∧ w'.trace = w.trace) ∧
        ∃ name v, table = .str name ∧ version = .str v ∧ schema = laws.catalog name v)
      (fun _ w' => Calm laws w.world w'.world) w := by
  refine wp_mono (registryCall_spec (hops.getSchema table version _ haccepts hw)) (fun a w' h => ?_)
    (fun _ w' h => ?_)
  · obtain ⟨r, ⟨hsteady, hschema⟩, rfl⟩ := h
    exact ⟨⟨calm_withRegistry hsteady, rfl, rfl⟩, hschema⟩
  · obtain ⟨r, hsteady, rfl⟩ := h
    exact calm_withRegistry hsteady

/-- The version of the event is recorded once the table has its columns. -/
theorem recordVersion_advances (hops : Lawful ops laws) {s₀ s₁ : Site R U}
    (hs₁ : Advanced laws s₀ s₁) {evt' : DBChangeEvent} (htable : evt'.table = evt.table)
    (hsame : evt'.modelVersion = evt.modelVersion) {name number : String}
    (hname : evt.table = .str name) (hnumber : evt.modelVersion = .str number)
    (hnamed : laws.named name)
    (hcolumns : Unfailing s₁.trace →
      s₁.vars.database.HasColumns name (laws.catalog name number).columns) :
    wp (do
        (migratingEnv engine .upsert ops sql base).setTableVersion evt.table evt.modelVersion
        pure (true, evt'))
      (fun r w' => Advanced laws s₀ w'.world ∧ Covers laws r.2 w'.world ∧ r.2.table = evt.table)
      (fun _ w' => Advanced laws s₀ w'.world) (w.inWorld s₁) := by
  rw [wp_bind, hname, hnumber]
  refine wp_mono (setTableVersion_advances (w := w.inWorld s₁) hops hs₁.kept hnamed hcolumns)
    (fun _ w₂ h₂ => ?_) (fun _ _ h => hs₁.trans h)
  refine ⟨hs₁.trans h₂.1, ⟨name, number, number, htable.trans hname, hsame.trans hnumber, h₂.2, ?_⟩,
    htable.trans hname⟩
  exact List.Subset.refl _

/-- The schemas of the event and of the known version are at hand. -/
theorem migrateColumns_advances (hops : Lawful ops laws) {s₀ : Site R U} (hw : Advanced laws s₀ w.world)
    {name number version : String} (hname : evt.table = .str name)
    (hnumber : evt.modelVersion = .str number) (hnamed : laws.named name)
    {newschema oldschema : Schema} (hnew : newschema = laws.catalog name number)
    (htable : newschema.table = name) (hold : oldschema = laws.catalog name version)
    (hversion : laws.version w.world.world.1 newschema.table = some version) :
    wp (migrateColumns (migratingEnv engine .upsert ops sql base) evt newschema oldschema)
      (fun r w' => Advanced laws s₀ w'.world ∧ Covers laws r.2 w'.world ∧ r.2.table = evt.table)
      (fun _ w' => Advanced laws s₀ w'.world) w := by
  have hcover : ∀ c ∈ newschema.columns, c ∈ (laws.catalog newschema.table version).columns ∨
      c ∈ newschema.columns.filter fun c => !oldschema.columns.contains c := by
    intro c hc
    rw [htable, ← hold]
    exact mem_or_mem_missing hc
  rw [migrateColumns]
  generalize newschema.columns.filter (fun c => !oldschema.columns.contains c) = columns at hcover
  by_cases hnone : columns = []
  · rw [if_pos hnone]
    refine ⟨hw, ⟨name, number, version, hname, hnumber, htable ▸ hversion, fun c hc => ?_⟩, rfl⟩
    rw [← hnew] at hc
    rcases hcover c hc with hc | hc
    · rw [htable] at hc
      exact hc
    · rw [hnone] at hc
      exact absurd hc List.not_mem_nil
  · rw [if_neg hnone, wp_bind]
    refine wp_whileOpen (wp_mono (migrateNewColumns_advances hw.kept (htable ▸ hnamed) hversion hcover)
      (fun _ s₁ h₁ => ?_) (fun _ _ h => hw.trans h)) hw
    have hw₁ := hw.trans h₁.1
    cases extendDiff columns evt.diff with
    | error e => exact hw₁
    | ok diff =>
      refine recordVersion_advances hops hw₁ rfl rfl hname hnumber hnamed fun hclean => ?_
      rw [← hnew, ← htable]
      exact h₁.2 hclean

/-- A migration that returns leaves a version that covers the event. -/
theorem handlePossibleMigration_advances (hops : Lawful ops laws) (hw : Kept laws w.world)
    (haccepts : laws.Accepts evt.table) :
    wp (handlePossibleMigration (migratingEnv engine .upsert ops sql base) evt)
      (fun r w' => Advanced laws w.world w'.world ∧ Covers laws r.2 w'.world ∧ r.2.table = evt.table)
      (fun _ w' => Advanced laws w.world w'.world) w := by
  rw [handlePossibleMigration, wp_bind]
  refine wp_mono (getTableVersion_calm hops hw.registry haccepts) (fun answer w₁ h₁ => ?_)
    (fun _ _ h => h.advanced hw)
  obtain ⟨⟨hcalm₁, _, _⟩, name, hname, hanswer⟩ := h₁
  have hw₁ := hcalm₁.advanced hw
  have hnamed : laws.named name := haccepts name hname
  obtain ⟨known, version⟩ := answer
  show wp (if _ then _ else _) _ _ _
  split
  · next hsame =>
    obtain ⟨hknown, heq⟩ := Bool.and_eq_true_iff.mp hsame
    subst hknown
    refine ⟨hw₁, ⟨name, version, version, hname, eqStr_iff.mp heq, found_fst hanswer.symm, ?_⟩, rfl⟩
    exact List.Subset.refl _
  · rw [wp_bind]
    refine wp_mono (getSchema_calm hops hw₁.kept.registry haccepts) (fun newschema w₂ h₂ => ?_)
      (fun _ _ h => hw₁.trans (h.advanced hw₁.kept))
    obtain ⟨⟨hcalm₂, _, _⟩, name', number, hname', hnumber, hnew⟩ := h₂
    have hw₂ := hw₁.trans (hcalm₂.advanced hw₁.kept)
    rw [hname] at hname'
    cases hname'
    have htable : newschema.table = name := by rw [hnew, hops.table]
    have hversions : laws.version w₂.world.world.1 = laws.version w₁.world.world.1 :=
      (hcalm₂.registry hw₁.kept.registry).2
    cases known with
    | false =>
      have hunknown : laws.version w₂.world.world.1 newschema.table = none := by
        rw [hversions, htable]
        cases hlaw : laws.version w₁.world.world.1 name with
        | none => rfl
        | some v =>
          rw [hlaw] at hanswer
          cases hanswer
      simp only [Bool.not_false, if_true]
      rw [wp_bind]
      refine wp_whileOpen (wp_mono (migrateNewTable_advances hw₂.kept hunknown) (fun _ s₃ h₃ => ?_)
        (fun _ _ h => hw₂.trans h)) hw₂
      refine recordVersion_advances hops (hw₂.trans h₃.1) rfl rfl hname hnumber hnamed fun _ => ?_
      rw [← hnew, ← htable]
      exact h₃.2
    | true =>
      simp only [Bool.not_true, Bool.false_eq_true, if_false]
      rw [wp_bind]
      refine wp_mono (getSchema_calm hops hw₂.kept.registry haccepts) (fun oldschema w₃ h₃ => ?_)
        (fun _ _ h => hw₂.trans (h.advanced hw₂.kept))
      obtain ⟨⟨hcalm₃, _, _⟩, name'', v, hname'', hv, hold⟩ := h₃
      have hw₃ := hw₂.trans (hcalm₃.advanced hw₂.kept)
      rw [hname] at hname''
      cases hname''
      cases hv
      have hversion : laws.version w₃.world.world.1 newschema.table = some version := by
        rw [(hcalm₃.registry hw₂.kept.registry).2, hversions, htable]
        exact found_fst hanswer.symm
      exact migrateColumns_advances hops hw₃ hname hnumber hnamed hnew htable hold hversion

end Possible

end Consumer
end Eds
