import Eds.Drivers.Migration
import Eds.Registry.Lawful

/-!
# The destination at startup

`update_destination_schema` goes through the latest schemas once.  It decides by the
schema that the driver reported before the loop, `dest`, while each migration works on
the driver's own view, which is read anew after each of them.

The two agree on the tables that are still to come, because a migration touches its own
table only, and in append mode the two views of that table.  `Reconciled` is what holds
after any part of the loop, whether it was cut short or not.
-/

namespace Eds
namespace Consumer

open Effects Effects.Prog Effects.Traced Collections Drivers Registry

variable {R U : Type}

/-! ## The loop -/

def versionError (table err : String) : Exn :=
  .exception s!"error getting table version for table: {table}: {err}"

section

variable (engine : DdlEngine U) (mode : IngestMode) (ops : RegistryOps R)

def tableVersionOf (table : String) : SiteProg R U (Bool × String) :=
  tryExcept (call (fun _ => .registryFailed) (first (ops.getTableVersion (.str table))))
    fun e => raise (versionError table e.str)

/-- The body of the loop, for one table of the latest schema. -/
def updateTable (dest : DatabaseSchema) (entry : String × Schema) : SiteProg R U Unit := do
  let (found, _) ← tableVersionOf ops entry.1
  if !found then raise (versionError entry.1 "not found")
  else
    match dest entry.1 with
    | none => migrateNewTable engine mode entry.2
    | some existing => do
      let columns := entry.2.columns.filter fun c => !existing.contains c
      if columns = [] then pure () else migrateNewColumns engine mode entry.2 columns

/-- `latest` is `get_latest_schema`.  The driver has been started, and reports its view. -/
def updateDestinationSchema (latest : Prog Exn R (Dict String Schema)) : SiteProg R U Unit := do
  let schema ← tryExcept (call (fun _ => .registryFailed) (first latest))
    fun e => raise (.exception s!"error getting latest schema: {e.str}")
  let dest ← read Target.view
  each (updateTable engine mode ops dest) schema.items

end

/-! ## What holds after any part of the loop -/

/-- Not one of the views that append mode keeps for the tables. -/
def OutsideViews (mode : IngestMode) (tables : List String) (name : String) : Prop :=
  mode = .append → ∀ table ∈ tables, name ≠ currentName table ∧ name ≠ timelineName table

/-- A statement that drops or creates a table is about one that was not there. -/
def SafeFor (db : Database) (o : SiteObs R) : Prop :=
  ∀ d table, o = .executed d → d.recreates = some table → db.report table = none

theorem safeFor_registryFailed (db : Database) : SafeFor db (.registryFailed : SiteObs R) := by
  intro d table heq
  cases heq

structure Reconciled (laws : Laws R) (mode : IngestMode) (tables : List String) (s u : Site R U) :
    Prop where
  registry : laws.Steady s.world.1 u.world.1
  grown : ∀ name columns, s.vars.database.tables name = some columns →
    u.vars.database.HasColumns name columns
  outside : ∀ name, name ∉ tables → u.vars.database.tables name = s.vars.database.tables name
  views : ∀ name, OutsideViews mode tables name →
    u.vars.database.views name = s.vars.database.views name
  trace : Adds (SafeFor s.vars.database) s u

/-- What is still to come is as it was, and what is done is there. -/
structure Underway (laws : Laws R) (mode : IngestMode) (latest : Dict String Schema) (s : Site R U)
    (rest : List (String × Schema)) (u : Site R U) : Prop where
  reconciled : Reconciled laws mode latest.keys s u
  fresh : u.vars.Fresh
  clean : Adds (fun o => ¬ o.Failed) s u
  sub : ∀ entry ∈ rest, entry ∈ latest.items
  distinct : (rest.map Prod.fst).Nodup
  pending : ∀ entry ∈ rest, u.vars.database.tables entry.1 = s.vars.database.tables entry.1
  done : ∀ entry ∈ latest.items, entry ∈ rest ∨ (laws.version s.world.1 entry.1 ≠ none ∧
    ∃ columns, u.vars.database.report entry.1 = some columns ∧ entry.2.columns ⊆ columns)

/-- How the loop ends when it raises. -/
structure CutShort (laws : Laws R) (mode : IngestMode) (latest : Dict String Schema)
    (s u : Site R U) : Prop where
  reconciled : Reconciled laws mode latest.keys s u
  reason : (∃ es, u.trace = s.trace ++ es ∧ ∃ o ∈ es, o.Failed) ∨
    ∃ entry ∈ latest.items, laws.version s.world.1 entry.1 = none

section Loop

variable {laws : Laws R} {ops : RegistryOps R} {engine : DdlEngine U} {mode : IngestMode}
  {latest : Dict String Schema} {s u v : Site R U}

theorem Reconciled.refl {tables : List String} (hinv : laws.inv s.world.1) :
    Reconciled laws mode tables s s :=
  ⟨⟨hinv, rfl⟩, fun _ columns h => ⟨columns, h, List.Subset.refl _⟩, fun _ _ => rfl, fun _ _ => rfl,
    Adds.refl s⟩

/-- The migration of a table of the latest schema. -/
theorem Reconciled.migrated {table : String} {tables : List String} (hmem : table ∈ tables)
    (h : Reconciled laws mode tables s u) (htouch : Touches mode table u v)
    (hsafe : Adds (SafeFor s.vars.database) u v)
    (hgrown : ∀ columns, u.vars.database.tables table = some columns →
      v.vars.database.HasColumns table columns) : Reconciled laws mode tables s v where
  registry := by
    rw [htouch.registry]
    exact h.registry
  grown name columns hcolumns := by
    obtain ⟨all, hall, hsub⟩ := h.grown name columns hcolumns
    by_cases hname : name = table
    · subst hname
      obtain ⟨all', hall', hsub'⟩ := hgrown all hall
      exact ⟨all', hall', fun c hc => hsub' (hsub hc)⟩
    · exact ⟨all, (htouch.tables name hname).trans hall, hsub⟩
  outside name hname := by
    have hne : name ≠ table := fun heq => hname (heq ▸ hmem)
    exact (htouch.tables name hne).trans (h.outside name hname)
  views name hname := by
    refine (htouch.views name fun hmode => ?_).trans (h.views name hname)
    exact hname hmode table hmem
  trace := h.trace.trans hsafe

/-- The registry was read. -/
theorem Reconciled.read {tables : List String} (h : Reconciled laws mode tables s u)
    (hvars : v.vars = u.vars) (hregistry : laws.Steady u.world.1 v.world.1)
    (htrace : Adds (SafeFor s.vars.database) u v) : Reconciled laws mode tables s v where
  registry := h.registry.trans hregistry
  grown name columns hcolumns := by
    rw [hvars]
    exact h.grown name columns hcolumns
  outside name hname := by
    rw [hvars]
    exact h.outside name hname
  views name hname := by
    rw [hvars]
    exact h.views name hname
  trace := h.trace.trans htrace

theorem tableVersionOf_spec (hops : Lawful ops laws) {table : String} (hnamed : laws.named table)
    (hinv : laws.inv u.world.1) :
    wp (tableVersionOf ops table)
      (fun a v => v.vars = u.vars ∧ v.trace = u.trace ∧ laws.Steady u.world.1 v.world.1 ∧
        a = found (laws.version u.world.1 table))
      (fun _ v => v.vars = u.vars ∧ v.trace = u.trace ++ [.registryFailed] ∧
        laws.Steady u.world.1 v.world.1) u := by
  have haccepts : laws.Accepts (.str table) := by
    intro name hname
    cases hname
    exact hnamed
  have hread : wp (first (ops.getTableVersion (.str table)))
      (fun a w => laws.Steady u.world.1 w.1 ∧ a = found (laws.version u.world.1 table))
      (fun _ w => laws.Steady u.world.1 w.1) u.world := by
    rw [first, wp_on]
    refine wp_mono (hops.getTableVersion (.str table) _ haccepts hinv) (fun a r hr => ?_)
      (fun _ _ hr => hr)
    obtain ⟨hsteady, name, hname, ha⟩ := hr
    cases hname
    exact ⟨hsteady, ha⟩
  refine wp_tryExcept (wp_call (fun a w hw => ?_) (fun e w hw => ?_))
  · exact ⟨rfl, rfl, (wp_ok hread hw).1, (wp_ok hread hw).2⟩
  · have hsteady : laws.Steady u.world.1 w.1 := wp_error hread hw
    exact ⟨fun _ => ⟨rfl, rfl, hsteady⟩, fun _ => ⟨rfl, rfl, hsteady⟩⟩

/-- No table of the latest schema has the name of a view that append mode keeps for one. -/
def Apart (mode : IngestMode) (latest : Dict String Schema) : Prop :=
  ∀ name ∈ latest.keys, OutsideViews mode latest.keys name

theorem Underway.report_pending {entry : String × Schema} {rest : List (String × Schema)}
    (h : Underway laws mode latest s rest u) (hapart : Apart mode latest) (hentry : entry ∈ rest) :
    u.vars.database.report entry.1 = s.vars.database.report entry.1 := by
  have hkey : entry.1 ∈ latest.keys := List.mem_map.mpr ⟨entry, h.sub entry hentry, rfl⟩
  rw [Database.report, Database.report, h.pending entry hentry,
    h.reconciled.views _ (hapart _ hkey)]

/-- One table is done. -/
theorem Underway.next {entry : String × Schema} {rest : List (String × Schema)}
    (h : Underway laws mode latest s (entry :: rest) u) (hapart : Apart mode latest)
    (hrec : Reconciled laws mode latest.keys s v) (hfresh : v.vars.Fresh)
    (hclean : Adds (fun o => ¬ o.Failed) u v)
    (htables : ∀ name, name ≠ entry.1 →
      v.vars.database.tables name = u.vars.database.tables name)
    (hversion : laws.version s.world.1 entry.1 ≠ none)
    (hdone : ∃ columns, v.vars.database.report entry.1 = some columns ∧ entry.2.columns ⊆ columns) :
    Underway laws mode latest s rest v where
  reconciled := hrec
  fresh := hfresh
  clean := h.clean.trans hclean
  sub e he := h.sub e (List.mem_cons_of_mem _ he)
  distinct := (List.nodup_cons.mp h.distinct).2
  pending e he := by
    have hne : e.1 ≠ entry.1 := by
      intro heq
      exact (List.nodup_cons.mp h.distinct).1 (List.mem_map.mpr ⟨e, he, heq⟩)
    exact (htables e.1 hne).trans (h.pending e (List.mem_cons_of_mem _ he))
  done e he := by
    by_cases hkey : e.1 = entry.1
    · have hsame : e.2 = entry.2 := by
        have hfirst : latest.get? e.1 = some e.2 := Dict.get?_eq_some.mpr he
        have hsecond : latest.get? entry.1 = some entry.2 :=
          Dict.get?_eq_some.mpr (h.sub entry List.mem_cons_self)
        rw [hkey, hsecond] at hfirst
        exact (Option.some.inj hfirst).symm
      rw [hkey, hsame]
      exact Or.inr ⟨hversion, hdone⟩
    · rcases h.done e he with hrest | ⟨hv, columns, hcolumns, hsub⟩
      · rcases List.mem_cons.mp hrest with rfl | hrest
        · exact absurd rfl hkey
        · exact Or.inl hrest
      · refine Or.inr ⟨hv, columns, ?_, hsub⟩
        have hmem : e.1 ∈ latest.keys := List.mem_map.mpr ⟨e, he, rfl⟩
        have hview : v.vars.database.views e.1 = u.vars.database.views e.1 :=
          (hrec.views _ (hapart _ hmem)).trans (h.reconciled.views _ (hapart _ hmem)).symm
        rw [← hcolumns, Database.report, Database.report, htables e.1 hkey, hview]

theorem report_of_tables {db : Database} {name : String} {columns : List String}
    (h : db.HasColumns name columns) : ∃ all, db.report name = some all ∧ columns ⊆ all := by
  obtain ⟨all, hall, hsub⟩ := h
  exact ⟨all, by rw [Database.report, hall, Option.some_or], hsub⟩

theorem failed_after {es : List (SiteObs R)} (hbefore : Adds (fun o => ¬ o.Failed) s u)
    (htrace : v.trace = u.trace ++ es) (hfailed : ∃ o ∈ es, o.Failed) :
    ∃ es, v.trace = s.trace ++ es ∧ ∃ o ∈ es, o.Failed := by
  obtain ⟨front, hfront, _⟩ := hbefore
  obtain ⟨o, ho, hfailed⟩ := hfailed
  exact ⟨front ++ es, by rw [htrace, hfront, List.append_assoc], o,
    List.mem_append_right _ ho, hfailed⟩

/-- The table is not in the destination. -/
theorem migrateMissing_underway {entry : String × Schema} {rest : List (String × Schema)}
    (h : Underway laws mode latest s (entry :: rest) u) (hapart : Apart mode latest)
    (hkeyed : entry.2.table = entry.1) (hversion : laws.version s.world.1 entry.1 ≠ none)
    (hmissing : s.vars.database.report entry.1 = none) :
    wp (migrateNewTable engine mode entry.2) (fun _ v => Underway laws mode latest s rest v)
      (fun _ v => CutShort laws mode latest s v) u := by
  have hmem : entry.1 ∈ latest.keys :=
    List.mem_map.mpr ⟨entry, h.sub entry List.mem_cons_self, rfl⟩
  have hrec : ∀ v, Touches mode entry.2.table u v → Reconciled laws mode latest.keys s v := by
    intro v htouch
    rw [hkeyed] at htouch
    refine h.reconciled.migrated hmem htouch ?_ (fun columns hcolumns => ?_)
    · obtain ⟨es, hes, habout⟩ := htouch.trace
      refine ⟨es, hes, fun o ho d table hd hrecreates => ?_⟩
      have hlocal : d.Local mode entry.1 := by
        have hobs := habout o ho
        rw [hd] at hobs
        exact hobs
      have htable : table = entry.1 := by
        cases d with
        | dropTable name => exact (Option.some.inj hrecreates).symm.trans hlocal
        | createTable name columns => exact (Option.some.inj hrecreates).symm.trans hlocal
        | createHistory name columns => exact (Option.some.inj hrecreates).symm.trans hlocal.2
        | addColumn name column type => cases hrecreates
        | dropView view => cases hrecreates
        | createView view columns => cases hrecreates
      rw [htable]
      exact hmissing
    · rw [h.pending entry List.mem_cons_self] at hcolumns
      rw [Database.report, hcolumns, Option.some_or] at hmissing
      cases hmissing
  have htouches : Within (Touches mode entry.2.table)
      (migrateNewTable engine mode entry.2 : SiteProg R U Unit) := migrateNewTable_touches
  have hspec := wp_and (htouches.wp u) (honest_migrateNewTable entry.2 u)
  refine wp_mono (wp_and hspec migrateNewTable_makes) (fun _ v hv => ?_) (fun _ v hv => ?_)
  · obtain ⟨⟨htouch, hclean⟩, hfresh, hcolumns⟩ := hv
    rw [hkeyed] at hcolumns
    refine h.next hapart (hrec v htouch) hfresh hclean (fun name hname => ?_) hversion
      (report_of_tables hcolumns)
    exact htouch.tables name (hkeyed ▸ hname)
  · obtain ⟨⟨htouch, es, hes, hfailed⟩, _⟩ := hv
    exact ⟨hrec v htouch, Or.inl (failed_after h.clean hes hfailed)⟩

/-- The table lacks some columns. -/
theorem migrateColumns_underway {entry : String × Schema} {rest : List (String × Schema)}
    (h : Underway laws mode latest s (entry :: rest) u) (hapart : Apart mode latest)
    (hkeyed : entry.2.table = entry.1) (hversion : laws.version s.world.1 entry.1 ≠ none)
    {existing columns : List String} (hexisting : s.vars.database.report entry.1 = some existing)
    (hcolumns : columns = entry.2.columns.filter fun c => !existing.contains c)
    (hnew : columns ≠ []) :
    wp (migrateNewColumns engine mode entry.2 columns)
      (fun _ v => Underway laws mode latest s rest v) (fun _ v => CutShort laws mode latest s v) u := by
  have hmem : entry.1 ∈ latest.keys :=
    List.mem_map.mpr ⟨entry, h.sub entry List.mem_cons_self, rfl⟩
  have hold : u.vars.view entry.2.table = some existing := by
    rw [h.fresh, hkeyed, h.report_pending hapart List.mem_cons_self, hexisting]
  obtain ⟨column, hcolumn⟩ := List.exists_mem_of_ne_nil columns hnew
  have hlacks : column ∉ existing := by
    rw [hcolumns] at hcolumn
    simpa using (List.mem_filter.mp hcolumn).2
  have hrec : ∀ v, Touches mode entry.2.table u v →
      Widens entry.2.table u.vars.database v.vars.database →
      Adds (fun o => ∀ d, o = .executed d → d.recreates = none) u v →
      Reconciled laws mode latest.keys s v := by
    intro v htouch hwidens hadds
    rw [hkeyed] at htouch hwidens
    refine h.reconciled.migrated hmem htouch ?_ (fun all hall => ?_)
    · obtain ⟨es, hes, hnone⟩ := hadds
      refine ⟨es, hes, fun o ho d table hd hrecreates => ?_⟩
      rw [hnone o ho d hd] at hrecreates
      cases hrecreates
    · exact hwidens.hasColumns ⟨all, hall, List.Subset.refl _⟩
  have htouches : Within (Touches mode entry.2.table)
      (migrateNewColumns engine mode entry.2 columns : SiteProg R U Unit) := migrateNewColumns_touches
  have hwidens : Within (fun s u => Widens entry.2.table s.vars.database u.vars.database)
      (migrateNewColumns engine mode entry.2 columns : SiteProg R U Unit) := migrateNewColumns_widens
  have hrecreates : Within (Adds fun o => ∀ d, o = .executed d → d.recreates = none)
      (migrateNewColumns engine mode entry.2 columns : SiteProg R U Unit) :=
    migrateNewColumns_recreates
  have hframe := wp_and (wp_and (htouches.wp u) (hwidens.wp u)) (hrecreates.wp u)
  have hhonest : Honest (migrateNewColumns engine mode entry.2 columns : SiteProg R U Unit) :=
    honest_migrateNewColumns entry.2 columns
  have hends := wp_and (hhonest u) (migrateNewColumns_completes h.fresh hold hcolumn hlacks)
  refine wp_mono (wp_and hframe hends) (fun _ v hv => ?_) (fun _ v hv => ?_)
  · obtain ⟨⟨⟨htouch, hwide⟩, hadds⟩, hclean, hfresh, hmade⟩ := hv
    rw [hkeyed] at hmade
    refine h.next hapart (hrec v htouch hwide hadds) hfresh hclean (fun name hname => ?_) hversion ?_
    · exact htouch.tables name (hkeyed ▸ hname)
    · obtain ⟨all, hall, hsub⟩ := report_of_tables hmade
      refine ⟨all, hall, fun c hc => hsub (List.mem_append.mpr ?_)⟩
      rw [hcolumns]
      exact mem_or_mem_missing hc
  · obtain ⟨⟨⟨htouch, hwide⟩, hadds⟩, ⟨es, hes, hfailed⟩, _⟩ := hv
    exact ⟨hrec v htouch hwide hadds, Or.inl (failed_after h.clean hes hfailed)⟩

theorem updateTable_underway (hops : Lawful ops laws) {entry : String × Schema}
    {rest : List (String × Schema)} (h : Underway laws mode latest s (entry :: rest) u)
    (hapart : Apart mode latest) (hkeyed : Keyed latest) (hnamed : ∀ e ∈ latest.items, laws.named e.1) :
    wp (updateTable engine mode ops s.vars.database.report entry)
      (fun _ v => Underway laws mode latest s rest v) (fun _ v => CutShort laws mode latest s v) u := by
  have hitem : entry ∈ latest.items := h.sub entry List.mem_cons_self
  have hspec := tableVersionOf_spec (u := u) hops (hnamed entry hitem) h.reconciled.registry.1
  rw [updateTable, wp_bind]
  refine wp_mono hspec (fun answer v hv => ?_) (fun _ v hv => ?_)
  · obtain ⟨hvars, htrace, hsteady, hanswer⟩ := hv
    have hquiet : ∀ P : SiteObs R → Prop, Adds P u v := fun P => Adds.nothing htrace
    have hrec := h.reconciled.read hvars hsteady (hquiet _)
    have hv : Underway laws mode latest s (entry :: rest) v := by
      refine ⟨hrec, ?_, h.clean.trans (hquiet _), h.sub, h.distinct, ?_, ?_⟩
      · rw [Target.Fresh, hvars]
        exact h.fresh
      · rw [hvars]
        exact h.pending
      · rw [hvars]
        exact h.done
    rw [h.reconciled.registry.2] at hanswer
    cases hversion : laws.version s.world.1 entry.1 with
    | none =>
      rw [hanswer, hversion]
      exact ⟨hrec, Or.inr ⟨entry, hitem, hversion⟩⟩
    | some version =>
      have hknown : laws.version s.world.1 entry.1 ≠ none := by
        rw [hversion]
        exact Option.some_ne_none version
      rw [hanswer, hversion]
      simp only [found, Bool.not_true, Bool.false_eq_true, if_false]
      cases hdest : s.vars.database.report entry.1 with
      | none => exact migrateMissing_underway hv hapart (hkeyed entry hitem) hknown hdest
      | some existing =>
        show wp (if _ then _ else _) _ _ v
        split
        · next hcolumns =>
          refine hv.next hapart hrec hv.fresh (Adds.refl v) (fun _ _ => rfl) hknown ⟨existing, ?_, ?_⟩
          · rw [hv.report_pending hapart List.mem_cons_self, hdest]
          · intro c hc
            have hmem : c ∈ existing ∨ c ∈ entry.2.columns.filter fun c => !existing.contains c :=
              mem_or_mem_missing hc
            rw [hcolumns] at hmem
            exact hmem.resolve_right List.not_mem_nil
        · next hcolumns =>
          exact migrateColumns_underway hv hapart (hkeyed entry hitem) hknown hdest rfl hcolumns
  · obtain ⟨hvars, htrace, hsteady⟩ := hv
    refine ⟨h.reconciled.read hvars hsteady (Adds.one htrace (safeFor_registryFailed _)), Or.inl ?_⟩
    exact failed_after h.clean htrace ⟨_, List.mem_singleton_self _, trivial⟩

end Loop

/-! ## The whole call -/

section Call

variable {laws : Laws R} {ops : RegistryOps R} {engine : DdlEngine U} {mode : IngestMode}
  {latest : Dict String Schema} {s : Site R U}

/-- `get_latest_schema` returns `latest`, or it raises. -/
def GivesLatest (laws : Laws R) (getLatest : Prog Exn R (Dict String Schema))
    (latest : Dict String Schema) : Prop :=
  ∀ r, laws.inv r → wp getLatest (fun a r' => laws.Steady r r' ∧ a = latest)
    (fun _ r' => laws.Steady r r') r

theorem updateDestinationSchema_spec (hops : Lawful ops laws)
    {getLatest : Prog Exn R (Dict String Schema)} (hlatest : GivesLatest laws getLatest latest)
    (hkeyed : Keyed latest) (hnamed : ∀ e ∈ latest.items, laws.named e.1)
    (hapart : Apart mode latest) (hinv : laws.inv s.world.1) (hfresh : s.vars.Fresh) :
    wp (updateDestinationSchema engine mode ops getLatest)
      (fun _ u => Underway laws mode latest s [] u) (fun _ u => CutShort laws mode latest s u) s := by
  have hread : wp (first getLatest) (fun a w => laws.Steady s.world.1 w.1 ∧ a = latest)
      (fun _ w => laws.Steady s.world.1 w.1) s.world := by
    rw [first, wp_on]
    exact hlatest _ hinv
  rw [updateDestinationSchema, wp_bind]
  refine wp_tryExcept (wp_call (fun a w hw => ?_) (fun e w hw => ?_))
  · obtain ⟨hsteady, rfl⟩ := wp_ok hread hw
    have hrec : Reconciled laws mode a.keys s (s.inWorld w) :=
      (Reconciled.refl hinv).read rfl hsteady (Adds.refl s)
    have hstart : Underway laws mode a s a.items (s.inWorld w) :=
      ⟨hrec, hfresh, Adds.refl s, fun _ h => h, a.keys_nodup, fun _ _ => rfl, fun _ h => Or.inl h⟩
    have hdest : (s.inWorld w).vars.view = s.vars.database.report := hfresh
    rw [wp_bind, wp_read, hdest]
    exact wp_each (fun rest u => Underway laws mode a s rest u)
      (fun entry rest u hu => updateTable_underway hops hu hapart hkeyed hnamed) _ _ hstart
  · have hsteady : laws.Steady s.world.1 w.1 := wp_error hread hw
    have hcut : CutShort laws mode latest s ((s.inWorld w).push .registryFailed) := by
      refine ⟨(Reconciled.refl hinv).read rfl hsteady (Adds.one rfl (safeFor_registryFailed _)), Or.inl ?_⟩
      exact ⟨_, rfl, _, List.mem_singleton_self _, trivial⟩
    exact ⟨fun _ => hcut, fun _ => hcut⟩

end Call

/-- When the call returns, the destination has every latest table with its columns.  However it
ends, base tables only grow, those that are not latest tables are untouched, views are too
unless append mode keeps them for a latest table, and no statement drops or creates a table
that was there.  It raises exactly when a call failed or a latest table has no version. -/
theorem startup_reconciliation (laws : Laws R) (ops : RegistryOps R) (hops : Lawful ops laws)
    (latest : Dict String Schema) (getLatest : Prog Exn R (Dict String Schema))
    (hlatest : GivesLatest laws getLatest latest) (hkeyed : Keyed latest)
    (hnamed : ∀ e ∈ latest.items, laws.named e.1) (engine : DdlEngine U) (mode : IngestMode)
    (hapart : Apart mode latest) (s : Site R U) (hinv : laws.inv s.world.1) (hfresh : s.vars.Fresh) :
    let before := s.vars.database
    let out := updateDestinationSchema engine mode ops getLatest s
    let after := out.2.vars.database
    ∃ es, out.2.trace = s.trace ++ es ∧
      (out.1 = .ok () → ∀ e ∈ latest.items, ∃ columns,
        after.report e.1 = some columns ∧ e.2.columns ⊆ columns) ∧
      (∀ name columns, before.tables name = some columns → after.HasColumns name columns) ∧
      (∀ name, name ∉ latest.keys → after.tables name = before.tables name) ∧
      (∀ name, OutsideViews mode latest.keys name → after.views name = before.views name) ∧
      (∀ d table, .executed d ∈ es → d.recreates = some table → before.report table = none) ∧
      ((∃ e, out.1 = .error e) ↔ (∃ o ∈ es, o.Failed) ∨
        ∃ e ∈ latest.items, laws.version s.world.1 e.1 = none) := by
  intro before out after
  have hspec : wp (updateDestinationSchema engine mode ops getLatest)
      (fun _ u => Underway laws mode latest s [] u) (fun _ u => CutShort laws mode latest s u) s :=
    updateDestinationSchema_spec hops hlatest hkeyed hnamed hapart hinv hfresh
  have hrec : Reconciled laws mode latest.keys s out.2 :=
    wp_state (wp_mono hspec (fun _ _ h => h.reconciled) (fun _ _ h => h.reconciled))
  obtain ⟨es, hes, hsafe⟩ := hrec.trace
  refine ⟨es, hes, ?_, hrec.grown, hrec.outside, hrec.views,
    fun d table hd hrecreates => hsafe _ hd d table rfl hrecreates, ?_⟩
  · intro hok e he
    rcases wp_elim hspec with ⟨_, _, h⟩ | ⟨_, herr, _⟩
    · rcases h.done e he with habsurd | ⟨_, hdone⟩
      · exact absurd habsurd List.not_mem_nil
      · exact hdone
    · rw [show out.1 = _ from herr] at hok
      cases hok
  · rcases wp_elim hspec with ⟨_, hok, h⟩ | ⟨e, herr, h⟩
    · have hclean : ∀ o ∈ es, ¬ o.Failed := by
        obtain ⟨es', hes', hclean⟩ := h.clean
        rw [show out.2.trace = _ from hes'] at hes
        rw [← List.append_cancel_left hes]
        exact hclean
      refine ⟨fun herr => ?_, fun hreason => ?_⟩
      · obtain ⟨e, herr⟩ := herr
        rw [show out.1 = _ from hok] at herr
        cases herr
      · rcases hreason with ⟨o, ho, hfailed⟩ | ⟨entry, hentry, hnone⟩
        · exact absurd hfailed (hclean o ho)
        · rcases h.done entry hentry with habsurd | ⟨hknown, _⟩
          · exact absurd habsurd List.not_mem_nil
          · exact absurd hnone hknown
    · refine ⟨fun _ => ?_, fun _ => ⟨e, herr⟩⟩
      refine h.reason.imp_left fun hfailed => ?_
      obtain ⟨es', hes', hfailed⟩ := hfailed
      rw [show out.2.trace = _ from hes'] at hes
      rw [← List.append_cancel_left hes]
      exact hfailed

/-- The users have a name by now, and the orders are new. -/
def grownRegistry : ApiRegistry Unit :=
  { userRegistry with
    schema := ⟨[("user", userCatalog "user" "v2"), ("order", userCatalog "order" "v1")], by decide⟩ }

theorem grownRegistry_catalogued : Catalogued grownRegistry userCatalog :=
  ⟨userRegistry_catalogued.table, userRegistry_catalogued.answers, userRegistry_catalogued.readsBack⟩

def grownRegistryOpened : Registry.State Unit := (openRegistry grownRegistry (start () 0 0)).2

theorem grownRegistryOpened_inv : (apiLaws grownRegistry userCatalog).inv grownRegistryOpened := by
  refine openRegistry_inv rfl grownRegistry_catalogued (fun entry hentry => ?_)
    ⟨start_coherent () 0 0, fun o ho => absurd ho List.not_mem_nil⟩
  rcases List.mem_pair.mp hentry with rfl | rfl
  · exact ⟨by show Name "user"; decide, rfl⟩
  · exact ⟨by show Name "order"; decide, rfl⟩

/-- The users of version `v1` in append mode, with a column of somebody else, and another table. -/
def userDatabase : Database where
  tables name := if name = "user" then some ("id" :: "notes" :: historyColumns)
    else if name = "audit" then some ["id"] else none
  views name := if name = "user_current" ∨ name = "user_timeline" then some ["id", "notes"] else none

/-- The users get a column, the orders a table, and what was there stays. -/
theorem startup_reconciliation_user :
    let site : Site (Registry.State Unit) Unit :=
      ⟨⟨userDatabase, userDatabase.report⟩, (grownRegistryOpened, ()), []⟩
    let out := updateDestinationSchema .obliging .append (apiOps grownRegistry)
      (pure grownRegistry.schema) site
    out.1 = .ok () ∧
      (∀ e ∈ grownRegistry.schema.items, ∃ columns,
        out.2.vars.database.report e.1 = some columns ∧ e.2.columns ⊆ columns) ∧
      out.2.vars.database.HasColumns "user" ("id" :: "notes" :: historyColumns) ∧
      out.2.vars.database.tables "audit" = some ["id"] := by
  intro site out
  have hlatest : GivesLatest (apiLaws grownRegistry userCatalog)
      (pure grownRegistry.schema : Prog Exn (Registry.State Unit) _) grownRegistry.schema :=
    fun r hinv => ⟨⟨hinv, rfl⟩, rfl⟩
  have hitems : ∀ e ∈ grownRegistry.schema.items,
      e = ("user", userCatalog "user" "v2") ∨ e = ("order", userCatalog "order" "v1") :=
    fun e he => List.mem_pair.mp he
  have hkeyed : Keyed grownRegistry.schema := by
    intro e he
    rcases hitems e he with rfl | rfl <;> rfl
  have hnamed : ∀ e ∈ grownRegistry.schema.items,
      (apiLaws grownRegistry userCatalog).named e.1 := by
    intro e he
    rcases hitems e he with rfl | rfl
    · show Name "user"
      decide
    · show Name "order"
      decide
  have hapart : Apart .append grownRegistry.schema := by
    intro name hname _ table htable
    have hkeys : grownRegistry.schema.keys = ["user", "order"] := rfl
    rw [hkeys] at hname htable
    revert name table
    decide
  have hok : out.1 = .ok () := by decide +kernel
  obtain ⟨_, _, hcomplete, hgrown, houtside, _⟩ := startup_reconciliation _ _
    (apiRegistry_lawful rfl grownRegistry_catalogued) grownRegistry.schema _ hlatest hkeyed hnamed
    .obliging .append hapart site grownRegistryOpened_inv rfl
  refine ⟨hok, hcomplete hok, hgrown "user" _ rfl, houtside "audit" ?_⟩
  exact fun h => absurd (List.mem_pair.mp h) (by decide)

/-! ## In append mode -/

def columnsOf (names : List String) (table : String) : Schema where
  properties := Dict.empty
  primaryKeys := names
  table := table
  modelVersion := "v1"

/-- A table, and another one with the name of the view that append mode keeps for it. -/
def clashing : Dict String Schema :=
  ⟨[("x", columnsOf ["id", "c"] "x"), ("x_current", columnsOf ["id", "b"] "x_current")], by decide⟩

/-- Append mode has run before, when `x` had the columns `id` and `b`. -/
def clashingSite : Site Unit Unit :=
  let database : Database :=
    { tables := fun name => if name = "x" then some (["id", "b"] ++ historyColumns) else none
      views := fun name => if name = "x_current" then some ["id", "b"] else none }
  ⟨⟨database, database.report⟩, ((), ()), []⟩

def steadyOps : RegistryOps Unit where
  getTableVersion _ := pure (true, "v1")
  getSchema _ _ := pure (columnsOf ["id"] "x")
  setTableVersion _ _ := pure ()

/-- The call returns, but the migration of `x` has rebuilt the view, and the table `x_current` of
the latest schema lacks its column. -/
theorem startup_reconciliation_clash :
    let out := updateDestinationSchema .obliging .append steadyOps (pure clashing) clashingSite
    out.1 = .ok () ∧ ∃ e ∈ clashing.items, ∃ columns,
      clashingSite.vars.view e.1 = some ["id", "b"] ∧
      out.2.vars.database.report e.1 = some columns ∧ ¬ e.2.columns ⊆ columns := by
  refine ⟨by decide +kernel, ("x_current", columnsOf ["id", "b"] "x_current"), by decide +kernel,
    ["id", "c"], rfl, by decide +kernel, by decide +kernel⟩

end Consumer
end Eds
