import Eds.Drivers.SqlBase

/-!
# The migrations of the SQL drivers

A driver creates a table or adds columns to one by DDL, and reads the schema of the
database anew after each migration.  It decides by the schema that it read last, its
`view`, which lists base tables and views alike.

A statement either has its effect or raises, for a reason of its own (a name that is
taken, a column that is there) or because the connection fails.  Column types are
carried and never read back; the texts of the statements are left out.
-/

namespace Eds
namespace Drivers

open Effects Effects.Prog Effects.Traced Collections

variable {R U : Type}

/-! ## The database -/

/-- The columns of the base tables and of the views. -/
structure Database where
  tables : String → Option (List String)
  views : String → Option (List String)

/-- `DatabaseSchema`, without the types. -/
abbrev DatabaseSchema := String → Option (List String)

/-- What `information_schema.columns` lists. -/
def Database.report (db : Database) : DatabaseSchema := fun name => (db.tables name).or (db.views name)

/-- `get_type`, without the type. -/
def DatabaseSchema.hasColumn (view : DatabaseSchema) (table column : String) : Bool :=
  match view table with
  | some columns => columns.contains column
  | none => false

/-- `createTable` drops the table if it exists, and `createHistory` also its two views. -/
inductive Ddl where
  | dropTable (table : String)
  | createTable (table : String) (columns : List String)
  | createHistory (table : String) (columns : List String)
  | addColumn (table column type : String)
  | dropView (view : String)
  | createView (view : String) (columns : List String)
  deriving DecidableEq

def currentName (table : String) : String := table ++ "_current"

def timelineName (table : String) : String := table ++ "_timeline"

/-- The columns that append mode adds to a table. -/
def historyColumns : List String :=
  ["_eds_seq", "_eds_operation", "_eds_mvcc_timestamp", "_eds_timestamp", "_eds_appended_at"]

/-- What a database driver raises. -/
def databaseError : Exn := .exception ""

namespace Database

def setTable (name : String) (columns : Option (List String)) (db : Database) : Database :=
  { db with tables := Function.update db.tables name columns }

def setView (name : String) (columns : Option (List String)) (db : Database) : Database :=
  { db with views := Function.update db.views name columns }

/-- A base table and a view cannot share a name. -/
def run (db : Database) : Ddl → Except Exn Database
  | .dropTable table =>
    if (db.views table).isSome then .error databaseError else .ok (db.setTable table none)
  | .createTable table columns =>
    if (db.views table).isSome ∨ ¬ columns.Nodup then .error databaseError
    else .ok (db.setTable table (some columns))
  | .createHistory table columns =>
    if (db.tables (timelineName table)).isSome ∨ (db.tables (currentName table)).isSome ∨
        (db.views table).isSome ∨ ¬ columns.Nodup then .error databaseError
    else .ok (((db.setView (timelineName table) none).setView (currentName table) none).setTable
      table (some columns))
  | .addColumn table column _ =>
    match db.tables table with
    | none => .error databaseError
    | some columns =>
      if column ∈ columns then .error databaseError
      else .ok (db.setTable table (some (columns ++ [column])))
  | .dropView view =>
    if (db.tables view).isSome then .error databaseError else .ok (db.setView view none)
  | .createView view columns =>
    if (db.tables view).isSome then .error databaseError else .ok (db.setView view (some columns))

end Database

/-! ## The driver -/

structure Target where
  database : Database
  view : DatabaseSchema

/-- The calls that raised, the statements that had their effect, the start of a migration of
a new table, and the schema that the driver used for an event, with the registry and the
database at that moment. -/
inductive SiteObs (R : Type) where
  | creating (schema : Schema)
  | executed (d : Ddl)
  | refused (d : Ddl)
  | refreshFailed
  | registryFailed
  | used (evt : DBChangeEvent) (schema : Schema) (registry : R) (db : Database)

/-- A registry `R` beside the rest of the world. -/
abbrev Site (R U : Type) := Traced Target (R × U) (SiteObs R)

abbrev SiteProg (R U α : Type) := Prog Exn (Site R U) α

/-- `propType` is the column type of a property.  `exec` and `refresh` are the part of a call
that can fail for reasons outside the statement. -/
structure DdlEngine (U : Type) where
  propType : SchemaProperty → String
  exec : Ddl → Prog Exn U Unit
  refresh : Prog Exn U Unit

/-- Nothing fails outside the statement. -/
def DdlEngine.obliging : DdlEngine Unit where
  propType _ := "TEXT"
  exec _ := pure ()
  refresh := pure ()

section

variable (engine : DdlEngine U)

def exec (d : Ddl) : SiteProg R U Unit := do
  call (fun _ => .refused d) (second (engine.exec d))
  let db ← read Target.database
  match db.run d with
  | .error e => do
    note (.refused d)
    raise e
  | .ok db => do
    assign fun t => { t with database := db }
    note (.executed d)

/-- After a statement the database is not empty, so that `fail_if_empty` does not matter. -/
def refreshSchema : SiteProg R U Unit := do
  tryExcept (call (fun _ => .refreshFailed) (second engine.refresh))
    fun e => raise (.valueError s!"error building database schema: {e.str}")
  assign fun t => { t with view := t.database.report }

/-- A column that the view has is skipped. -/
def addNewColumnsSql (columns : List String) (schema : Schema) (view : DatabaseSchema) : List Ddl :=
  (columns.filter fun column => !view.hasColumn schema.table column).map fun column =>
    .addColumn schema.table column (engine.propType (schema.property column))

def createViews (schema : Schema) : SiteProg R U Unit := do
  exec engine (.createView (currentName schema.table) schema.columns)
  exec engine (.createView (timelineName schema.table)
    (schema.columns ++ ["_eds_operation", "valid_from", "valid_to"]))

/-- `drop_table` if the view has the table. -/
def dropKnown (table : String) : SiteProg R U Unit := do
  let view ← read Target.view
  if (view table).isSome then exec engine (.dropTable table) else pure ()

def recreate (mode : IngestMode) (schema : Schema) : SiteProg R U Unit :=
  match mode with
  | .append => do
    exec engine (.createHistory schema.table (schema.columns ++ historyColumns))
    createViews engine schema
    refreshSchema engine
  | .upsert => do
    dropKnown engine schema.table
    exec engine (.createTable schema.table schema.columns)
    refreshSchema engine

def migrateNewTable (mode : IngestMode) (schema : Schema) : SiteProg R U Unit := do
  note (.creating schema)
  recreate engine mode schema

def addColumns (schema : Schema) (columns : List String) : SiteProg R U Unit := do
  let view ← read Target.view
  each (exec engine) (addNewColumnsSql engine columns schema view)

def migrateNewColumns (mode : IngestMode) (schema : Schema) (columns : List String) :
    SiteProg R U Unit :=
  match mode with
  | .append => do
    exec engine (.dropView (timelineName schema.table))
    exec engine (.dropView (currentName schema.table))
    addColumns engine schema columns
    createViews engine schema
    refreshSchema engine
  | .upsert => do
    addColumns engine schema columns
    refreshSchema engine

end

/-! ## One statement -/

section Statements

variable {engine : DdlEngine U} {s : Site R U}

theorem second_fst {α : Type} {p : Prog Exn U α} {w w' : R × U} {r : Except Exn α}
    (h : second p w = (r, w')) : w'.1 = w.1 := by
  have hworld : w' = (second p w).2 := (congrArg Prod.snd h).symm
  rw [hworld]
  rfl

theorem exec_spec {d : Ddl} :
    wp (exec engine d : SiteProg R U Unit)
      (fun _ u => ∃ db, s.vars.database.run d = .ok db ∧ u.vars = { s.vars with database := db } ∧
        u.trace = s.trace ++ [.executed d] ∧ u.world.1 = s.world.1)
      (fun _ u => u.vars = s.vars ∧ u.trace = s.trace ++ [.refused d] ∧ u.world.1 = s.world.1) s := by
  rw [exec, wp_bind]
  refine wp_call (fun _ w hw => ?_) (fun e w hw => ⟨rfl, rfl, second_fst hw⟩)
  rw [wp_bind, wp_read, inWorld_vars]
  cases hrun : s.vars.database.run d with
  | error e => exact ⟨rfl, rfl, second_fst hw⟩
  | ok db => exact ⟨db, rfl, rfl, rfl, second_fst hw⟩

theorem refreshSchema_spec :
    wp (refreshSchema engine : SiteProg R U Unit)
      (fun _ u => u.vars = { s.vars with view := s.vars.database.report } ∧ u.trace = s.trace ∧
        u.world.1 = s.world.1)
      (fun _ u => u.vars = s.vars ∧ u.trace = s.trace ++ [.refreshFailed] ∧ u.world.1 = s.world.1) s := by
  rw [refreshSchema, wp_bind]
  refine wp_tryExcept (wp_call (fun _ w hw => ⟨rfl, rfl, second_fst hw⟩) (fun e w hw => ?_))
  exact ⟨fun _ => ⟨rfl, rfl, second_fst hw⟩, fun _ => ⟨rfl, rfl, second_fst hw⟩⟩

end Statements

/-! ## What the statements do to the tables -/

/-- Every column is still there, no table but `table` is touched, and `table` is not created. -/
structure Widens (table : String) (db db' : Database) : Prop where
  other : ∀ name, name ≠ table → db'.tables name = db.tables name
  missing : db.tables table = none → db'.tables table = none
  kept : ∀ columns, db.tables table = some columns →
    ∃ columns', db'.tables table = some columns' ∧ columns ⊆ columns'

section Tables

variable {table : String} {db db' db'' : Database}

theorem Widens.refl (table : String) (db : Database) : Widens table db db :=
  ⟨fun _ _ => rfl, fun h => h, fun columns h => ⟨columns, h, fun _ hc => hc⟩⟩

theorem Widens.trans (h : Widens table db db') (h' : Widens table db' db'') :
    Widens table db db'' where
  other name hname := (h'.other name hname).trans (h.other name hname)
  missing hnone := h'.missing (h.missing hnone)
  kept columns hcolumns := by
    obtain ⟨columns', h₁, hsub⟩ := h.kept columns hcolumns
    obtain ⟨columns'', h₂, hsub'⟩ := h'.kept columns' h₁
    exact ⟨columns'', h₂, fun c hc => hsub' (hsub hc)⟩

theorem widens_of_tables_eq (h : db'.tables = db.tables) : Widens table db db' :=
  ⟨fun name _ => by rw [h], fun hnone => by rw [h, hnone],
    fun columns hcolumns => ⟨columns, by rw [h, hcolumns], fun _ hc => hc⟩⟩

/-- What a statement that is accepted does. -/
def Database.effect (db : Database) : Ddl → Database
  | .dropTable table => db.setTable table none
  | .createTable table columns => db.setTable table (some columns)
  | .createHistory table columns =>
    ((db.setView (timelineName table) none).setView (currentName table) none).setTable table
      (some columns)
  | .addColumn table column _ => db.setTable table ((db.tables table).map (· ++ [column]))
  | .dropView view => db.setView view none
  | .createView view columns => db.setView view (some columns)

theorem run_effect {d : Ddl} (h : db.run d = .ok db') : db' = db.effect d := by
  cases d with
  | addColumn name column type =>
    rw [Database.run] at h
    rw [Database.effect]
    cases hcolumns : db.tables name with
    | none =>
      rw [hcolumns] at h
      cases h
    | some columns =>
      simp only [hcolumns] at h
      split at h
      · cases h
      · exact (Except.ok.inj h).symm
  | _ =>
    rw [Database.run] at h
    split at h
    · cases h
    · exact (Except.ok.inj h).symm

theorem run_addColumn {column type : String} (h : db.run (.addColumn table column type) = .ok db') :
    db'.views = db.views ∧ ∃ columns, db.tables table = some columns ∧
      db'.tables = Function.update db.tables table (some (columns ++ [column])) := by
  rw [Database.run] at h
  split at h
  · cases h
  · next columns hcolumns =>
    split at h
    · cases h
    · cases h
      exact ⟨rfl, columns, hcolumns, rfl⟩

theorem widens_addColumn {column type : String}
    (h : db.run (.addColumn table column type) = .ok db') : Widens table db db' := by
  obtain ⟨_, columns, hcolumns, htables⟩ := run_addColumn h
  refine ⟨fun name hname => by rw [htables, Function.update_of_ne hname], fun hnone => ?_,
    fun columns' h' => ?_⟩
  · rw [hcolumns] at hnone
    cases hnone
  rw [hcolumns] at h'
  cases h'
  refine ⟨columns ++ [column], by rw [htables, Function.update_self], ?_⟩
  exact List.subset_append_left _ _

end Tables

/-- A call that raised. -/
def SiteObs.Failed : SiteObs R → Prop
  | .refused _ | .refreshFailed | .registryFailed => True
  | _ => False

/-- No call has raised so far. -/
def Unfailing (t : List (SiteObs R)) : Prop := ∀ o ∈ t, ¬ o.Failed

theorem Unfailing.left {t es : List (SiteObs R)} (h : Unfailing (t ++ es)) : Unfailing t :=
  fun o ho => h o (List.mem_append_left _ ho)

/-- Statements that add columns to `table` and nothing else. -/
structure Added (table : String) (s u : Site R U) : Prop where
  widens : Widens table s.vars.database u.vars.database
  views : u.vars.database.views = s.vars.database.views
  view : u.vars.view = s.vars.view
  registry : u.world.1 = s.world.1

section Columns

variable {engine : DdlEngine U} {s t u : Site R U} {table : String}

theorem Added.refl (s : Site R U) : Added table s s := ⟨Widens.refl _ _, rfl, rfl, rfl⟩

theorem Added.trans (h : Added table s t) (h' : Added table t u) : Added table s u :=
  ⟨h.widens.trans h'.widens, h'.views.trans h.views, h'.view.trans h.view,
    h'.registry.trans h.registry⟩

/-- The observation of a statement that adds a column to `table`. -/
def IsAddition (table : String) (o : SiteObs R) : Prop :=
  ∃ column type, o = .executed (.addColumn table column type)

theorem execAddColumn_spec {column type : String} :
    wp (exec engine (.addColumn table column type) : SiteProg R U Unit)
      (fun _ u => Added table s u ∧ Adds (IsAddition table) s u ∧
        ∃ columns, u.vars.database.tables table = some columns ∧ column ∈ columns)
      (fun _ u => Added table s u ∧ u.trace = s.trace ++ [.refused (.addColumn table column type)]) s := by
  refine wp_mono exec_spec (fun _ u hu => ?_) (fun _ u hu => ?_)
  · obtain ⟨db, hrun, hvars, htrace, hregistry⟩ := hu
    obtain ⟨hviews, columns, _, htables⟩ := run_addColumn hrun
    refine ⟨⟨?_, ?_, ?_, hregistry⟩, ⟨_, htrace, fun o ho => ?_⟩, columns ++ [column], ?_, ?_⟩
    · rw [hvars]
      exact widens_addColumn hrun
    · rw [hvars]
      exact hviews
    · rw [hvars]
    · rw [List.mem_singleton.mp ho]
      exact ⟨column, type, rfl⟩
    · rw [hvars]
      show db.tables table = _
      rw [htables, Function.update_self]
    · exact List.mem_append_right _ (List.mem_singleton_self _)
  · obtain ⟨hvars, htrace, hregistry⟩ := hu
    refine ⟨⟨?_, ?_, ?_, hregistry⟩, htrace⟩
    · rw [hvars]
      exact Widens.refl _ _
    · rw [hvars]
    · rw [hvars]

theorem addColumns_spec (schema : Schema) (columns : List String) :
    wp (addColumns engine schema columns : SiteProg R U Unit)
      (fun _ u => Added schema.table s u ∧ Adds (IsAddition schema.table) s u ∧
        ∀ column ∈ columns, s.vars.view.hasColumn schema.table column = false →
          ∃ cs, u.vars.database.tables schema.table = some cs ∧ column ∈ cs)
      (fun _ u => Added schema.table s u ∧ ∃ t d, Adds (IsAddition schema.table) s t ∧
        u.trace = t.trace ++ [.refused d]) s := by
  -- By induction on the columns that are left, with what the loop has added so far.
  have hloop : ∀ (rest : List String) (s₁ : Site R U),
      wp (each (exec engine) (rest.map fun column =>
          .addColumn schema.table column (engine.propType (schema.property column))) :
            SiteProg R U Unit)
        (fun _ u => Added schema.table s₁ u ∧ Adds (IsAddition schema.table) s₁ u ∧
          ∀ column ∈ rest, ∃ cs, u.vars.database.tables schema.table = some cs ∧ column ∈ cs)
        (fun _ u => Added schema.table s₁ u ∧ ∃ t d, Adds (IsAddition schema.table) s₁ t ∧
          u.trace = t.trace ++ [.refused d]) s₁ := by
    intro rest
    induction rest with
    | nil => exact fun s₁ => ⟨Added.refl s₁, Adds.refl s₁, fun _ h => absurd h List.not_mem_nil⟩
    | cons column rest ih =>
      intro s₁
      rw [List.map_cons, each, wp_bind]
      refine wp_mono execAddColumn_spec (fun _ t ht => ?_) (fun _ t ht => ?_)
      · obtain ⟨hadded, hadds, cs, hcs, hmem⟩ := ht
        refine wp_mono (ih t) (fun _ u hu => ?_) (fun _ u hu => ?_)
        · refine ⟨hadded.trans hu.1, hadds.trans hu.2.1, fun c hc => ?_⟩
          rcases List.mem_cons.mp hc with rfl | hc
          · obtain ⟨cs', hcs', hsub⟩ := hu.1.widens.kept cs hcs
            exact ⟨cs', hcs', hsub hmem⟩
          · exact hu.2.2 c hc
        · obtain ⟨hadded', v, d, hadds', htrace⟩ := hu
          exact ⟨hadded.trans hadded', v, d, hadds.trans hadds', htrace⟩
      · exact ⟨ht.1, s₁, _, Adds.refl s₁, ht.2⟩
  rw [addColumns, wp_bind, wp_read]
  refine wp_post (hloop _ s) fun _ u hu => ⟨hu.1, hu.2.1, fun column hcolumn hnew => ?_⟩
  refine hu.2.2 column (List.mem_filter.mpr ⟨hcolumn, ?_⟩)
  rw [hnew]
  rfl

end Columns

/-! ## The frame of a migration -/

/-- The base table that a statement drops or creates. -/
def Ddl.recreates : Ddl → Option String
  | .dropTable table | .createTable table _ | .createHistory table _ => some table
  | .addColumn _ _ _ | .dropView _ | .createView _ _ => none

/-- The statements of a migration of `table`. -/
def Ddl.Local (mode : IngestMode) (table : String) : Ddl → Prop
  | .dropTable name | .createTable name _ | .addColumn name _ _ => name = table
  | .createHistory name _ => mode = .append ∧ name = table
  | .dropView view | .createView view _ =>
    mode = .append ∧ (view = currentName table ∨ view = timelineName table)

section Statements

variable {engine : DdlEngine U} {mode : IngestMode} {schema : Schema}
  {Rel : Site R U → Site R U → Prop}

theorem createViews_within (htrans : ∀ {s t u}, Rel s t → Rel t u → Rel s u)
    (hexec : ∀ d : Ddl, d.Local .append schema.table → d.recreates = none →
      Within Rel (exec engine d : SiteProg R U Unit)) :
    Within Rel (createViews engine schema : SiteProg R U Unit) := by
  refine Within.bind (hexec _ ?_ rfl) (fun _ => hexec _ ?_ rfl) htrans
  · exact ⟨rfl, Or.inl rfl⟩
  · exact ⟨rfl, Or.inr rfl⟩

theorem addColumns_within (hrefl : ∀ s, Rel s s) (htrans : ∀ {s t u}, Rel s t → Rel t u → Rel s u)
    (hexec : ∀ d : Ddl, d.Local mode schema.table → d.recreates = none →
      Within Rel (exec engine d : SiteProg R U Unit)) (columns : List String) :
    Within Rel (addColumns engine schema columns : SiteProg R U Unit) := by
  refine Within.bind (fun s => hrefl s) (fun view => ?_) htrans
  have hall : ∀ d ∈ addNewColumnsSql engine columns schema view,
      d.Local mode schema.table ∧ d.recreates = none := by
    intro d hd
    obtain ⟨column, _, rfl⟩ := List.mem_map.mp hd
    exact ⟨rfl, rfl⟩
  generalize addNewColumnsSql engine columns schema view = stmts at hall
  induction stmts with
  | nil => exact within_pure hrefl ()
  | cons d rest ih =>
    obtain ⟨hlocal, hkeeps⟩ := hall d List.mem_cons_self
    refine (hexec d hlocal hkeeps).bind (fun _ => ?_) htrans
    exact ih fun d' hd' => hall d' (List.mem_cons_of_mem _ hd')

/-- The rule for `migrate_new_columns`: all its statements are about its table, and none of them
creates or drops one. -/
theorem migrateNewColumns_within (hrefl : ∀ s, Rel s s)
    (htrans : ∀ {s t u}, Rel s t → Rel t u → Rel s u)
    (hexec : ∀ d : Ddl, d.Local mode schema.table → d.recreates = none →
      Within Rel (exec engine d : SiteProg R U Unit))
    (hrefresh : Within Rel (refreshSchema engine : SiteProg R U Unit)) (columns : List String) :
    Within Rel (migrateNewColumns engine mode schema columns : SiteProg R U Unit) := by
  have hadd : Within Rel (addColumns engine schema columns : SiteProg R U Unit) :=
    addColumns_within hrefl htrans hexec columns
  cases mode with
  | append =>
    have hviews : Within Rel (createViews engine schema : SiteProg R U Unit) :=
      createViews_within htrans hexec
    refine Within.bind (hexec _ ?_ rfl) (fun _ => Within.bind (hexec _ ?_ rfl) (fun _ => ?_) htrans)
      htrans
    · exact ⟨rfl, Or.inr rfl⟩
    · exact ⟨rfl, Or.inl rfl⟩
    · exact hadd.bind (fun _ => hviews.bind (fun _ => hrefresh) htrans) htrans
  | upsert => exact hadd.bind (fun _ => hrefresh) htrans

end Statements

/-- What a migration of `table` shows in the trace. -/
def SiteObs.About (mode : IngestMode) (table : String) : SiteObs R → Prop
  | .creating schema => schema.table = table
  | .executed d | .refused d => d.Local mode table
  | .refreshFailed => True
  | .registryFailed | .used _ _ _ _ => False

/-- Other tables and the registry are as before, and so are the views, but for the two that
append mode keeps for the table. -/
structure Touches (mode : IngestMode) (table : String) (s u : Site R U) : Prop where
  tables : ∀ name, name ≠ table → u.vars.database.tables name = s.vars.database.tables name
  views : ∀ name, (mode = .append → name ≠ currentName table ∧ name ≠ timelineName table) →
    u.vars.database.views name = s.vars.database.views name
  registry : u.world.1 = s.world.1
  trace : Adds (SiteObs.About mode table) s u

section Frame

variable {engine : DdlEngine U} {mode : IngestMode} {table : String} {s t u : Site R U} {α β : Type}

theorem Touches.refl (s : Site R U) : Touches mode table s s :=
  ⟨fun _ _ => rfl, fun _ _ => rfl, rfl, Adds.refl s⟩

theorem Touches.trans (h : Touches mode table s t) (h' : Touches mode table t u) :
    Touches mode table s u where
  tables name hname := (h'.tables name hname).trans (h.tables name hname)
  views name hname := (h'.views name hname).trans (h.views name hname)
  registry := h'.registry.trans h.registry
  trace := h.trace.trans h'.trace

theorem run_touches {d : Ddl} {db db' : Database} (hd : d.Local mode table) (h : db.run d = .ok db') :
    (∀ name, name ≠ table → db'.tables name = db.tables name) ∧
      ∀ name, (mode = .append → name ≠ currentName table ∧ name ≠ timelineName table) →
        db'.views name = db.views name := by
  rw [run_effect h]
  cases d with
  | dropTable name => exact ⟨fun name' hne => Function.update_of_ne (hd ▸ hne) .., fun _ _ => rfl⟩
  | createTable name columns =>
    exact ⟨fun name' hne => Function.update_of_ne (hd ▸ hne) .., fun _ _ => rfl⟩
  | createHistory name columns =>
    obtain ⟨hmode, rfl⟩ := hd
    refine ⟨fun name' hne => Function.update_of_ne hne .., fun name' hview => ?_⟩
    obtain ⟨hcurrent, htimeline⟩ := hview hmode
    exact (Function.update_of_ne hcurrent ..).trans (Function.update_of_ne htimeline ..)
  | addColumn name column type =>
    exact ⟨fun name' hne => Function.update_of_ne (hd ▸ hne) .., fun _ _ => rfl⟩
  | dropView view =>
    refine ⟨fun _ _ => rfl, fun name hview => Function.update_of_ne ?_ ..⟩
    rcases hd.2 with rfl | rfl
    · exact (hview hd.1).1
    · exact (hview hd.1).2
  | createView view columns =>
    refine ⟨fun _ _ => rfl, fun name hview => Function.update_of_ne ?_ ..⟩
    rcases hd.2 with rfl | rfl
    · exact (hview hd.1).1
    · exact (hview hd.1).2

theorem exec_touches {d : Ddl} (hd : d.Local mode table) :
    Within (Touches mode table) (exec engine d : SiteProg R U Unit) := by
  intro s
  refine wp_state (wp_mono exec_spec (fun _ u hu => ?_) (fun _ u hu => ?_))
  · obtain ⟨db, hrun, hvars, htrace, hregistry⟩ := hu
    obtain ⟨htables, hviews⟩ := run_touches hd hrun
    refine ⟨?_, ?_, hregistry, Adds.one htrace hd⟩
    · rw [hvars]
      exact htables
    · rw [hvars]
      exact hviews
  · obtain ⟨hvars, htrace, hregistry⟩ := hu
    exact ⟨fun _ _ => by rw [hvars], fun _ _ => by rw [hvars], hregistry, Adds.one htrace hd⟩

theorem refreshSchema_touches :
    Within (Touches mode table) (refreshSchema engine : SiteProg R U Unit) := by
  intro s
  refine wp_state (wp_mono refreshSchema_spec (fun _ u hu => ?_) (fun _ u hu => ?_))
  · obtain ⟨hvars, htrace, hregistry⟩ := hu
    exact ⟨fun _ _ => by rw [hvars], fun _ _ => by rw [hvars], hregistry, Adds.nothing htrace⟩
  · obtain ⟨hvars, htrace, hregistry⟩ := hu
    exact ⟨fun _ _ => by rw [hvars], fun _ _ => by rw [hvars], hregistry, Adds.one htrace trivial⟩

theorem creating_touches {schema : Schema} :
    Within (Touches mode schema.table) (note (.creating schema) : SiteProg R U Unit) :=
  fun _ => ⟨fun _ _ => rfl, fun _ _ => rfl, rfl, Adds.one rfl rfl⟩

theorem recreate_touches {schema : Schema} :
    Within (Touches mode schema.table) (recreate engine mode schema : SiteProg R U Unit) := by
  cases mode with
  | append =>
    refine Within.bind (exec_touches ?_) (fun _ => ?_) Touches.trans
    · exact ⟨rfl, rfl⟩
    · have hviews : Within (Touches .append schema.table)
          (createViews engine schema : SiteProg R U Unit) :=
        createViews_within Touches.trans fun _ hd _ => exec_touches hd
      exact hviews.bind (fun _ => refreshSchema_touches) Touches.trans
  | upsert =>
    have hdrop : Within (Touches .upsert schema.table)
        (dropKnown engine schema.table : SiteProg R U Unit) := by
      refine Within.bind (fun s => Touches.refl s) (fun view => ?_) Touches.trans
      split
      · exact exec_touches rfl
      · exact within_pure Touches.refl ()
    refine hdrop.bind (fun _ => ?_) Touches.trans
    refine Within.bind (exec_touches ?_) (fun _ => refreshSchema_touches) Touches.trans
    rfl

theorem migrateNewTable_touches {schema : Schema} :
    Within (Touches mode schema.table) (migrateNewTable engine mode schema : SiteProg R U Unit) :=
  creating_touches.bind (fun _ => recreate_touches) Touches.trans

theorem migrateNewColumns_touches {schema : Schema} {columns : List String} :
    Within (Touches mode schema.table)
      (migrateNewColumns engine mode schema columns : SiteProg R U Unit) :=
  migrateNewColumns_within Touches.refl Touches.trans (fun _ hd _ => exec_touches hd)
    refreshSchema_touches columns

end Frame

/-! ## Failures are recorded -/

/-- What raises leaves a failure in the trace, and what returns leaves none. -/
def Honest {α : Type} (p : SiteProg R U α) : Prop :=
  ∀ s, wp p (fun _ u => Adds (fun o => ¬ o.Failed) s u)
    (fun _ u => ∃ es, u.trace = s.trace ++ es ∧ ∃ o ∈ es, o.Failed) s

section Failures

variable {engine : DdlEngine U} {mode : IngestMode} {α β : Type}

theorem honest_pure (a : α) : Honest (pure a : SiteProg R U α) := fun s => Adds.refl s

theorem honest_read (f : Target → α) : Honest (read f : SiteProg R U α) := fun s => Adds.refl s

theorem Honest.bind {p : SiteProg R U α} {f : α → SiteProg R U β} (hp : Honest p)
    (hf : ∀ a, Honest (f a)) : Honest (p >>= f) := by
  intro s
  rw [wp_bind]
  refine wp_post (hp s) fun a t ht => ?_
  obtain ⟨es, hes, hclean⟩ := ht
  refine wp_mono (hf a t) (fun _ u hu => Adds.trans ⟨es, hes, hclean⟩ hu) (fun _ u hu => ?_)
  obtain ⟨es', hes', o, ho, hfailed⟩ := hu
  refine ⟨es ++ es', ?_, o, List.mem_append_right _ ho, hfailed⟩
  rw [hes', hes, List.append_assoc]

theorem honest_each {f : α → SiteProg R U Unit} (hf : ∀ a, Honest (f a)) (l : List α) :
    Honest (each f l) := by
  induction l with
  | nil => exact honest_pure ()
  | cons a rest ih => exact (hf a).bind fun _ => ih

theorem honest_exec (d : Ddl) : Honest (exec engine d : SiteProg R U Unit) := by
  intro s
  refine wp_mono exec_spec (fun _ u hu => ?_) (fun _ u hu => ?_)
  · obtain ⟨_, _, _, htrace, _⟩ := hu
    exact Adds.one htrace fun h => h
  · exact ⟨_, hu.2.1, _, List.mem_singleton_self _, trivial⟩

theorem honest_refreshSchema : Honest (refreshSchema engine : SiteProg R U Unit) := by
  intro s
  refine wp_mono refreshSchema_spec (fun _ u hu => ?_) (fun _ u hu => ?_)
  · exact Adds.nothing hu.2.1
  · exact ⟨_, hu.2.1, _, List.mem_singleton_self _, trivial⟩

theorem honest_createViews (schema : Schema) :
    Honest (createViews engine schema : SiteProg R U Unit) :=
  (honest_exec _).bind fun _ => honest_exec _

theorem honest_addColumns (schema : Schema) (columns : List String) :
    Honest (addColumns engine schema columns : SiteProg R U Unit) :=
  (honest_read _).bind fun _ => honest_each honest_exec _

theorem honest_dropKnown (table : String) :
    Honest (dropKnown engine table : SiteProg R U Unit) := by
  refine (honest_read _).bind fun view => ?_
  split
  · exact honest_exec _
  · exact honest_pure ()

theorem honest_migrateNewTable (schema : Schema) :
    Honest (migrateNewTable engine mode schema : SiteProg R U Unit) := by
  have hnote : Honest (note (.creating schema) : SiteProg R U Unit) :=
    fun s => Adds.one rfl fun h => h
  refine hnote.bind fun _ => ?_
  cases mode with
  | append =>
    exact (honest_exec _).bind fun _ => (honest_createViews _).bind fun _ => honest_refreshSchema
  | upsert =>
    exact (honest_dropKnown _).bind fun _ => (honest_exec _).bind fun _ => honest_refreshSchema

theorem honest_migrateNewColumns (schema : Schema) (columns : List String) :
    Honest (migrateNewColumns engine mode schema columns : SiteProg R U Unit) := by
  cases mode with
  | append =>
    refine (honest_exec _).bind fun _ => (honest_exec _).bind fun _ => ?_
    exact (honest_addColumns _ _).bind fun _ => (honest_createViews _).bind fun _ =>
      honest_refreshSchema
  | upsert => exact (honest_addColumns _ _).bind fun _ => honest_refreshSchema

end Failures

/-! ## What a migration is for -/

/-- The base table is there with these columns, and perhaps others. -/
def Database.HasColumns (db : Database) (table : String) (columns : List String) : Prop :=
  ∃ all, db.tables table = some all ∧ columns ⊆ all

/-- The driver's view is what the database reports. -/
def Target.Fresh (t : Target) : Prop := t.view = t.database.report

section Purpose

variable {engine : DdlEngine U} {mode : IngestMode} {schema : Schema} {s : Site R U}

theorem Widens.hasColumns {table name : String} {columns : List String} {db db' : Database}
    (h : Widens table db db') (hcolumns : db.HasColumns name columns) :
    db'.HasColumns name columns := by
  obtain ⟨all, hall, hsub⟩ := hcolumns
  by_cases hname : name = table
  · subst hname
    obtain ⟨all', hall', hkept⟩ := h.kept all hall
    exact ⟨all', hall', fun c hc => hkept (hsub hc)⟩
  · exact ⟨all, (h.other name hname).trans hall, hsub⟩

theorem mem_or_mem_missing {columns existing : List String} {c : String} (hc : c ∈ columns) :
    c ∈ existing ∨ c ∈ columns.filter fun c => !existing.contains c := by
  by_cases hmem : c ∈ existing
  · exact Or.inl hmem
  · exact Or.inr (List.mem_filter.mpr ⟨hc, by simpa using hmem⟩)

/-- A base table hides a view of the same name. -/
theorem hasColumn_report {db : Database} {table column : String} {all : List String}
    (h : db.tables table = some all) :
    DatabaseSchema.hasColumn db.report table column = all.contains column := by
  have hreport : db.report table = some all := by rw [Database.report, h, Option.some_or]
  rw [DatabaseSchema.hasColumn, hreport]

theorem run_views {d : Ddl} {db db' : Database} (h : db.run d = .ok db')
    (hd : (∃ view, d = .dropView view) ∨ ∃ view columns, d = .createView view columns) :
    db'.tables = db.tables := by
  rw [run_effect h]
  obtain ⟨view, rfl⟩ | ⟨view, columns, rfl⟩ := hd
  · rfl
  · rfl

/-- Neither the tables nor the view of the driver has changed. -/
def SameTables (s u : Site R U) : Prop :=
  u.vars.database.tables = s.vars.database.tables ∧ u.vars.view = s.vars.view

theorem SameTables.trans {s t u : Site R U} (h : SameTables s t) (h' : SameTables t u) :
    SameTables s u := ⟨h'.1.trans h.1, h'.2.trans h.2⟩

theorem exec_views {d : Ddl}
    (hd : (∃ view, d = .dropView view) ∨ ∃ view columns, d = .createView view columns) :
    Within SameTables (exec engine d : SiteProg R U Unit) := by
  intro s
  refine wp_state (I := SameTables s) (wp_mono exec_spec (fun _ u hu => ?_) (fun _ u hu => ?_))
  · obtain ⟨db, hrun, hvars, _, _⟩ := hu
    rw [SameTables, hvars]
    exact ⟨run_views hrun hd, rfl⟩
  · rw [SameTables, hu.1]
    exact ⟨rfl, rfl⟩

theorem createViews_tables :
    Within SameTables (createViews engine schema : SiteProg R U Unit) :=
  (exec_views (Or.inr ⟨_, _, rfl⟩)).bind (fun _ => exec_views (Or.inr ⟨_, _, rfl⟩)) SameTables.trans

theorem refreshSchema_fresh :
    wp (refreshSchema engine : SiteProg R U Unit)
      (fun _ u => u.vars.Fresh ∧ u.vars.database = s.vars.database)
      (fun _ u => u.vars.database = s.vars.database) s := by
  refine wp_mono refreshSchema_spec (fun _ u hu => ?_) (fun _ u hu => ?_)
  · rw [Target.Fresh, hu.1]
    exact ⟨rfl, rfl⟩
  · rw [hu.1]

/-- A statement that creates a table. -/
theorem exec_creates {d : Ddl} {table : String} {columns : List String}
    (hd : d = .createTable table columns ∨ d = .createHistory table columns) :
    wp (exec engine d : SiteProg R U Unit)
      (fun _ u => u.vars.database.tables table = some columns) (fun _ _ => True) s := by
  refine wp_mono exec_spec (fun _ u hu => ?_) (fun _ _ _ => trivial)
  obtain ⟨db, hrun, hvars, _, _⟩ := hu
  rw [hvars]
  show db.tables table = some columns
  rw [run_effect hrun]
  obtain rfl | rfl := hd
  · exact Function.update_self ..
  · exact Function.update_self ..

theorem migrateNewTable_makes :
    wp (migrateNewTable engine mode schema : SiteProg R U Unit)
      (fun _ u => u.vars.Fresh ∧ u.vars.database.HasColumns schema.table schema.columns)
      (fun _ _ => True) s := by
  rw [migrateNewTable, wp_bind, wp_note]
  cases mode with
  | append =>
    rw [recreate, wp_bind]
    refine wp_mono (exec_creates (Or.inr rfl)) (fun _ t ht => ?_) (fun _ _ _ => trivial)
    rw [wp_bind]
    refine wp_mono (createViews_tables.wp t) (fun _ u hu => ?_) (fun _ _ _ => trivial)
    refine wp_mono refreshSchema_fresh (fun _ v hv => ⟨hv.1, ?_⟩) (fun _ _ _ => trivial)
    refine ⟨schema.columns ++ historyColumns, ?_, List.subset_append_left _ _⟩
    rw [hv.2, hu.1, ht]
  | upsert =>
    rw [recreate, wp_bind]
    refine wp_any (fun _ t => ?_) (fun _ _ => trivial)
    rw [wp_bind]
    refine wp_mono (exec_creates (Or.inl rfl)) (fun _ t ht => ?_) (fun _ _ _ => trivial)
    refine wp_mono refreshSchema_fresh (fun _ v hv => ⟨hv.1, ?_⟩) (fun _ _ _ => trivial)
    refine ⟨schema.columns, ?_, List.Subset.refl _⟩
    rw [hv.2, ht]

theorem migrateNewTable_announces :
    Within (fun s u => ∃ es, u.trace = s.trace ++ .creating schema :: es)
      (migrateNewTable engine mode schema : SiteProg R U Unit) := by
  intro s
  have htouch : Touches mode schema.table (s.push (.creating schema))
    (recreate engine mode schema (s.push (.creating schema))).2 := recreate_touches _
  obtain ⟨es, hes, _⟩ := htouch.trace
  refine ⟨es, ?_⟩
  show (recreate engine mode schema (s.push (.creating schema))).2.trace = _
  rw [hes, push_trace, List.append_assoc, List.singleton_append]

theorem migrateNewColumns_widens {columns : List String} :
    Within (fun s u => Widens schema.table s.vars.database u.vars.database)
      (migrateNewColumns engine mode schema columns : SiteProg R U Unit) := by
  have hexec : ∀ d : Ddl, d.Local mode schema.table → d.recreates = none →
      Within (fun s u => Widens schema.table s.vars.database u.vars.database)
        (exec engine d : SiteProg R U Unit) := by
    intro d hlocal hkeeps s
    cases d with
    | addColumn name column type =>
      rw [← (hlocal : name = schema.table)]
      exact wp_state (wp_mono execAddColumn_spec (fun _ _ hu => hu.1.widens)
        (fun _ _ hu => hu.1.widens))
    | dropView view => exact widens_of_tables_eq (exec_views (Or.inl ⟨view, rfl⟩) s).1
    | createView view cols => exact widens_of_tables_eq (exec_views (Or.inr ⟨view, cols, rfl⟩) s).1
    | _ => cases hkeeps
  have hrefresh : Within (fun s u => Widens schema.table s.vars.database u.vars.database)
      (refreshSchema engine : SiteProg R U Unit) := by
    intro s
    refine wp_state (I := fun u : Site R U => Widens schema.table s.vars.database u.vars.database)
      (wp_mono refreshSchema_fresh (fun _ u hu => ?_) (fun _ u hu => ?_))
    · exact widens_of_tables_eq (by rw [hu.2])
    · exact widens_of_tables_eq (by rw [hu])
  intro s
  refine migrateNewColumns_within (fun _ => Widens.refl _ _) ?_ hexec hrefresh columns s
  intro t u v
  exact Widens.trans

/-- When the view is not stale, the columns are in the table afterwards. -/
theorem migrateNewColumns_makes {columns : List String} {all : List String}
    (hall : s.vars.database.tables schema.table = some all) (hfresh : s.vars.Fresh) :
    wp (migrateNewColumns engine mode schema columns : SiteProg R U Unit)
      (fun _ u => u.vars.Fresh ∧ u.vars.database.HasColumns schema.table (all ++ columns))
      (fun _ _ => True) s := by
  -- The columns that the view has are those of the table, and the others are added.
  have hadd : ∀ t : Site R U, t.vars.database.tables = s.vars.database.tables →
      t.vars.view = s.vars.view →
      wp (addColumns engine schema columns : SiteProg R U Unit)
        (fun _ u => u.vars.database.HasColumns schema.table (all ++ columns))
        (fun _ _ => True) t := by
    intro t htables hview
    refine wp_mono (addColumns_spec schema columns) (fun _ u hu => ?_) (fun _ _ _ => trivial)
    have hold : t.vars.database.tables schema.table = some all := by rw [htables, hall]
    obtain ⟨all', hall', hsub⟩ := hu.1.widens.kept all hold
    refine ⟨all', hall', fun c hc => ?_⟩
    rcases List.mem_append.mp hc with hc | hc
    · exact hsub hc
    · by_cases hmem : c ∈ all
      · exact hsub hmem
      · have hnew : t.vars.view.hasColumn schema.table c = false := by
          rw [hview, hfresh, hasColumn_report hall]
          simpa using hmem
        obtain ⟨cs, hcs, hc'⟩ := hu.2.2 c hc hnew
        rw [hall'] at hcs
        rw [Option.some.inj hcs]
        exact hc'
  cases mode with
  | append =>
    rw [migrateNewColumns, wp_bind]
    refine wp_mono ((exec_views (Or.inl ⟨_, rfl⟩)).wp s) (fun _ t ht => ?_) (fun _ _ _ => trivial)
    rw [wp_bind]
    refine wp_mono ((exec_views (Or.inl ⟨_, rfl⟩)).wp t) (fun _ t' ht' => ?_) (fun _ _ _ => trivial)
    have hsame := ht.trans ht'
    rw [wp_bind]
    refine wp_mono (hadd t' hsame.1 hsame.2) (fun _ u hu => ?_) (fun _ _ _ => trivial)
    obtain ⟨all', hall', hsub⟩ := hu
    rw [wp_bind]
    refine wp_mono (createViews_tables.wp u) (fun _ v hv => ?_) (fun _ _ _ => trivial)
    refine wp_mono refreshSchema_fresh (fun _ x hx => ⟨hx.1, all', ?_, hsub⟩) (fun _ _ _ => trivial)
    rw [hx.2, hv.1, hall']
  | upsert =>
    rw [migrateNewColumns, wp_bind]
    refine wp_mono (hadd s rfl rfl) (fun _ t ht => ?_) (fun _ _ _ => trivial)
    refine wp_mono refreshSchema_fresh (fun _ u hu => ⟨hu.1, ?_⟩) (fun _ _ _ => trivial)
    rw [hu.2]
    exact ht

/-- A view has no columns added to it. -/
theorem addColumns_missing {columns : List String} {column : String}
    (hnone : s.vars.database.tables schema.table = none) (hcolumn : column ∈ columns)
    (hnew : s.vars.view.hasColumn schema.table column = false) :
    wp (addColumns engine schema columns : SiteProg R U Unit) (fun _ _ => False) (fun _ _ => True) s := by
  refine wp_mono (addColumns_spec schema columns) (fun _ u hu => ?_) (fun _ _ _ => trivial)
  obtain ⟨hadded, _, hmade⟩ := hu
  obtain ⟨cs, hcs, _⟩ := hmade column hcolumn hnew
  rw [hadded.widens.missing hnone] at hcs
  cases hcs

/-- The columns that the view lacks are added to the table, if there is one. -/
theorem migrateNewColumns_completes {columns old : List String} {column : String}
    (hfresh : s.vars.Fresh) (hold : s.vars.view schema.table = some old) (hcolumn : column ∈ columns)
    (hnew : column ∉ old) :
    wp (migrateNewColumns engine mode schema columns : SiteProg R U Unit)
      (fun _ u => u.vars.Fresh ∧ u.vars.database.HasColumns schema.table (old ++ columns))
      (fun _ _ => True) s := by
  cases htables : s.vars.database.tables schema.table with
  | some all =>
    have hreport : s.vars.view schema.table = some all := by
      rw [hfresh, Database.report, htables, Option.some_or]
    rw [hold] at hreport
    rw [Option.some.inj hreport]
    exact migrateNewColumns_makes htables hfresh
  | none =>
    have hlacks : s.vars.view.hasColumn schema.table column = false := by
      rw [DatabaseSchema.hasColumn, hold]
      simpa using hnew
    cases mode with
    | append =>
      rw [migrateNewColumns, wp_bind]
      refine wp_mono ((exec_views (Or.inl ⟨_, rfl⟩)).wp s) (fun _ t ht => ?_) (fun _ _ _ => trivial)
      rw [wp_bind]
      refine wp_mono ((exec_views (Or.inl ⟨_, rfl⟩)).wp t) (fun _ u hu => ?_) (fun _ _ _ => trivial)
      have hsame := ht.trans hu
      rw [wp_bind]
      refine wp_mono (addColumns_missing (by rw [hsame.1, htables]) hcolumn (by rw [hsame.2, hlacks]))
        (fun _ _ h => h.elim) (fun _ _ _ => trivial)
    | upsert =>
      rw [migrateNewColumns, wp_bind]
      exact wp_mono (addColumns_missing htables hcolumn hlacks) (fun _ _ h => h.elim)
        (fun _ _ _ => trivial)

/-- Only `migrate_new_table` drops or creates a table. -/
theorem migrateNewColumns_recreates {columns : List String} :
    Within (Adds fun o => ∀ d, o = .executed d → d.recreates = none)
      (migrateNewColumns engine mode schema columns : SiteProg R U Unit) := by
  have hexec : ∀ d : Ddl, d.recreates = none →
      Within (Adds fun o => ∀ d, o = .executed d → d.recreates = none)
        (exec engine d : SiteProg R U Unit) := by
    intro d hd s
    refine wp_state (I := Adds (fun o => ∀ d, o = .executed d → d.recreates = none) s)
      (wp_mono exec_spec (fun _ u hu => ?_) (fun _ u hu => ?_))
    · obtain ⟨_, _, _, htrace, _⟩ := hu
      refine Adds.one htrace fun d' hd' => ?_
      rw [← SiteObs.executed.inj hd']
      exact hd
    · exact Adds.one hu.2.1 nofun
  have hrefresh : Within (Adds fun o => ∀ d, o = .executed d → d.recreates = none)
      (refreshSchema engine : SiteProg R U Unit) := by
    intro s
    refine wp_state (I := Adds (fun o => ∀ d, o = .executed d → d.recreates = none) s)
      (wp_mono refreshSchema_spec (fun _ u hu => ?_) (fun _ u hu => ?_))
    · exact Adds.nothing hu.2.1
    · exact Adds.one hu.2.1 nofun
  exact migrateNewColumns_within Adds.refl Adds.trans (fun d _ hd => hexec d hd) hrefresh columns

end Purpose

end Drivers
end Eds
