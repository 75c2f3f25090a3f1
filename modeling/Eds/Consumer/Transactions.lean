import Eds.Consumer.Lifecycle
import Eds.Consumer.Frames
import Eds.Drivers.SqlBase

/-!
# The database behind a SQL driver

The database is a parameter.  `Transacts` says that only a transaction changes its table,
that a transaction runs all of its statements or none, whether the call returns or
raises, and which text the driver makes of an event.  The other calls of the processor
leave a part of the world alone if each method of its environment does (`Aside.spares`).
-/

namespace Eds
namespace Consumer

open Effects Effects.Prog Effects.Traced Drivers Drivers.SqlDriverBase

variable {D M W S T : Type}

/-! ## Calls that leave a part of the world alone -/

def Env.withoutFlush (env : Env W M) : Env W M := { env with flush := pure () }

/-- Every call but the two of the driver moves the world along `R`. -/
structure Env.Spares (env : Env W M) (R : W → W → Prop) : Prop where
  calls : env.withoutFlush.Keeps R
  migrateNewTable : ∀ schema, Within R (env.migrateNewTable schema)
  migrateNewColumns : ∀ schema columns, Within R (env.migrateNewColumns schema columns)
  getTableVersion : ∀ table, Within R (env.getTableVersion table)
  getSchema : ∀ table version, Within R (env.getSchema table version)
  setTableVersion : ∀ table version, Within R (env.setTableVersion table version)

section Spares

variable {R : W → W → Prop} {cfg : Config} {env : Env W M}

theorem handlePossibleMigration_spares (h : env.Spares R) (evt : DBChangeEvent) :
    Within R (handlePossibleMigration env evt) := by
  have hpure : ∀ {α : Type} (a : α), Within R (pure a : Prog Exn W α) := within_pure h.calls.refl
  refine (h.getTableVersion _).bind (fun found => ?_) h.calls.trans
  show Within R (if _ then _ else _)
  split
  · exact hpure _
  · refine (h.getSchema _ _).bind (fun newschema => ?_) h.calls.trans
    split
    · refine (h.migrateNewTable _).bind (fun _ => ?_) h.calls.trans
      exact (h.setTableVersion _ _).bind (fun _ => hpure _) h.calls.trans
    · refine (h.getSchema _ _).bind (fun oldschema => ?_) h.calls.trans
      show Within R (if _ then _ else _)
      split
      · exact hpure _
      · refine (h.migrateNewColumns _ _).bind (fun _ => ?_) h.calls.trans
        split
        · exact within_raise h.calls.refl _
        · exact (h.setTableVersion _ _).bind (fun _ => hpure _) h.calls.trans

theorem conform_spares (h : env.Spares R) (evt : DBChangeEvent) : Within R (conform env evt) := by
  refine (h.getSchema _ _).bind (fun schema => ?_) h.calls.trans
  split
  · exact within_pure h.calls.refl _
  · show Within R (if _ then _ else _)
    split
    · exact within_pure h.calls.refl _
    · exact within_pure h.calls.refl _

theorem Aside.spares (henv : env.Spares R) {w w' : W} (h : Aside cfg env w w') : R w w' := by
  cases h with
  | clock => exact henv.calls.clock w
  | metadata m => exact henv.calls.metadata m w
  | ack m => exact henv.calls.ack m w
  | nak m => exact henv.calls.nak m w
  | fromMessage m seq => exact henv.calls.fromMessage m seq w
  | shouldSkip evt =>
    have hskip : Within R (Consumer.shouldSkip cfg env.withoutFlush evt) := shouldSkip_keeps henv.calls evt
    exact hskip w
  | migration evt => exact handlePossibleMigration_spares henv evt w
  | conform evt => exact conform_spares henv evt w

end Spares

/-! ## The database -/

def Untouched (table : D → T) (d d' : D) : Prop := table d' = table d

theorem Untouched.refl {table : D → T} (d : D) : Untouched table d d := rfl

theorem Untouched.trans {table : D → T} {d d' d'' : D} (h : Untouched table d d')
    (h' : Untouched table d' d'') : Untouched table d d'' := Eq.trans h' h

/-- `build` is the statement that the driver makes of an event, `render` its text and
`exec` what the database does with it. -/
structure Transacts (hooks : SqlHooks D) (table : D → T) (build : DBChangeEvent → Except Exn S)
    (render : S → String) (exec : T → S → T) (known : DBChangeEvent → Prop) : Prop where
  getTableVersion : ∀ name, Within (Untouched table) (hooks.getTableVersion name)
  getSchema : ∀ name version, Within (Untouched table) (hooks.getSchema name version)
  toSql : ∀ evt schema, Within (Untouched table) (hooks.toSql evt schema)
  onFlushed : ∀ count, Within (Untouched table) (hooks.onFlushed count)
  builds : ∀ evt version, known evt → Returns (hooks.getSchema evt.table version) fun schema =>
    Returns (hooks.toSql evt schema) fun text => ∃ s, build evt = .ok s ∧ text = render s
  transaction : ∀ (stmts : List S) (d : D), (∀ s ∈ stmts, ∃ evt, known evt ∧ build evt = .ok s) →
    wp (hooks.executeInTransaction (String.join (stmts.map render)))
      (fun _ d' => table d' = stmts.foldl exec (table d))
      (fun _ d' => table d' = table d ∨ table d' = stmts.foldl exec (table d)) d

section Driver

variable {hooks : SqlHooks D} {table : D → T} {build : DBChangeEvent → Except Exn S}
  {render : S → String} {exec : T → S → T} {known : DBChangeEvent → Prop} {w : SqlWorld D}

/-- The driver's variables and the table are as before. -/
def Still (table : D → T) (w w' : SqlWorld D) : Prop :=
  w'.vars = w.vars ∧ table w'.world = table w.world

theorem Still.refl (w : SqlWorld D) : Still table w w := ⟨rfl, rfl⟩

theorem Still.trans {w w' w'' : SqlWorld D} (h : Still table w w') (h' : Still table w' w'') :
    Still table w w'' := ⟨h'.1.trans h.1, h'.2.trans h.2⟩

theorem still_outside {α : Type} {p : Prog Exn D α} (h : Within (Untouched table) p) :
    Within (Still table) (outside p : SqlProg D α) := fun w => ⟨rfl, h w.world⟩

theorem process_builds (hdb : Transacts hooks table build render exec known) {evt : DBChangeEvent}
    (hmode : w.vars.mode = .upsert) :
    wp (SqlDriverBase.process hooks evt)
      (fun _ w' => known evt → ∃ s, build evt = .ok s ∧ w'.vars = buffer (render s) w.vars ∧
        table w'.world = table w.world)
      (fun _ w' => Still table w w') w := by
  rw [SqlDriverBase.process, wp_bind, wp_read]
  by_cases hr : w.vars.hasRegistry = true
  · rw [if_pos hr, wp_bind]
    have hversion : Within (Still table) (tableVersion hooks evt) := by
      refine within_tryExcept ?_ (fun _ => within_raise Still.refl _) Still.refl Still.trans
      exact (still_outside (hdb.getTableVersion _)).bind (fun _ => within_pure Still.refl _) Still.trans
    refine wp_mono (hversion.wp w) (fun version w₁ h₁ => ?_) (fun _ _ h => h)
    rw [wp_bind, tableSchema]
    refine wp_tryExcept (wp_outside (fun schema d hschema => ?_) (fun e d hschema => ?_))
    · have hd : Untouched table w₁.world d := (hdb.getSchema _ _).reply hschema
      rw [wp_bind, SqlDriverBase.build, wp_bind, wp_read]
      have hmode₁ : (w₁.inWorld d).vars.mode = .upsert := by rw [inWorld_vars, h₁.1, hmode]
      rw [hmode₁]
      refine wp_outside (fun text d' htext => ?_) (fun e d' htext => ?_)
      · have hd' : Untouched table d d' := (hdb.toSql _ _).reply htext
        rw [wp_bind, wp_note, wp_bind, wp_assign, wp_pure]
        intro hknown
        obtain ⟨s, hs, rfl⟩ := ((hdb.builds evt (.str version) hknown).reply hschema).reply htext
        exact ⟨s, hs, by simp [h₁.1], Eq.trans (hd.trans hd') h₁.2⟩
      · have hd' : Untouched table d d' := (hdb.toSql _ _).reply htext
        exact ⟨h₁.1, Eq.trans (hd.trans hd') h₁.2⟩
    · have hd : Untouched table w₁.world d := (hdb.getSchema _ _).reply hschema
      exact ⟨fun _ => ⟨h₁.1, Eq.trans hd h₁.2⟩, fun _ => ⟨h₁.1, Eq.trans hd h₁.2⟩⟩
  · rw [if_neg hr]
    exact Still.refl w

theorem flush_runs (hdb : Transacts hooks table build render exec known) {stmts : List S}
    (hbuilt : ∀ s ∈ stmts, ∃ evt, known evt ∧ build evt = .ok s)
    (hpending : w.vars.pending = stmts.map render) (hcount : w.vars.count = stmts.length) :
    wp (SqlDriverBase.flush hooks)
      (fun _ w' => w'.vars = reset w.vars ∧ table w'.world = stmts.foldl exec (table w.world))
      (fun _ w' => w'.vars = w.vars ∧ (table w'.world = table w.world ∨
        table w'.world = stmts.foldl exec (table w.world))) w := by
  rw [SqlDriverBase.flush, wp_bind, wp_read]
  by_cases hasDb : w.vars.hasDb = true
  · simp only [id, hasDb, if_true]
    by_cases hpos : 0 < w.vars.count
    · rw [if_pos hpos, wp_bind, execute, wp_bind, hpending, wp_outside_iff]
      refine wp_mono (hdb.transaction stmts w.world hbuilt) (fun _ d hd => ?_)
        (fun _ d hd => ⟨rfl, hd⟩)
      rw [wp_bind, wp_note]
      refine wp_outside (fun _ d' h => ?_) (fun _ d' h => ?_)
      · exact ⟨rfl, Eq.trans ((hdb.onFlushed _).reply h) hd⟩
      · exact ⟨rfl, Or.inr (Eq.trans ((hdb.onFlushed _).reply h) hd)⟩
    · rw [if_neg hpos]
      have hnil : stmts = [] := List.length_eq_zero_iff.mp (by omega)
      subst hnil
      exact ⟨rfl, rfl⟩
  · simp only [id, hasDb]
    exact ⟨rfl, Or.inl rfl⟩

end Driver

end Consumer
end Eds
