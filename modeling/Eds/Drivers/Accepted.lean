import Eds.Message
import Eds.Util.Loads
import Eds.Drivers.Appended

/-!
# Which accepted messages become SQL

The PostgreSQL builders write every accepted message whose fields have the types that
the event declares.  The other two rewrite strings that look like timestamps and
raise on one that names no time, and SQL Server's upsert looks up the id of the
object; nothing else stops them.
-/

namespace Eds
namespace Drivers

open Collections Util

/-- The builder returns. -/
def Succeeds {ε α : Type} (x : Except ε α) : Prop := ∃ a, x = .ok a

/-! ## Strings that look like timestamps -/

/-- `strptime` accepts it, with the year 2000 for the year 0. -/
def Stamp.isTime (t : Stamp) : Bool :=
  let year := readNat t.year
  let t' := if year < 1 then { t with year := ['2', '0', '0', '0'] } else t
  match t'.check (if year < 1 then 2000 else year) with
  | .ok () => true
  | .error _ => false

/-- A string that looks like a timestamp is one. -/
def Timely : Json → Prop
  | .str s => ∀ t, stamp? s = some t → t.isTime = true
  | _ => True

/-- The values that are quoted for a row: the first element of the key for a delete, and the
columns that the object has otherwise. -/
def rendered (c : DBChangeEvent) (model : Schema) : List Json :=
  if c.operation.eqStr "DELETE" then
    match keyAt c.key 0 with
    | .ok v => [v]
    | .error _ => []
  else model.columns.filterMap fun name => (getObject c).lookup name

/-- The fields have the types that the event declares, and a delete has a key. -/
structure Declared (c : DBChangeEvent) : Prop where
  table : ∃ name, c.table = .str name
  diff : isFalsy c.diff = true ∨ ∃ vs, c.diff = .arr vs
  mvcc : isFalsy c.mvccTimestamp = true ∨ ∃ text, c.mvccTimestamp = .str text
  key : c.operation.eqStr "DELETE" = true → isFalsy c.key = false

section Succeeds

variable {ε α β : Type}

theorem succeeds_ok (a : α) : Succeeds (.ok a : Except ε α) := ⟨a, rfl⟩

theorem not_succeeds_error (e : ε) : ¬ Succeeds (.error e : Except ε α) := nofun

theorem succeeds_bind {x : Except ε α} {f : α → Except ε β} :
    Succeeds (x >>= f) ↔ ∃ a, x = .ok a ∧ Succeeds (f a) := by
  constructor
  · intro hgiven
    obtain ⟨b, h⟩ := hgiven
    obtain ⟨a, ha, hf⟩ := bind_eq_ok.mp h
    exact ⟨a, ha, b, hf⟩
  · intro hgiven
    obtain ⟨a, ha, b, hf⟩ := hgiven
    exact ⟨b, bind_eq_ok.mpr ⟨a, ha, hf⟩⟩

theorem succeeds_pure_after {x : Except ε α} {f : α → β} :
    Succeeds (x >>= fun a => pure (f a)) ↔ Succeeds x := by
  rw [succeeds_bind]
  exact ⟨fun ⟨a, ha, _⟩ => ⟨a, ha⟩, fun ⟨a, ha⟩ => ⟨a, ha, _, rfl⟩⟩

/-- Where what follows does not depend on the value. -/
theorem succeeds_bind_and {x : Except ε α} {f : α → Except ε β} {P : Prop}
    (hf : ∀ a, Succeeds (f a) ↔ P) : Succeeds (x >>= f) ↔ Succeeds x ∧ P := by
  rw [succeeds_bind]
  exact ⟨fun ⟨a, ha, h⟩ => ⟨⟨a, ha⟩, (hf a).mp h⟩, fun ⟨⟨a, ha⟩, h⟩ => ⟨a, ha, (hf a).mpr h⟩⟩

theorem succeeds_bind_of {x : Except ε α} {f : α → Except ε β} (hf : ∀ a, Succeeds (f a)) :
    Succeeds (x >>= f) ↔ Succeeds x := by
  rw [succeeds_bind_and (P := True) fun a => ⟨fun _ => trivial, fun _ => hf a⟩, and_true]

theorem succeeds_mapM {f : α → Except ε β} {l : List α} :
    Succeeds (l.mapM f) ↔ ∀ a ∈ l, Succeeds (f a) := by
  induction l with
  | nil => exact ⟨fun _ a ha => absurd ha List.not_mem_nil, fun _ => ⟨[], rfl⟩⟩
  | cons a rest ih =>
    rw [List.mapM_cons, succeeds_bind]
    constructor
    · intro hgiven
      obtain ⟨b, hb, h⟩ := hgiven
      have hrest := ih.mp (succeeds_pure_after.mp h)
      intro a' ha'
      rcases List.mem_cons.mp ha' with rfl | ha'
      · exact ⟨b, hb⟩
      · exact hrest a' ha'
    · intro hall
      obtain ⟨b, hb⟩ := hall a List.mem_cons_self
      refine ⟨b, hb, succeeds_pure_after.mpr (ih.mpr fun a' ha' => ?_)⟩
      exact hall a' (List.mem_cons_of_mem a ha')

end Succeeds

/-! ## The fields -/

section Fields

variable {c : DBChangeEvent} (h : Declared c)

include h

theorem Declared.tableName : ∃ name, tableName c.table = .ok name := by
  obtain ⟨name, hname⟩ := h.table
  exact ⟨name, by rw [hname]; rfl⟩

theorem Declared.diffNames : ∃ names, diffNames c.diff = .ok names := by
  rcases h.diff with hfalsy | ⟨vs, hvs⟩
  · refine ⟨[], ?_⟩
    unfold Drivers.diffNames
    rw [if_pos hfalsy]
  · rw [hvs, Drivers.diffNames]
    split
    · exact ⟨_, rfl⟩
    · exact ⟨_, rfl⟩

theorem Declared.mvccText : ∃ text, mvccText c.mvccTimestamp = .ok text := by
  rcases h.mvcc with hfalsy | ⟨s, hs⟩
  · refine ⟨"NULL", ?_⟩
    unfold Drivers.mvccText
    rw [if_pos hfalsy]
  · rw [hs, Drivers.mvccText]
    split
    · exact ⟨_, rfl⟩
    · exact ⟨_, rfl⟩

end Fields

/-! ## Values -/

theorem quoteStringValue_succeeds {escape : String → String} {s : String} :
    Succeeds (quoteStringValue escape s) ↔ Timely (.str s) := by
  rw [quoteStringValue, Timely]
  cases hstamp : stamp? s with
  | none => exact ⟨fun _ => nofun, fun _ => succeeds_ok _⟩
  | some t =>
    have htime : (∀ t', some t = some t' → t'.isTime = true) ↔ t.isTime = true :=
      ⟨fun hall => hall t rfl, fun ht t' ht' => Option.some.inj ht' ▸ ht⟩
    rw [htime, Stamp.isTime]
    simp only
    split
    · next e he =>
      rw [he]
      exact ⟨fun h => absurd h (not_succeeds_error _), nofun⟩
    · next he =>
      rw [he]
      refine ⟨fun _ => rfl, fun _ => ?_⟩
      split
      · exact succeeds_ok _
      · exact succeeds_ok _

theorem Mysql.quoteValue_succeeds {v : Json} : Succeeds (Mysql.quoteValue v) ↔ Timely v := by
  cases v with
  | str s => exact quoteStringValue_succeeds
  | _ => exact ⟨fun _ => trivial, fun _ => succeeds_ok _⟩

theorem Sqlserver.quoteValue_succeeds {v : Json} : Succeeds (Sqlserver.quoteValue v) ↔ Timely v := by
  cases v with
  | str s => exact quoteStringValue_succeeds
  | _ => exact ⟨fun _ => trivial, fun _ => succeeds_ok _⟩

theorem Mysql.presentText_succeeds {model : Schema} {v : Json} {name : String} :
    Succeeds (Mysql.presentText model v name) ↔ Timely v := by
  rw [Mysql.presentText, succeeds_pure_after]
  exact Mysql.quoteValue_succeeds

theorem Sqlserver.presentText_succeeds {model : Schema} {v : Json} {name : String} :
    Succeeds (Sqlserver.presentText model v name) ↔ Timely v := by
  rw [Sqlserver.presentText, succeeds_pure_after]
  exact Sqlserver.quoteValue_succeeds

/-! ## Rows -/

section Rows

variable {c : DBChangeEvent} {model : Schema} {o : List (String × Json)}

/-- Of the columns, those that the object has can fail. -/
theorem columns_succeed {text : String → Except Exn String}
    (hsome : ∀ name v, o.lookup name = some v → (Succeeds (text name) ↔ Timely v))
    (hnone : ∀ name, o.lookup name = none → Succeeds (text name)) :
    (∀ name ∈ model.columns, Succeeds (text name)) ↔
      ∀ v ∈ model.columns.filterMap fun name => o.lookup name, Timely v := by
  constructor
  · intro hall v hv
    obtain ⟨name, hname, hlookup⟩ := List.mem_filterMap.mp hv
    exact (hsome name v hlookup).mp (hall name hname)
  · intro hall name hname
    cases hlookup : o.lookup name with
    | none => exact hnone name hlookup
    | some v => exact (hsome name v hlookup).mpr (hall v (List.mem_filterMap.mpr ⟨name, hname, hlookup⟩))

variable (hpk : model.primaryKeys = ["id"])

include hpk

/-- The one condition of a delete. -/
theorem conditions_succeed {quote : Json → Except Exn String}
    (hquote : ∀ v, Succeeds (quote v) ↔ Timely v) {v : Json} (hv : keyAt c.key 0 = .ok v) :
    Succeeds (model.primaryKeys.zipIdx.mapM fun pk => do
      let v ← keyAt c.key pk.2
      let text ← quote v
      pure (pk.1, text)) ↔ Timely v := by
  rw [hpk, succeeds_mapM, ← hquote v]
  constructor
  · intro hall
    obtain ⟨v', hv', hsucceeds⟩ := succeeds_bind.mp (hall ("id", 0) (by simp))
    cases hv.symm.trans hv'
    exact succeeds_pure_after.mp hsucceeds
  · intro hquoted pk hmem
    have heq : pk = ("id", 0) := by simpa using hmem
    rw [heq]
    exact succeeds_bind.mpr ⟨v, hv, succeeds_pure_after.mpr hquoted⟩

/-- A tombstone has the key in its column and nothing in the others. -/
theorem tombstone_succeeds {quote : Json → Except Exn String}
    (hquote : ∀ v, Succeeds (quote v) ↔ Timely v) {v : Json} (hv : keyAt c.key 0 = .ok v) :
    Succeeds (tombstoneValues quote c model) ↔ Timely v := by
  have hid : "id" ∈ model.columns := by simp [Schema.columns, hpk]
  rw [tombstoneValues, hpk, succeeds_mapM, ← hquote v]
  constructor
  · intro hall
    obtain ⟨v', hv', hsucceeds⟩ := succeeds_bind.mp (hall "id" hid)
    cases hv.symm.trans hv'
    exact succeeds_pure_after.mp hsucceeds
  · intro hquoted name hname
    by_cases hname : name = "id"
    · subst hname
      exact succeeds_bind.mpr ⟨v, hv, succeeds_pure_after.mpr hquoted⟩
    · have hnone : ["id"].idxOf? name = none := List.idxOf?_eq_none_iff.mpr (by simpa using hname)
      simp only [hnone]
      exact succeeds_ok _

end Rows

/-! ## Builders -/

section Builders

variable {c : DBChangeEvent} {model : Schema} (hpk : model.primaryKeys = ["id"]) (hd : Declared c)
  (hkey : c.operation.eqStr "DELETE" = true → ∃ v, keyAt c.key 0 = .ok v)

theorem rendered_delete (hdelete : c.operation.eqStr "DELETE" = true) {v : Json}
    (hv : keyAt c.key 0 = .ok v) : (∀ v ∈ rendered c model, Timely v) ↔ Timely v := by
  rw [rendered, if_pos hdelete, hv]
  simp

theorem rendered_upsert (hdelete : ¬c.operation.eqStr "DELETE" = true) :
    rendered c model = model.columns.filterMap fun name => (getObject c).lookup name := by
  rw [rendered, if_neg hdelete]

include hd in
theorem ending_succeeds (values : List (String × String)) (text : String) :
    Succeeds (do
      let name ← tableName c.table
      let mvcc ← mvccText c.mvccTimestamp
      pure (⟨name, values, c.operation, text, mvcc, c.timestamp⟩ : Append)) := by
  obtain ⟨name, hname⟩ := hd.tableName
  obtain ⟨mvcc, hmvcc⟩ := hd.mvccText
  exact succeeds_bind.mpr ⟨name, hname, succeeds_bind.mpr ⟨mvcc, hmvcc, succeeds_ok _⟩⟩

include hd in
theorem table_succeeds {β : Type} (f : String → β) :
    Succeeds (do
      let name ← tableName c.table
      pure (f name)) := by
  obtain ⟨name, hname⟩ := hd.tableName
  exact succeeds_bind.mpr ⟨name, hname, succeeds_ok _⟩

include hd in
/-- The update assigns columns. -/
theorem assigned_succeeds : ∃ names, Sqlserver.assigned model c.diff = .ok names ∧
    ∀ name ∈ names, name ∈ model.columns := by
  obtain ⟨diff, hdiff⟩ := hd.diffNames
  have hfilter : ∀ (l : List String), ∀ name ∈ l.filter fun name =>
      model.columns.contains name && name != "id", name ∈ model.columns := by
    intro l name hname
    have hboth := (List.mem_filter.mp hname).2
    simp only [Bool.and_eq_true, List.contains_iff_mem] at hboth
    exact hboth.1
  rw [Sqlserver.assigned]
  split
  · exact ⟨_, rfl, hfilter _⟩
  · rw [hdiff]
    exact ⟨_, rfl, hfilter _⟩

include hpk hd hkey

theorem Postgresql.toSql_succeeds : Succeeds (Postgresql.toSql c model) := by
  rw [Postgresql.toSql]
  split
  · next hdelete =>
    obtain ⟨v, hv⟩ := hkey hdelete
    refine (succeeds_bind_of fun conds => table_succeeds hd _).mpr ?_
    rw [hpk, succeeds_mapM]
    intro pk hmem
    have heq : pk = ("id", 0) := by simpa using hmem
    rw [heq]
    exact succeeds_bind.mpr ⟨v, hv, succeeds_ok _⟩
  · rw [Postgresql.toSqlFromObject]
    split
    · obtain ⟨names, hnames⟩ := hd.diffNames
      exact succeeds_bind.mpr ⟨names, hnames, table_succeeds hd _⟩
    · exact table_succeeds hd _

theorem Postgresql.toAppendSql_succeeds : Succeeds (Postgresql.toAppendSql c model) := by
  rw [Postgresql.toAppendSql]
  split
  · next hdelete =>
    obtain ⟨v, hv⟩ := hkey hdelete
    refine (succeeds_bind_of fun values => ending_succeeds hd values _).mpr ?_
    rw [hpk, succeeds_mapM]
    intro name _
    by_cases hid : name = "id"
    · subst hid
      exact succeeds_bind.mpr ⟨v, hv, succeeds_ok _⟩
    · have hnone : ["id"].idxOf? name = none := List.idxOf?_eq_none_iff.mpr (by simpa using hid)
      simp only [hnone]
      exact succeeds_ok _
  · exact ending_succeeds hd _ _

theorem Mysql.toSql_succeeds :
    Succeeds (Mysql.toSql c model) ↔ ∀ v ∈ rendered c model, Timely v := by
  rw [Mysql.toSql]
  split
  · next hdelete =>
    obtain ⟨v, hv⟩ := hkey hdelete
    rw [succeeds_bind_of fun conds => table_succeeds hd _,
      conditions_succeed hpk (fun _ => Mysql.quoteValue_succeeds) hv, rendered_delete hdelete hv]
  · next hdelete =>
    rw [Mysql.toSqlFromObject, rendered_upsert hdelete,
      succeeds_bind_of fun values => table_succeeds hd _, succeeds_mapM]
    simp only [succeeds_pure_after]
    refine columns_succeed (fun column v hv => ?_) (fun column hnone => ?_)
    · rw [Mysql.columnText, hv]
      exact Mysql.presentText_succeeds
    · rw [Mysql.columnText, hnone]
      exact succeeds_ok _

/-- The operation is quoted too. -/
theorem appended_succeeds {quote : Json → Except Exn String} {columnText : String → Except Exn String}
    (hquote : ∀ v, Succeeds (quote v) ↔ Timely v)
    (hcolumns : (∀ name ∈ model.columns, Succeeds (columnText name)) ↔
      ∀ v ∈ model.columns.filterMap fun name => (getObject c).lookup name, Timely v) :
    Succeeds (appended quote columnText c model) ↔
      ∀ v ∈ c.operation :: rendered c model, Timely v := by
  have hending : ∀ values, Succeeds (appendWith quote c values) ↔ Timely c.operation := by
    intro values
    rw [appendWith, succeeds_bind_of fun text => ending_succeeds hd values text]
    exact hquote c.operation
  rw [appended, List.forall_mem_cons, and_comm]
  split
  · next hdelete =>
    obtain ⟨v, hv⟩ := hkey hdelete
    rw [succeeds_bind_and hending, rendered_delete hdelete hv, tombstone_succeeds hpk hquote hv]
  · next hdelete =>
    rw [succeeds_bind_and hending, rendered_upsert hdelete, ← hcolumns, rowValues, succeeds_mapM]
    simp only [succeeds_pure_after]

theorem Mysql.toAppendSql_succeeds :
    Succeeds (Mysql.toAppendSql c model) ↔ ∀ v ∈ c.operation :: rendered c model, Timely v := by
  refine appended_succeeds hpk hd hkey (fun _ => Mysql.quoteValue_succeeds)
    (columns_succeed (fun column v hv => ?_) (fun column hnone => ?_))
  · rw [Mysql.appendText, hv]
    exact Mysql.presentText_succeeds
  · rw [Mysql.appendText, hnone]
    exact succeeds_ok _

/-- What an update assigns is inserted as well. -/
theorem Sqlserver.toSql_succeeds {str : Json → String} :
    Succeeds (Sqlserver.toSql str c model) ↔
      (∀ v ∈ rendered c model, Timely v) ∧
        (c.operation.eqStr "DELETE" = false → ((getObject c).lookup "id").isSome = true) := by
  rw [Sqlserver.toSql]
  split
  · next hdelete =>
    obtain ⟨v, hv⟩ := hkey hdelete
    rw [succeeds_bind_of fun conds => table_succeeds hd _,
      conditions_succeed hpk (fun _ => Sqlserver.quoteValue_succeeds) hv, rendered_delete hdelete hv]
    refine ⟨fun h => ⟨h, fun hother => ?_⟩, fun h => h.1⟩
    rw [hdelete] at hother
    cases hother
  · next hdelete =>
    have hother : c.operation.eqStr "DELETE" = false := by simpa using hdelete
    have hinserts : (∀ name ∈ model.columns, Succeeds (Sqlserver.insertText model (getObject c) name)) ↔
        ∀ v ∈ rendered c model, Timely v := by
      rw [rendered_upsert hdelete]
      refine columns_succeed (fun column v hv => ?_) (fun column hnone => ?_)
      · simp only [Sqlserver.insertText, hv, succeeds_pure_after]
        exact Sqlserver.presentText_succeeds
      · simp only [Sqlserver.insertText, hnone]
        exact succeeds_ok _
    have hupdates : (∀ v ∈ rendered c model, Timely v) → ∀ name ∈ model.columns,
        Succeeds (Sqlserver.updateText model (getObject c) name) := by
      rw [rendered_upsert hdelete]
      refine (columns_succeed (fun column v hv => ?_) (fun column hnone => ?_)).mpr
      · simp only [Sqlserver.updateText, hv]
        exact Sqlserver.presentText_succeeds
      · simp only [Sqlserver.updateText, hnone]
        exact succeeds_ok _
    obtain ⟨table, htable⟩ := hd.tableName
    obtain ⟨names, hnames, hcolumns⟩ : ∃ names, Sqlserver.assigned model c.diff = .ok names ∧
        ∀ name ∈ names, name ∈ model.columns := assigned_succeeds hd
    rw [Sqlserver.toSqlFromObject]
    constructor
    · intro h
      obtain ⟨names', _, h⟩ := succeeds_bind.mp h
      obtain ⟨sets, _, h⟩ := succeeds_bind.mp h
      obtain ⟨inserts, hall, h⟩ := succeeds_bind.mp h
      obtain ⟨table', _, h⟩ := succeeds_bind.mp h
      have hinserted : ∀ name ∈ model.columns,
          Succeeds (Sqlserver.insertText model (getObject c) name) := by
        intro name hname
        exact succeeds_pure_after.mp (succeeds_mapM.mp ⟨inserts, hall⟩ name hname)
      refine ⟨hinserts.mp hinserted, fun _ => ?_⟩
      split at h
      · exact absurd h (not_succeeds_error _)
      · next v hid => rw [hid]; rfl
    · intro hgiven
      obtain ⟨htimely, hid⟩ := hgiven
      obtain ⟨v, hv⟩ := Option.isSome_iff_exists.mp (hid hother)
      obtain ⟨sets, hsets⟩ : Succeeds (names.mapM fun name => do
          let text ← Sqlserver.updateText model (getObject c) name
          pure (name, text)) :=
        succeeds_mapM.mpr fun name hname =>
          succeeds_pure_after.mpr (hupdates htimely name (hcolumns name hname))
      obtain ⟨inserts, hall⟩ : Succeeds (model.columns.mapM fun name => do
          let text ← Sqlserver.insertText model (getObject c) name
          pure (name, text)) :=
        succeeds_mapM.mpr fun name hname => succeeds_pure_after.mpr (hinserts.mpr htimely name hname)
      refine succeeds_bind.mpr ⟨names, hnames, succeeds_bind.mpr ⟨sets, hsets, ?_⟩⟩
      refine succeeds_bind.mpr ⟨inserts, hall, succeeds_bind.mpr ⟨table, htable, ?_⟩⟩
      rw [hv]
      exact succeeds_ok _

theorem Sqlserver.toAppendSql_succeeds :
    Succeeds (Sqlserver.toAppendSql c model) ↔ ∀ v ∈ c.operation :: rendered c model, Timely v := by
  refine appended_succeeds hpk hd hkey (fun _ => Sqlserver.quoteValue_succeeds)
    (columns_succeed (fun column v hv => ?_) (fun column hnone => ?_))
  · rw [Sqlserver.updateText, hv]
    exact Sqlserver.presentText_succeeds
  · rw [Sqlserver.updateText, hnone]
    exact succeeds_ok _

end Builders

/-- Whatever an accepted message holds, the PostgreSQL builders return, the other ones return
if and only if no string they quote looks like a timestamp without being one, and SQL Server's
upsert also needs the id in the object. -/
theorem accepted_builds (rt : Runtime) (str : Json → String) (data : List UInt8) (seq : Int)
    (c : DBChangeEvent) (haccept : Message.fromMessage rt data seq = .ok c) (hd : Declared c)
    (model : Schema) (hpk : model.primaryKeys = ["id"]) :
    Succeeds (Postgresql.toSql c model) ∧ Succeeds (Postgresql.toAppendSql c model) ∧
    (Succeeds (Mysql.toSql c model) ↔ ∀ v ∈ rendered c model, Timely v) ∧
    (Succeeds (Mysql.toAppendSql c model) ↔ ∀ v ∈ c.operation :: rendered c model, Timely v) ∧
    (Succeeds (Sqlserver.toSql str c model) ↔ (∀ v ∈ rendered c model, Timely v) ∧
      (c.operation.eqStr "DELETE" = false → ((getObject c).lookup "id").isSome = true)) ∧
    (Succeeds (Sqlserver.toAppendSql c model) ↔
      ∀ v ∈ c.operation :: rendered c model, Timely v) := by
  have hkey : c.operation.eqStr "DELETE" = true → ∃ v, keyAt c.key 0 = .ok v :=
    fun hdelete => Message.keyAt_of_fromMessage haccept (hd.key hdelete)
  refine ⟨?_, ?_, ?_, ?_, ?_, ?_⟩
  · exact Postgresql.toSql_succeeds hpk hd hkey
  · exact Postgresql.toAppendSql_succeeds hpk hd hkey
  · exact Mysql.toSql_succeeds hpk hd hkey
  · exact Mysql.toAppendSql_succeeds hpk hd hkey
  · exact Sqlserver.toSql_succeeds hpk hd hkey
  · exact Sqlserver.toAppendSql_succeeds hpk hd hkey

/-- As the interpreter does for a message in ASCII whose timestamp is an integer. -/
def Runtime.ascii : Runtime where
  decode data := String.ofList (data.map fun b => Char.ofNat b.toNat)
  loads data :=
    match Util.loads String.ofList (String.ofList (data.map fun b => Char.ofNat b.toNat)) with
    | some v => .ok v
    | none => .error "Expecting value: line 1 column 1 (char 0)"
  toInt
    | .int n => .ok n
    | _ => .error (.exception "int() argument must be a string or a number")
  toFloat n := toString n ++ ".0"
  str _ := ""

def bytes (text : String) : List UInt8 := text.toList.map fun c => UInt8.ofNat c.toNat

/-- Users with the time they were created. -/
def created : Schema where
  properties := Dict.ofList
    [("id", ⟨"string", "", false, none⟩), ("at", ⟨"string", "date-time", true, none⟩)]
  primaryKeys := ["id"]
  table := "user"
  modelVersion := "v1"

/-- The message is accepted, and `P` holds of its event. -/
def accepts (P : DBChangeEvent → Bool) : Except Exn DBChangeEvent → Bool
  | .ok c => P c
  | .error _ => false

theorem exists_of_accepts {P : DBChangeEvent → Bool} {x : Except Exn DBChangeEvent}
    (h : accepts P x = true) : ∃ c, x = .ok c ∧ P c = true := by
  cases x with
  | ok c => exact ⟨c, rfl, h⟩
  | error e => cases h

theorem not_succeeds_of_isOk {ε α : Type} {x : Except ε α} (h : x.isOk = false) : ¬ Succeeds x := by
  intro hgiven
  obtain ⟨a, rfl⟩ := hgiven
  cases h

/-- There is no 30 February. -/
def undated : List UInt8 := bytes "\x7b\"key\":[\"u1\"],\"after\":\x7b\"at\":\"2024-02-30T00:00:00Z\"\x7d\x7d"

/-- The id is in the key only. -/
def keyed : List UInt8 := bytes "\x7b\"key\":[\"u1\"]\x7d"

theorem accepted_fails :
    (∃ c, Message.fromMessage Runtime.ascii undated 1 = .ok c ∧
      ¬ Succeeds (Mysql.toSql c created)) ∧
    ∃ c, Message.fromMessage Runtime.ascii keyed 1 = .ok c ∧
      ¬ Succeeds (Sqlserver.toSql S3.strOf c created) := by
  constructor
  · obtain ⟨c, hc, hfails⟩ := exists_of_accepts
      (x := Message.fromMessage Runtime.ascii undated 1)
      (P := fun c => !(Mysql.toSql c created).isOk) (by decide +kernel)
    exact ⟨c, hc, not_succeeds_of_isOk (by simpa using hfails)⟩
  · obtain ⟨c, hc, hfails⟩ := exists_of_accepts
      (x := Message.fromMessage Runtime.ascii keyed 1)
      (P := fun c => !(Sqlserver.toSql S3.strOf c created).isOk) (by decide +kernel)
    exact ⟨c, hc, not_succeeds_of_isOk (by simpa using hfails)⟩

/-- The types of the fields, as a test. -/
def declares (c : DBChangeEvent) : Bool :=
  let isStr : Json → Bool
    | .str _ => true
    | _ => false
  let isArr : Json → Bool
    | .arr _ => true
    | _ => false
  isStr c.table && (isFalsy c.diff || isArr c.diff) && isStr c.mvccTimestamp &&
    !(c.operation.eqStr "DELETE" && isFalsy c.key)

theorem Declared.of_declares {c : DBChangeEvent} (h : declares c = true) : Declared c := by
  simp only [declares, Bool.and_eq_true, Bool.or_eq_true, Bool.not_eq_true',
    Bool.and_eq_false_iff] at h
  obtain ⟨⟨⟨htable, hdiff⟩, hmvcc⟩, hkey⟩ := h
  refine ⟨?_, hdiff.imp_right ?_, .inr ?_, fun hdelete => ?_⟩
  · cases htext : c.table with
    | str name => exact ⟨name, rfl⟩
    | _ => rw [htext] at htable; cases htable
  · intro harr
    cases hvs : c.diff with
    | arr vs => exact ⟨vs, rfl⟩
    | _ => rw [hvs] at harr; cases harr
  · cases htext : c.mvccTimestamp with
    | str text => exact ⟨text, rfl⟩
    | _ => rw [htext] at hmvcc; cases hmvcc
  · rw [hdelete] at hkey
    exact hkey.resolve_left Bool.noConfusion

/-- There is a 29 February. -/
def dated : List UInt8 :=
  bytes "\x7b\"operation\":\"UPDATE\",\"key\":[\"u1\"],\"diff\":[\"at\"],\"after\":\x7b\"id\":\"u1\",\"at\":\"2024-02-29T00:00:00Z\"\x7d\x7d"

def removed : List UInt8 := bytes "\x7b\"operation\":\"DELETE\",\"key\":[\"u1\"]\x7d"

/-- The message is accepted, and its statements are built on all three engines. -/
def Builds (data : List UInt8) : Prop :=
  ∃ c, Message.fromMessage Runtime.ascii data 1 = .ok c ∧
    Succeeds (Postgresql.toSql c created) ∧ Succeeds (Postgresql.toAppendSql c created) ∧
    Succeeds (Mysql.toSql c created) ∧ Succeeds (Sqlserver.toSql S3.strOf c created)

/-- An update with a timestamp and a deletion: that the MySQL upsert returns says that the SQL Server
one does. -/
theorem accepted_builds_dated : Builds dated ∧ Builds removed := by
  have hbuilds : ∀ data ∈ [dated, removed], Builds data := by
    intro data hdata
    obtain ⟨c, hc, hchecks⟩ := exists_of_accepts
      (x := Message.fromMessage Runtime.ascii data 1)
      (P := fun c => declares c && (Mysql.toSql c created).isOk &&
        (c.operation.eqStr "DELETE" || ((getObject c).lookup "id").isSome)) (by
          revert data
          decide +kernel)
    simp only [Bool.and_eq_true, Bool.or_eq_true] at hchecks
    obtain ⟨⟨hdeclared, hran⟩, hid⟩ := hchecks
    obtain ⟨hpg, happend, hmysql, -, hsqlserver, -⟩ := accepted_builds Runtime.ascii S3.strOf data 1
      c hc (.of_declares hdeclared) created rfl
    have hgiven : Succeeds (Mysql.toSql c created) := by
      cases hrun : Mysql.toSql c created with
      | ok s => exact succeeds_ok s
      | error e => rw [hrun] at hran; cases hran
    refine ⟨c, hc, hpg, happend, hgiven, hsqlserver.mpr ⟨hmysql.mp hgiven, fun hother => ?_⟩⟩
    rw [hother] at hid
    exact hid.resolve_left Bool.noConfusion
  exact ⟨hbuilds dated (by simp), hbuilds removed (by simp)⟩

end Drivers
end Eds
