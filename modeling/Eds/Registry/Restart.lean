import Eds.Drivers.ColumnTypes
import Eds.Registry.Stored
import Mathlib.Data.String.Basic

/-!
# Columns before and after a restart

A restart keeps the columns of a table and which of them are `NOT NULL`.  It changes the type
of a column whose items have an empty list of values: the drivers tell the empty list from no
list, and the stored text does not.
-/

namespace Eds
namespace Registry
namespace Stored

open Collections Drivers

/-- The name, the type and `NOT NULL`, as `create_sql` decides them. -/
def createColumns (types : ColumnTypes) (s : Schema) : List (String × String × Bool) :=
  s.view.columns.map fun name =>
    let prop := s.view.property name
    (name, propTypeToSqlType types prop (s.primaryKeys.contains name),
      s.required.contains name && !prop.nullable)

/-- A column without its type. -/
def untyped (column : String × String × Bool) : String × Bool := (column.1, column.2.2)

variable {s s' : Schema}

theorem get?_view (s : Schema) (name : String) :
    s.view.properties.get? name = (s.properties.get? name).map SchemaProperty.view :=
  Dict.get?_map SchemaProperty.view s.properties name

theorem property_view (s : Schema) (name : String) :
    s.view.property name =
      ((s.properties.get? name).map SchemaProperty.view).getD SchemaProperty.blank := by
  rw [Eds.Schema.property, get?_view]

/-- The names and not the properties decide the columns. -/
theorem columns_view_congr (hkeys : ∀ name, (s.properties.get? name).isSome =
    (s'.properties.get? name).isSome) (hprimary : s.primaryKeys = s'.primaryKeys) :
    s.view.columns = s'.view.columns := by
  have hmem : ∀ (t : Schema) (name : String),
      name ∈ t.view.properties.keys ↔ (t.properties.get? name).isSome = true := by
    intro t name
    rw [Dict.mem_keys, ← Option.isSome_map (f := SchemaProperty.view), ← get?_view,
      Option.isSome_iff_exists]
    exact exists_congr fun p => Dict.get?_eq_some.symm
  have hperm : s.view.properties.keys.Perm s'.view.properties.keys := by
    refine (List.perm_ext_iff_of_nodup (Dict.keys_nodup _) (Dict.keys_nodup _)).mpr fun name => ?_
    rw [hmem, hmem, hkeys]
  have hle : ∀ a b : String, decide (a ≤ b) = true ↔ a ≤ b := fun _ _ => decide_eq_true_iff
  have hprimary' : s.view.primaryKeys = s'.view.primaryKeys := hprimary
  rw [Eds.Schema.columns, Eds.Schema.columns, hprimary',
    mergeSort_eq_of_perm hle (hperm.filter _)]

theorem Schema.Equal.createColumns (h : s.Equal s') (types : ColumnTypes) :
    createColumns types s = createColumns types s' := by
  have hcolumns := columns_view_congr (fun name => congrArg Option.isSome (h.properties name))
    h.primaryKeys
  rw [Stored.createColumns, Stored.createColumns, hcolumns]
  refine List.map_congr_left fun name _ => ?_
  rw [property_view, property_view, h.properties name, h.primaryKeys, h.required]

theorem isSome_kept (s : Schema) (name : String) :
    (s.kept.properties.get? name).isSome = (s.properties.get? name).isSome := by
  rw [Schema.kept, Dict.get?_map, Option.isSome_map]

theorem nullable_kept (s : Schema) (name : String) :
    (s.kept.view.property name).nullable = (s.view.property name).nullable := by
  rw [property_view, property_view, Schema.kept, Dict.get?_map]
  cases s.properties.get? name <;> rfl

/-- What is lost decides types only. -/
theorem createColumns_kept (s : Schema) (types : ColumnTypes) :
    (createColumns types s.kept).map untyped = (createColumns types s).map untyped := by
  have hcolumns : s.kept.view.columns = s.view.columns := columns_view_congr (isSome_kept s) rfl
  rw [createColumns, createColumns, hcolumns, List.map_map, List.map_map]
  refine List.map_congr_left fun name _ => ?_
  simp only [Function.comp_apply, untyped, nullable_kept]
  rfl

variable {repr : List Char → String}

/-- A restart gives back the schema without its empty lists of values, which is an equal schema
exactly if it had none. -/
theorem restart_kept {d : Object} (h : Schema.fromDict d = some s) :
    ∃ s', restart repr d = some s' ∧ s'.Equal s.kept ∧ (s'.Equal s ↔ s.Valued) ∧
      s'.view.columns = s.view.columns ∧
      ∀ types, (createColumns types s').map untyped = (createColumns types s).map untyped ∧
        (s.Valued → createColumns types s' = createColumns types s) := by
  have hequal := s.restored_equal
  refine ⟨s.restored, ?_, hequal, ⟨fun hsame => ?_, fun hvalued => ?_⟩, ?_,
    fun types => ⟨?_, fun hvalued => ?_⟩⟩
  · rw [restart, h, Option.bind_some, decodeSchema_stringify]
  · exact s.kept_equal_iff.mp (hequal.symm.trans hsame)
  · exact hequal.trans (s.kept_equal_iff.mpr hvalued)
  · exact columns_view_congr (fun name => (congrArg Option.isSome (hequal.properties name)).trans
      (isSome_kept s name)) rfl
  · rw [hequal.createColumns types, createColumns_kept]
  · exact (hequal.trans (s.kept_equal_iff.mpr hvalued)).createColumns types

/-! ## A list of values -/

/-- A table with one column, an array of strings out of `values`. -/
def tagsObject (values : List String) : Object :=
  [("properties", .obj [("tags", .obj [("type", .str "array"),
    ("items", .obj [("type", .str "string"), ("enum", .arr (values.map .str))])])]),
    ("required", .arr []), ("primaryKeys", .arr []), ("table", .str "post"),
    ("modelVersion", .str "v1")]

def tagsProperty (values : List String) : SchemaProperty :=
  ⟨"array", "", false, some ⟨"string", some values, ""⟩, none, none, none⟩

def tagsSchema (values : List String) : Schema :=
  ⟨⟨[("tags", tagsProperty values)], List.nodup_singleton "tags"⟩, [], [], "post", "v1"⟩

theorem restart_kept_tags :
    ∃ s', restart String.ofList (tagsObject ["a"]) = some s' ∧ s'.Equal (tagsSchema ["a"]) := by
  have hread : Schema.fromDict (tagsObject ["a"]) = some (tagsSchema ["a"]) := rfl
  obtain ⟨s', hrestart, hkept, -⟩ := @restart_kept _ String.ofList _ hread
  exact ⟨s', hrestart, hkept⟩

/-- Without a value, the column is a `VARCHAR(64)` before the restart and a `JSONB` after it. -/
theorem empty_enum_lost :
    Schema.fromDict (tagsObject []) = some (tagsSchema []) ∧
      Postgresql.propTypeToSqlType ((tagsSchema []).view.property "tags") = "VARCHAR(64)" ∧
      ∃ s', restart String.ofList (tagsObject []) = some s' ∧ ¬ s'.Equal (tagsSchema []) ∧
        Postgresql.propTypeToSqlType (s'.view.property "tags") = "JSONB" := by
  have hread : Schema.fromDict (tagsObject []) = some (tagsSchema []) := rfl
  have hequal := (tagsSchema []).restored_equal
  refine ⟨hread, rfl, (tagsSchema []).restored, ?_, fun hsame => ?_, ?_⟩
  · rw [restart, hread, Option.bind_some, decodeSchema_stringify]
  · have hvalued := (tagsSchema []).kept_equal_iff.mp (hequal.symm.trans hsame)
    exact hvalued "tags" _ rfl _ rfl rfl
  · rw [property_view, hequal.properties]
    rfl

end Stored
end Registry
end Eds
