import Eds.Event

/-!
# Column types

The drivers translate the type of a property by the same cases and give each case a type of
their own.
-/

namespace Eds
namespace Drivers

/-- `string` depends on whether the column is a primary key, and on the format. -/
structure ColumnTypes where
  string : Bool → String → String
  integer : String
  number : String
  boolean : String
  object : String
  enum : String
  array : String
  unknown : String

/-- A list of values, with or without a value in it. -/
def hasEnum (prop : SchemaProperty) : Bool :=
  match prop.items with
  | some items => items.enum.isSome
  | none => false

def propTypeToSqlType (types : ColumnTypes) (prop : SchemaProperty) (isPrimaryKey : Bool) : String :=
  if prop.type = "string" then types.string isPrimaryKey prop.format
  else if prop.type = "integer" then types.integer
  else if prop.type = "number" then types.number
  else if prop.type = "boolean" then types.boolean
  else if prop.type = "object" then types.object
  else if prop.type = "array" then (if hasEnum prop then types.enum else types.array)
  else types.unknown

namespace Postgresql

def columnTypes : ColumnTypes where
  string _ format := if format = "date-time" then "TIMESTAMP WITH TIME ZONE" else "TEXT"
  integer := "BIGINT"
  number := "DOUBLE PRECISION"
  boolean := "BOOLEAN"
  object := "JSONB"
  enum := "VARCHAR(64)"
  array := "JSONB"
  unknown := "TEXT"

/-- A primary key has no type of its own. -/
def propTypeToSqlType (prop : SchemaProperty) : String :=
  Drivers.propTypeToSqlType columnTypes prop false

end Postgresql

namespace Mysql

/-- The check for a primary key comes before the one for the format. -/
def columnTypes : ColumnTypes where
  string isPrimaryKey format :=
    if isPrimaryKey then "VARCHAR(64)"
    else if format = "date-time" then "TIMESTAMP"
    else "TEXT"
  integer := "BIGINT"
  number := "FLOAT"
  boolean := "BOOLEAN"
  object := "JSON"
  enum := "VARCHAR(64)"
  array := "JSON"
  unknown := "TEXT"

def propTypeToSqlType (prop : SchemaProperty) (isPrimaryKey : Bool) : String :=
  Drivers.propTypeToSqlType columnTypes prop isPrimaryKey

end Mysql

namespace Sqlserver

def columnTypes : ColumnTypes where
  string isPrimaryKey _ := if isPrimaryKey then "VARCHAR(64)" else "NVARCHAR(MAX)"
  integer := "BIGINT"
  number := "FLOAT"
  boolean := "BIT"
  object := "NVARCHAR(MAX)"
  enum := "VARCHAR(64)"
  array := "NVARCHAR(MAX)"
  unknown := "NVARCHAR(MAX)"

def propTypeToSqlType (prop : SchemaProperty) (isPrimaryKey : Bool) : String :=
  Drivers.propTypeToSqlType columnTypes prop isPrimaryKey

end Sqlserver

namespace Snowflake

def columnTypes : ColumnTypes where
  string _ format := if format = "date-time" then "TIMESTAMP_NTZ" else "STRING"
  integer := "INTEGER"
  number := "FLOAT"
  boolean := "BOOLEAN"
  object := "STRING"
  enum := "STRING"
  array := "VARIANT"
  unknown := "STRING"

def propTypeToSqlType (prop : SchemaProperty) : String :=
  Drivers.propTypeToSqlType columnTypes prop false

end Snowflake

end Drivers
end Eds
