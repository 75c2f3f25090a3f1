import Eds.Exceptions
import Eds.Collections.Dict

/-!
# Change events and schemas

`from_message` copies most fields of the decoded JSON object without looking at
their types, so that `operation`, `table`, `modelVersion` and `diff` are JSON
values here and not strings.  What the code does with them later (a dictionary
lookup, a comparison, an `append`) raises or not according to the type.

`object` is what `get_object` returns.  `from_message` has parsed it once before
it returns an event, so the lookup cannot fail afterwards.  `after` is the raw field
of that name, parsed again with its numbers read as doubles, as the builders that
read it do.
-/

namespace Eds

open Collections

/-- A double is kept by its shortest decimal text, the non-finite ones included. -/
inductive Json where
  | null
  | bool (b : Bool)
  | int (n : Int)
  | float (text : String)
  | str (s : String)
  | arr (vs : List Json)
  | obj (fields : List (String × Json))

/-- `v == s` for a string `s`: values of the other types are unequal to it. -/
def Json.eqStr : Json → String → Bool
  | .str t, s => t == s
  | _, _ => false

structure DBChangeEvent where
  operation : Json
  table : Json
  modelVersion : Json
  object : Option (List (String × Json))
  diff : Json
  timestamp : Int
  schemaValidatedPath : Option String
  key : Json := .null
  after : Option Json := none
  mvccTimestamp : Json := .str ""

/-- `omit_properties` drops from the parsed object only. -/
def DBChangeEvent.omitProperties (evt : DBChangeEvent) (props : List String) : DBChangeEvent :=
  { evt with object := evt.object.map fun o => o.filter fun f => !props.contains f.1 }

structure ItemsType where
  type : String
  enum : Option (List String)
  deriving DecidableEq

structure SchemaProperty where
  type : String
  format : String
  nullable : Bool
  items : Option ItemsType := none
  deriving DecidableEq

/-- `SchemaProperty()`, for a column the schema does not describe. -/
def SchemaProperty.blank : SchemaProperty where
  type := ""
  format := ""
  nullable := false

/-- Not nullable, or an array. -/
def SchemaProperty.isNotNull (prop : SchemaProperty) : Bool := !prop.nullable || prop.type == "array"

def SchemaProperty.isArrayOrJson (prop : SchemaProperty) : Bool :=
  prop.type == "object" || prop.type == "array"

structure Schema where
  properties : Dict String SchemaProperty
  primaryKeys : List String
  table : String
  modelVersion : String
  deriving DecidableEq

/-- Primary keys in order, then the other names sorted by code point. -/
def Schema.columns (schema : Schema) : List String :=
  schema.primaryKeys ++
    (schema.properties.keys.filter fun name => !schema.primaryKeys.contains name).mergeSort
      fun a b => decide (a ≤ b)

/-- `self.properties.get(name, SchemaProperty())` -/
def Schema.property (schema : Schema) (name : String) : SchemaProperty :=
  (schema.properties.get? name).getD SchemaProperty.blank

def jsonDiff (obj : List (String × Json)) (found : List String) : List String :=
  (obj.map Prod.fst).filter fun key => !found.contains key

/-- The loop that adds migrated columns to `evt.diff`.  Only a list has `append`.  A
string and an object answer `in`, by substring and by key, and raise at the first
column they do not hold; the other types raise at once. -/
def extendDiff (cols : List String) : Json → Except Exn Json
  | .null => .ok (.arr (cols.eraseDups.map .str))
  | .arr vs =>
    .ok (.arr (cols.foldl (fun acc c =>
      if acc.any fun v => v.eqStr c then acc else acc ++ [.str c]) vs))
  | .str s =>
    if cols.all fun c => s.contains c then .ok (.str s)
    else .error (.exception "'str' object has no attribute 'append'")
  | .obj fields =>
    if cols.all fun c => (fields.map Prod.fst).contains c then .ok (.obj fields)
    else .error (.exception "'dict' object has no attribute 'append'")
  | _ => .error (.exception "argument is not iterable")

end Eds
