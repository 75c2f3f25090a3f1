import Eds.Event

/-!
# Value texts shared by the SQL builders
-/

namespace Eds
namespace Util

def quoteIdentifier (name : String) : String := "\"" ++ name ++ "\""

def isEmptyVal (val : String) : Bool := val == "''" || val == "" || val == "NULL" || val == "null"

def isAsciiDigit (c : Char) : Bool := decide ('0' ≤ c) && decide (c ≤ '9')

/-- `[+-]?([0-9]*[.])?[0-9]+` at the start of the text. -/
def startsWithNumber (cs : List Char) : Bool :=
  let unsigned := match cs with
    | '+' :: rest | '-' :: rest => rest
    | rest => rest
  match unsigned with
  | '.' :: c :: _ => isAsciiDigit c
  | c :: _ => isAsciiDigit c
  | [] => false

/-- The anchors bind one alternative each: a number in front, or a boolean at the end. -/
def looksScalar (val : String) : Bool :=
  startsWithNumber val.toList || val.endsWith "true" || val.endsWith "false"

def quoteJsonScalar (val : String) (prop : SchemaProperty) : String :=
  if prop.type == "object" && looksScalar val then "'" ++ val ++ "'" else val

/-- An empty value of a column that is not null becomes an empty array or object. -/
def toJsonStringVal (val : String) (prop : SchemaProperty) (quoteScalar : Bool) : String :=
  if prop.isArrayOrJson && prop.isNotNull && isEmptyVal val then
    if prop.type == "array" then "'[]'" else "'\x7b\x7d'"
  else if quoteScalar then quoteJsonScalar val prop
  else val

end Util
end Eds
