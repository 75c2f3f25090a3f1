import Mathlib.Data.List.DropRight

/-!
# Float texts

A double is known here by its shortest decimal text, as `repr` prints it.  The three
formatters read the digits and the exponent back from that text and print them in
another shape, so that what they do is arithmetic on digit strings.
-/

namespace Eds
namespace Util

/-- The value is the number `digits` times ten to the `exponent`.  The first digit
is not zero, and zero has no digits. -/
structure Decimal where
  neg : Bool
  digits : List (Fin 10)
  exponent : Int

def digit? (c : Char) : Option (Fin 10) :=
  if '0' ≤ c ∧ c ≤ '9' then some (Fin.ofNat 10 (c.toNat - '0'.toNat)) else none

def digitChar (d : Fin 10) : Char := Nat.digitChar d

def readNat (cs : List Char) : Nat :=
  (cs.filterMap digit?).foldl (fun n d => 10 * n + d) 0

def readInt : List Char → Int
  | '-' :: cs => -(readNat cs : Int)
  | cs => readNat cs

/-- `Decimal(repr(f))` -/
def Decimal.ofRepr (text : String) : Decimal :=
  let neg := text.startsWith "-"
  let mantissa := text.toList.takeWhile (· ≠ 'e')
  let exponent := readInt ((text.toList.dropWhile (· ≠ 'e')).drop 1)
  let whole := (mantissa.takeWhile (· ≠ '.')).filterMap digit?
  let fraction := (mantissa.dropWhile (· ≠ '.')).filterMap digit?
  ⟨neg, (whole ++ fraction).dropWhile (· = 0), exponent - fraction.length⟩

def isNan (text : String) : Bool := text == "nan"

def isInf (text : String) : Bool := text == "inf" || text == "-inf"

def isFinite (text : String) : Bool := !isNan text && !isInf text

def sign (neg : Bool) : String := if neg then "-" else ""

def digitText (ds : List (Fin 10)) : String := String.ofList (ds.map digitChar)

def zeros (n : Nat) : List (Fin 10) := List.replicate n 0

/-- Digits before and after the point; without digits after it there is no point. -/
def pointed (whole fraction : List (Fin 10)) : String :=
  match fraction.rdropWhile (· = 0) with
  | [] => digitText whole
  | d :: ds => digitText whole ++ "." ++ digitText (d :: ds)

/-- Plain decimal notation. -/
def formatF (text : String) : String :=
  if isNan text then "NaN"
  else if isInf text then (if text.startsWith "-" then "-Infinity" else "Infinity")
  else
    let d := Decimal.ofRepr text
    if d.digits = [] then sign d.neg ++ "0"
    else if 0 ≤ d.exponent then sign d.neg ++ digitText (d.digits ++ zeros d.exponent.toNat)
    else
      let places := (-d.exponent).toNat
      let n := d.digits.length
      if places < n then sign d.neg ++ pointed (d.digits.take (n - places)) (d.digits.drop (n - places))
      else sign d.neg ++ pointed [0] (zeros (places - n) ++ d.digits)

/-- At least two digits. -/
def exponentText (e : Int) : String :=
  (if 0 ≤ e then "+" else "-") ++ (if e.natAbs < 10 then "0" else "") ++ toString e.natAbs

/-- The notation for a first digit `d`, the digits `ds` after it and the exponent `e`
of the first one: exponential below `-4` and from `21` on. -/
def shortest (d : Fin 10) (ds : List (Fin 10)) (e : Int) : String :=
  if e < -4 ∨ 21 ≤ e then
    (if ds = [] then digitText [d] else digitText [d] ++ "." ++ digitText ds) ++ "e" ++ exponentText e
  else if e < 0 then "0." ++ digitText (zeros (-(e + 1)).toNat ++ d :: ds)
  else if ds.length ≤ e.toNat then digitText (d :: ds ++ zeros (e.toNat - ds.length))
  else digitText (d :: ds.take e.toNat) ++ "." ++ digitText (ds.drop e.toNat)

def formatG (text : String) : String :=
  if isNan text then "NaN"
  else if isInf text then (if text.startsWith "-" then "-Inf" else "+Inf")
  else
    let d := Decimal.ofRepr text
    match d.digits.rdropWhile (· = 0) with
    | [] => sign d.neg ++ "0"
    | first :: ds => sign d.neg ++ shortest first ds (d.exponent + d.digits.length - 1)

/-- `e-07` becomes `e-7`. -/
def trimExponent (text : String) : String :=
  match text.toList.reverse with
  | c :: '0' :: '-' :: 'e' :: rest => String.ofList (c :: '-' :: 'e' :: rest).reverse
  | _ => text

/-- Exponential below `1e-6` and from `1e21` on, where `repr` is exponential too. -/
def formatJson (text : String) : Except String String :=
  if isFinite text then
    let d := Decimal.ofRepr text
    let e := d.exponent + d.digits.length - 1
    if d.digits = [] then .ok (sign d.neg ++ "0")
    else if e < -6 ∨ 21 ≤ e then .ok (trimExponent text)
    else .ok (formatF text)
  else .error "json: unsupported value: non-finite float"

end Util
end Eds
