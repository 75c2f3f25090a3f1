import Eds.Collections.Dict
import Eds.Drivers.Values

/-!
# The URL of a database

The getters read configuration values by their Go types, and the URL of a database is the
values one after the other: nothing in them is escaped.
-/

namespace Eds
namespace Drivers

open Collections

structure FieldError where
  field : String
  message : String
  deriving DecidableEq

abbrev Values := Dict String Json

/-- An empty string is a value. -/
def getRequiredStringValue (name : String) (values : Values) : String × Option FieldError :=
  match values.get? name with
  | some (.str v) => (v, none)
  | _ => ("", some ⟨name, s!"required field {name} not found"⟩)

/-- An empty string is no value. -/
def getOptionalStringValue (name default : String) (values : Values) : String :=
  match values.get? name with
  | some (.str v) => if v = "" then default else v
  | _ => default

def getOptionalIntValue (name : String) (default : Int) (values : Values) : Int :=
  match values.get? name with
  | some (.int n) => n
  | some (.str v) => (atoi v).getD default
  | _ => default

/-- An empty password keeps the colon. -/
def userinfo (username password : String) : String :=
  if username = "" then "" else username ++ ":" ++ password ++ "@"

def hostport (hostname : String) (defport port : Int) : String :=
  if 0 < defport then hostname ++ ":" ++ toString port else hostname

def urlFromDatabaseConfiguration (schema : String) (defport : Int) (values : Values) :
    String × List FieldError :=
  let (hostname, hostnameError) := getRequiredStringValue "Hostname" values
  let username := getOptionalStringValue "Username" "" values
  let password := getOptionalStringValue "Password" "" values
  let port := getOptionalIntValue "Port" defport values
  let (database, databaseError) := getRequiredStringValue "Database" values
  let errors := hostnameError.toList ++ databaseError.toList
  if errors ≠ [] then ("", errors)
  else
    (schema ++ "://" ++ userinfo username password ++ hostport hostname defport port ++ "/" ++
      database, [])

/-- The drivers that build their URL so. -/
inductive UrlDriver
  | postgresql
  | mysql
  | sqlserver
  | snowflake

/-- `validate_scheme()`; for Snowflake, the scheme that its `validate` gives. -/
def UrlDriver.validateScheme : UrlDriver → String
  | postgresql => "postgres"
  | mysql => "mysql"
  | sqlserver => "sqlserver"
  | snowflake => "snowflake"

/-! ## Accepted values -/

def Accepted (schema : String) (defport : Int) (values : Values) : Prop :=
  (urlFromDatabaseConfiguration schema defport values).2 = []

/-- The two sets of values agree everywhere but at `name`. -/
def DifferOnlyIn (name : String) (values values' : Values) : Prop :=
  ∀ key, key ≠ name → values'.get? key = values.get? key

def username (values : Values) : String := getOptionalStringValue "Username" "" values

def password (values : Values) : String := getOptionalStringValue "Password" "" values

def hostname (values : Values) : String := (getRequiredStringValue "Hostname" values).1

/-- What the URL has behind the `@`. -/
def location (defport : Int) (values : Values) : String :=
  hostport (hostname values) defport (getOptionalIntValue "Port" defport values) ++ "/" ++
    (getRequiredStringValue "Database" values).1

variable {schema : String} {defport : Int} {values values' : Values}

theorem errors_eq (schema : String) (defport : Int) (values : Values) :
    (urlFromDatabaseConfiguration schema defport values).2 =
      (getRequiredStringValue "Hostname" values).2.toList ++
        (getRequiredStringValue "Database" values).2.toList := by
  unfold urlFromDatabaseConfiguration
  dsimp only
  split
  · rfl
  · next herrors => exact (not_not.mp herrors).symm

theorem url_of_accepted (h : Accepted schema defport values) :
    (urlFromDatabaseConfiguration schema defport values).1 =
      schema ++ "://" ++ (userinfo (username values) (password values) ++
        location defport values) := by
  rw [Accepted, errors_eq] at h
  unfold urlFromDatabaseConfiguration
  dsimp only
  rw [if_neg (not_not.mpr h)]
  simp only [location, hostname, username, password, String.append_assoc]

theorem DifferOnlyIn.username (h : DifferOnlyIn "Password" values values') :
    username values' = username values := by
  rw [Drivers.username, Drivers.username, getOptionalStringValue, getOptionalStringValue,
    h "Username" (by decide)]

theorem DifferOnlyIn.location (h : DifferOnlyIn "Password" values values') (defport : Int) :
    location defport values' = location defport values := by
  simp only [Drivers.location, hostname, getRequiredStringValue, getOptionalIntValue,
    h "Hostname" (by decide), h "Port" (by decide), h "Database" (by decide)]

/-- Whether the values are accepted does not depend on the password. -/
theorem DifferOnlyIn.accepted (h : DifferOnlyIn "Password" values values')
    (haccepted : Accepted schema defport values) : Accepted schema defport values' := by
  rw [Accepted, errors_eq] at haccepted ⊢
  simp only [getRequiredStringValue, h "Hostname" (by decide), h "Database" (by decide)]
  exact haccepted

end Drivers
end Eds
