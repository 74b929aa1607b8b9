/-
Why a TOML table is no option record, in the words a user reads: a field is
missing, has a value of another type, or names a choice that does not exist.
-/
import TokenForge.Decimal.Shortest
import TokenForge.Text.Quoted
import TokenForge.Toml.Value

namespace TokenForge

-- ================================================== descriptions of values

/-- An infinite number as shown. -/
def infinityText (negative : Bool) : String :=
  if negative then "-inf" else "inf"

/-- A floating-point number as shown; beyond the greatest it is infinite. -/
def Toml.FloatLiteral.shown : Toml.FloatLiteral → String
  | .finite negative digits exponent =>
    match Binary64.ofDecimal? digits exponent with
    | some x => Decimal.text negative x
    | none => infinityText negative
  | .infinite negative => infinityText negative
  | .nan => "NaN"

/-- The type of a value as a message names it, with the value if it is
short. Dates and times count as tables. -/
def Toml.Value.describe : Toml.Value → String
  | .string text => "string " ++ Text.quote text
  | .integer n => "integer `" ++ toString n ++ "`"
  | .float x => "floating point `" ++ x.shown ++ "`"
  | .boolean b => "boolean `" ++ (if b then "true" else "false") ++ "`"
  | .moment => "map"
  | .array _ => "sequence"
  | .table _ => "map"

-- =================================================================== faults

/-- What a value should have been. -/
inductive Expected where
  | text
  | boolean
  | standardName
  | nameOrTable
  | emptyTable
  deriving DecidableEq, Repr

/-- The wording of an expectation. -/
def Expected.message : Expected → String
  | .text => "a string"
  | .boolean => "a boolean"
  | .standardName => "variant identifier"
  | .nameOrTable => "string or map"
  | .emptyTable => "unit"

/-- Why a table is no option record. -/
inductive Fault where
  | missingField (field : String)
  /-- A value has the type `found`. -/
  | wrongType (found : String) (expected : Expected)
  /-- A name is none of the known ones. -/
  | unknownName (given : String) (known : List String)
  /-- A number beyond those with a sign stands where a choice is named. It is
  taken for the place of the choice, of which there are `count`. -/
  | wrongPlace (given : Int) (count : Nat)
  /-- A table that should name one choice has no key or several. -/
  | severalKeys
  deriving DecidableEq, Repr

/-- A list of names as a message shows it. -/
def Fault.oneOf : List String → String
  | [] => "there are no variants"
  | [a] => "expected `" ++ a ++ "`"
  | [a, b] => "expected `" ++ a ++ "` or `" ++ b ++ "`"
  | names => "expected one of "
    ++ ", ".intercalate (names.map fun n => "`" ++ n ++ "`")

/-- The wording of a fault. -/
def Fault.message : Fault → String
  | .missingField field => "missing field `" ++ field ++ "`"
  | .wrongType found expected =>
      "invalid type: " ++ found ++ ", expected " ++ expected.message
  | .unknownName given known =>
      "unknown variant `" ++ given ++ "`, " ++ oneOf known
  | .wrongPlace given count =>
    "invalid value: integer `" ++ toString given
      ++ "`, expected variant index 0 <= i < "
      ++ toString count
  | .severalKeys => "invalid value: map, expected map with a single key"

end TokenForge
