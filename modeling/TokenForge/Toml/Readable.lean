/-
Numbers that machines hold, and values made of them. A document may have
integers of 64 bits with or without a sign. A floating-point number that is
not written as infinite must not be beyond the greatest one. Other numbers can
be written, but nobody can read them.
-/
import TokenForge.Decimal.Binary64
import TokenForge.Toml.Value

namespace TokenForge.Toml

-- =============================================================== numbers

/-- The first integer beyond those of so many bits without sign. -/
def limit (bits : Nat) : Int := Nat.pow 2 bits

/-- Whether 64 bits with a sign hold an integer. -/
def fitsSigned (n : Int) : Bool := -limit 63 ≤ n && n < limit 63

/-- Whether 64 bits without a sign hold an integer. -/
def fitsUnsigned (n : Int) : Bool := 0 ≤ n && n < limit 64

/-- Whether a floating-point number is not beyond the greatest one, unless it
is written as infinite. -/
def FloatLiteral.fits : FloatLiteral → Bool
  | .finite _ digits exponent => (Binary64.ofDecimal? digits exponent).isSome
  | .infinite _ => true
  | .nan => true

/-- Whether 64 bits hold a value, if it is a number. -/
def Value.isHeld : Value → Bool
  | .integer n => fitsSigned n || fitsUnsigned n
  | .float x => x.fits
  | _ => true

-- ============================================================== readable

mutual

/-- Whether 64 bits hold every number in a value. -/
def Value.isReadable : Value → Bool
  | .array items => areReadable items
  | .table entries => entriesReadable entries
  | v => v.isHeld

/-- Whether 64 bits hold every number in a list of values. -/
def areReadable : List Value → Bool
  | [] => true
  | v :: rest => v.isReadable && areReadable rest

/-- Whether 64 bits hold every number in the entries of a table. -/
def entriesReadable : List (String × Value) → Bool
  | [] => true
  | (_, v) :: rest => v.isReadable && entriesReadable rest

end

end TokenForge.Toml
