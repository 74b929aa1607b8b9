/-
Numbers as words. Digits may be separated by single underscores; a decimal
number has no leading zero, and the other bases have a marker and no sign.
-/
import TokenForge.Text.Hex
import TokenForge.Text.Split
import TokenForge.Toml.Value

namespace TokenForge.Toml

-- ================================================================ digits

/-- The number written by digits of a base, after the number `acc`. An
underscore stands between two digits, so the word must not end when no digit
was read last. -/
def digitsFrom (base acc : Nat) (afterDigit : Bool) : List Char → Option Nat
  | [] => if afterDigit then some acc else none
  | c :: rest =>
    if c = '_' then if afterDigit then digitsFrom base acc false rest else none
    else do
      let d ← Text.hexValue? c
      if d < base then digitsFrom base (acc * base + d) true rest else none

/-- The number written by at least one digit of a base. -/
def digits? (base : Nat) (s : List Char) : Option Nat :=
  digitsFrom base 0 false s

/-- Whether decimal digits start with a zero that says nothing. -/
def hasLeadingZero : List Char → Bool
  | '0' :: _ :: _ => true
  | _ => false

/-- A decimal number without sign and without leading zero. -/
def decimal? (s : List Char) : Option Nat :=
  if hasLeadingZero s then none else digits? 10 s

/-- Whether a word is negative, and the word without its sign. -/
def cutSign : List Char → Bool × List Char
  | '-' :: rest => (true, rest)
  | '+' :: rest => (false, rest)
  | s => (false, s)

/-- A number with its sign. -/
def signed (negative : Bool) (n : Nat) : Int :=
  if negative then -(n : Int) else n

-- ============================================================== integers

/-- The integer a word writes. -/
def integer? : List Char → Option Int
  | '0' :: 'x' :: rest => (digits? 16 rest).map Int.ofNat
  | '0' :: 'o' :: rest => (digits? 8 rest).map Int.ofNat
  | '0' :: 'b' :: rest => (digits? 2 rest).map Int.ofNat
  | s =>
    let (negative, unsigned) := cutSign s
    (decimal? unsigned).map (signed negative)

-- ================================================================ floats

/-- A word before the letter of its exponent, and what follows the letter. -/
def cutExponent (s : List Char) : List Char × Option (List Char) :=
  let isMark := fun c => c == 'e' || c == 'E'
  (s.takeWhile fun c => !isMark c, (s.dropWhile fun c => !isMark c).tail?)

/-- The exponent after the letter: signed digits, with any leading zeros. -/
def exponent? (s : List Char) : Option Int :=
  let (negative, unsigned) := cutSign s
  (digits? 10 unsigned).map (signed negative)

/-- The digits before an exponent as one number, and how many of them follow
the point. -/
def mantissa? (s : List Char) : Option (Nat × Nat × Bool) :=
  match Text.cutFirst '.' s with
  | (whole, []) => do some (← decimal? whole, 0, false)
  | (whole, _ :: fraction) => do
    let w ← decimal? whole
    let f ← digits? 10 fraction
    let places := (fraction.filter (· != '_')).length
    some (w * Nat.pow 10 places + f, places, true)

/-- The floating-point number a word writes: it has a fraction, an exponent or
both, or is one of the two special words. -/
def float? (s : List Char) : Option FloatLiteral :=
  let (negative, unsigned) := cutSign s
  if unsigned = "inf".toList then some (.infinite negative)
  else if unsigned = "nan".toList then some .nan
  else
    match cutExponent unsigned with
    | (m, none) => do
      let (digits, places, hasPoint) ← mantissa? m
      if hasPoint then some (.finite negative digits (-(places : Int)))
      else none
    | (m, some e) => do
      let (digits, places, _) ← mantissa? m
      let power ← exponent? e
      some (.finite negative digits (power - places))

end TokenForge.Toml
