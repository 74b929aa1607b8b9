/-
The shortest decimal that reads back as a given number of 64 bits, written
without an exponent. Of the decimals with the fewest digits the nearest is
taken, and of two equally near ones the greater.

For each count of digits the number has two neighbours on the grid of
decimals with that many digits. The first grid on which a neighbour lies in
the interval of reals that round to the number gives the digits.
-/
import TokenForge.Decimal.Binary64

namespace TokenForge.Decimal

-- ============================================================ the interval

/-- The reals that round to a positive number: the number and both ends over
one denominator. The ends belong to the interval if the mantissa is even. -/
structure Interval where
  low : Nat
  value : Nat
  high : Nat
  den : Nat
  closed : Bool

/-- The interval of a number. Below a power of two the numbers stand twice as
close as above it. -/
def interval (x : Binary64) : Interval :=
  let below := if x.mantissa = Binary64.leastFull ∧ Binary64.minExponent
      < x.exponent then 1 else 2
  let scale := Nat.pow 2 (x.exponent - 2).toNat
  { low := (4 * x.mantissa - below) * scale
    value := 4 * x.mantissa * scale
    high := (4 * x.mantissa + 2) * scale
    den := Nat.pow 2 (2 - x.exponent).toNat
    closed := x.mantissa % 2 = 0 }

/-- Whether the quotient `n / d` lies in the interval. -/
def Interval.contains (i : Interval) (n d : Nat) : Bool :=
  if i.closed then i.low * d ≤ n * i.den && n * i.den ≤ i.high * d
  else i.low * d < n * i.den && n * i.den < i.high * d

-- ============================================================== the digits

/-- The least `j` from `j` on with `den ≤ num * 10^j`. -/
def leadingZeros (num den : Nat) : Nat → Nat → Nat
  | 0, j => j
  | turns + 1, j =>
      if den ≤ num * Nat.pow 10 j then j
      else leadingZeros num den turns (j + 1)

/-- How many digits a positive quotient has before the point; zero or less
counts the zeros after the point. -/
def magnitude (num den : Nat) : Int :=
  if den ≤ num then (toString (num / den)).length
  else 1 - (leadingZeros num den 400 1 : Int)

/-- The number `a · 10^t` as a quotient. -/
def gridPoint (a : Nat) (t : Int) : Nat × Nat :=
  if 0 ≤ t then (a * Nat.pow 10 t.toNat, 1) else (a, Nat.pow 10 (-t).toNat)

/-- The neighbour on the grid of multiples of 10^t that lies in the interval,
the nearer one if both do. -/
def neighbour? (i : Interval) (t : Int) : Option Nat :=
  let (n, d) := gridPoint 1 t
  let a := i.value * d / (i.den * n)
  let inside := fun b =>
    let (n, d) := gridPoint b t
    i.contains n d
  let remainder := i.value * d % (i.den * n)
  match 0 < a && inside a, inside (a + 1) with
  | true, true => some (if 2 * remainder < i.den * n then a else a + 1)
  | true, false => some a
  | false, true => some (a + 1)
  | false, false => none

/-- The digits and the power of ten of the shortest decimal, tried from
`count` digits on. The upper neighbour may be a power of ten, which ends in a
zero that is no digit of its own. -/
def shortestFrom (i : Interval) (p : Int) : Nat → Nat → Nat × Int
  | 0, _ => (0, 0)
  | turns + 1, count =>
    let t := p - count
    match neighbour? i t with
    | some a => if a % 10 = 0 then (a / 10, t + 1) else (a, t)
    | none => shortestFrom i p turns (count + 1)

/-- The digits and the power of ten of the shortest decimal of a positive
number; seventeen digits are always enough. -/
def shortest (x : Binary64) : Nat × Int :=
  let i := interval x
  shortestFrom i (magnitude i.value i.den) 20 1

-- ================================================================ the text

/-- The decimal `a · 10^t` written without an exponent, with at least one
digit after the point. -/
def positional (a : Nat) (t : Int) : String :=
  if 0 ≤ t then toString a ++ "".pushn '0' t.toNat ++ ".0"
  else
    let places := (-t).toNat
    let digits := (toString a).toList
    let padded := List.replicate (places + 1 - digits.length) '0' ++ digits
    let whole := padded.take (padded.length - places)
    let fraction := padded.drop (padded.length - places)
    String.ofList (whole ++ '.' :: fraction)

/-- A number of 64 bits in decimal. -/
def text (negative : Bool) (x : Binary64) : String :=
  let unsigned :=
    if x.mantissa = 0 then "0.0"
    else
      let (a, t) := shortest x
      positional a t
  (if negative then "-" else "") ++ unsigned

end TokenForge.Decimal
