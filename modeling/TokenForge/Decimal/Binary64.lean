/-
Numbers of the form m · 2^e with a mantissa of at most 53 bits, as machines
store them in 64 bits, and the one nearest to a decimal number. Everything is
exact arithmetic on natural numbers: a quotient is rounded once, a half to
the even neighbour.
-/
namespace TokenForge

/-- A positive number m · 2^e, or zero with m = 0. -/
structure Binary64 where
  mantissa : Nat
  exponent : Int
  deriving DecidableEq, Repr

namespace Binary64

/-- The least exponent: at it the mantissa may have fewer than 53 bits. -/
def minExponent : Int := -1074

/-- The greatest exponent. -/
def maxExponent : Int := 971

/-- The least mantissa of 53 bits. -/
def leastFull : Nat := Nat.pow 2 52

/-- The integer nearest to a quotient, a half to the even neighbour. -/
def roundDiv (num den : Nat) : Nat :=
  let q := num / den
  let r := num % den
  if 2 * r < den then q
  else if den < 2 * r then q + 1
  else q + q % 2

/-- A quotient divided by 2^e, as a quotient. -/
def scaleDown (num den : Nat) (e : Int) : Nat × Nat :=
  if 0 ≤ e then (num, den * Nat.pow 2 e.toNat)
  else (num * Nat.pow 2 (-e).toNat, den)

/-- The exponent at which a positive quotient has a mantissa of 53 bits,
raised to the least one. -/
def exponentFor (num den : Nat) : Int :=
  let guess : Int := (num.log2 : Int) - (den.log2 : Int) - 52
  let (n, d) := scaleDown num den guess
  max minExponent (if n < d * leastFull then guess - 1 else guess)

/-- The nearest number to a quotient; none if it is beyond the greatest. -/
def nearest? (num den : Nat) : Option Binary64 :=
  if num = 0 then some ⟨0, minExponent⟩
  else
    let e := exponentFor num den
    let (n, d) := scaleDown num den e
    let m := roundDiv n d
    let rounded : Binary64 :=
      if m = 2 * leastFull then ⟨leastFull, e + 1⟩ else ⟨m, e⟩
    if maxExponent < rounded.exponent then none else some rounded

/-- The nearest number to `digits` · 10^`exponent`. Decimals far beyond
either end of the range are decided by their size alone. -/
def ofDecimal? (digits : Nat) (exponent : Int) : Option Binary64 :=
  let size : Int := (toString digits).length + exponent
  if digits = 0 ∨ size < -400 then some ⟨0, minExponent⟩
  else if 400 < size then none
  else if 0 ≤ exponent then nearest? (digits * Nat.pow 10 exponent.toNat) 1
  else nearest? digits (Nat.pow 10 (-exponent).toNat)

end Binary64

end TokenForge
