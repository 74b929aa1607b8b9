/-
Hexadecimal digits in the lower case, written to a fixed width or without
leading zeros, and read back in either case.
-/
namespace TokenForge.Text

/-- The digit of a number below sixteen. -/
def hexDigit (d : Nat) : Char :=
  if d < 10 then Char.ofNat (48 + d) else Char.ofNat (87 + d)

/-- The last `width` digits of a number, the highest first. -/
def hexFixed : Nat → Nat → List Char
  | 0, _ => []
  | width + 1, n => hexFixed width (n / 16) ++ [hexDigit (n % 16)]

/-- The digits of a number without leading zeros; zero has one digit. -/
def hex (n : Nat) : List Char :=
  if n < 16 then [hexDigit n] else hex (n / 16) ++ [hexDigit (n % 16)]

/-- The value of a digit, in either case. -/
def hexValue? (c : Char) : Option Nat :=
  let n := c.toNat
  if 48 ≤ n ∧ n ≤ 57 then some (n - 48)
  else if 97 ≤ n ∧ n ≤ 102 then some (n - 87)
  else if 65 ≤ n ∧ n ≤ 70 then some (n - 55)
  else none

theorem hexValue?_hexDigit :
    ∀ d, d < 16 → hexValue? (hexDigit d) = some d := by
  decide

/-- Reads exactly `width` digits; gives the number and what follows. -/
def readHex (width : Nat) (s : List Char) : Option (Nat × List Char) :=
  go width 0 s
where
  /-- The digits read so far are the number `acc`. -/
  go : Nat → Nat → List Char → Option (Nat × List Char)
    | 0, acc, s => some (acc, s)
    | _ + 1, _, [] => none
    | width + 1, acc, c :: s => do
      let d ← hexValue? c
      go width (acc * 16 + d) s

end TokenForge.Text
