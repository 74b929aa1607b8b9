/-
Bytes read as UTF-8 where some may be wrong. Each longest beginning of a
character that is not completed, and each byte that begins none, is shown as
the replacement character U+FFFD.
-/
namespace TokenForge.Text

/-- The replacement character. -/
def replacement : Char := '\ufffd'

/-- For a byte that begins a character of several bytes: the bits it gives,
how many bytes follow, and the range of the first of them. The range excludes
overlong forms, surrogates and numbers beyond U+10FFFF. -/
def leadByte? (b : UInt8) : Option (Nat × Nat × UInt8 × UInt8) :=
  if 0xC2 ≤ b ∧ b ≤ 0xDF then some (b.toNat - 0xC0, 1, 0x80, 0xBF)
  else if b = 0xE0 then some (0, 2, 0xA0, 0xBF)
  else if b = 0xED then some (0xD, 2, 0x80, 0x9F)
  else if 0xE1 ≤ b ∧ b ≤ 0xEF then some (b.toNat - 0xE0, 2, 0x80, 0xBF)
  else if b = 0xF0 then some (0, 3, 0x90, 0xBF)
  else if 0xF1 ≤ b ∧ b ≤ 0xF3 then some (b.toNat - 0xF0, 3, 0x80, 0xBF)
  else if b = 0xF4 then some (4, 3, 0x80, 0x8F)
  else none

/-- The character that `need` more bytes complete, `code` being the bits so
far; the first of these bytes lies between `low` and `high`. -/
def completeChar (code : Nat) :
    Nat → UInt8 → UInt8 → List UInt8 → Char × List UInt8
  | 0, _, _, s => (Char.ofNat code, s)
  | _ + 1, _, _, [] => (replacement, [])
  | need + 1, low, high, b :: s =>
    if low ≤ b ∧ b ≤ high then
      completeChar (code * 64 + (b.toNat - 0x80)) need 0x80 0xBF s
    else (replacement, b :: s)

/-- The characters of bytes; each turn takes at least one byte. -/
def decodeLossyFrom : Nat → List UInt8 → List Char
  | 0, _ => []
  | _ + 1, [] => []
  | turns + 1, b :: s =>
    if b < 0x80 then Char.ofNat b.toNat :: decodeLossyFrom turns s
    else
      match leadByte? b with
      | none => replacement :: decodeLossyFrom turns s
      | some (code, need, low, high) =>
        let (c, rest) := completeChar code need low high s
        c :: decodeLossyFrom turns rest

/-- The text of bytes, wrong ones replaced. -/
def decodeLossy (bytes : List UInt8) : String :=
  String.ofList (decodeLossyFrom bytes.length bytes)

end TokenForge.Text
