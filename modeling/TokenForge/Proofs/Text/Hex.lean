/-
Numbers of a fixed width read back: what is written to a width is read to
its last digit and no further (`readHex_hexFixed`), so a digit that happens
to follow never joins the number. The reader carries the number of the
digits so far, and the writer puts the highest digit first; the induction is
on the width, with the digits still to come as a parameter.
-/
import Mathlib.Algebra.Group.Nat.Defs
import TokenForge.Text.Hex

namespace TokenForge.Text

/-- A digit read after others joins their number. -/
theorem readHex_go_succ (width acc d : Nat) (hd : d < 16) (rest : List Char) :
    readHex.go (width + 1) acc (hexDigit d :: rest)
      = readHex.go width (acc * 16 + d) rest := by
  simp only [readHex.go, hexValue?_hexDigit d hd]
  rfl

/-- Digits of a fixed width are read to the last and no further. -/
theorem readHex_go_hexFixed (width : Nat) :
    ∀ (more acc n : Nat) (rest : List Char), n < 16 ^ width →
      readHex.go (width + more) acc (hexFixed width n ++ rest)
        = readHex.go more (acc * 16 ^ width + n) rest := by
  induction width with
  | zero =>
      intro more acc n rest hn
      have h0 : n = 0 := by omega
      subst h0
      simp [hexFixed]
  | succ width ih =>
      intro more acc n rest hn
      have hhi : n / 16 < 16 ^ width := by
        rw [Nat.pow_succ] at hn
        omega
      have hstep := ih (more + 1) acc (n / 16) (hexDigit (n % 16) :: rest) hhi
      rw [hexFixed, List.append_assoc, List.singleton_append,
        show width + 1 + more = width + (more + 1) from by omega, hstep,
        readHex_go_succ _ _ _ (Nat.mod_lt _ (by decide))]
      congr 1
      rw [Nat.pow_succ, Nat.add_mul, Nat.mul_assoc, Nat.add_assoc]
      omega

/-- What is written to a fixed width reads back, whatever follows. -/
theorem readHex_hexFixed {width n : Nat} (hn : n < 16 ^ width)
    (rest : List Char) :
    readHex width (hexFixed width n ++ rest) = some (n, rest) := by
  have h := readHex_go_hexFixed width 0 0 n rest hn
  unfold readHex
  rw [Nat.add_zero] at h
  rw [h]
  simp [readHex.go]

theorem toNat_hexDigit : ∀ d, d < 16 →
    (48 ≤ (hexDigit d).toNat ∧ (hexDigit d).toNat ≤ 57)
      ∨ (97 ≤ (hexDigit d).toNat ∧ (hexDigit d).toNat ≤ 102) := by
  decide

theorem mem_hexFixed {width n : Nat} {c : Char} (hc : c ∈ hexFixed width n) :
    ∃ d, d < 16 ∧ c = hexDigit d := by
  induction width generalizing n with
  | zero => cases hc
  | succ width ih =>
      rw [hexFixed, List.mem_append, List.mem_singleton] at hc
      rcases hc with hc | rfl
      · exact ih hc
      · exact ⟨n % 16, Nat.mod_lt _ (by decide), rfl⟩

end TokenForge.Text
