/-
Numbers in decimal. Any digits stand for a number (`Nat.ofDigitChars`), and a
number is written with some of them (`Nat.toDigits`). The two undo each other
up to zeros in front: among all ways to write a number there is one without
them (`Canonical`), it is the one that is written (`toDigits_ofDigitChars`),
and every other way is this one behind zeros (`exists_zeros_append_toDigits`).
-/
import Mathlib.Data.List.Basic

namespace TokenForge.Text

/-- Characters that are all decimal digits. -/
def AllDigits (s : List Char) : Prop := ∀ c ∈ s, c.isDigit = true

instance (s : List Char) : Decidable (AllDigits s) := List.decidableBAll _ s

/-- Digits in the form a number is written in: at least one, and none of them a
zero that others follow. -/
structure Canonical (s : List Char) : Prop where
  digits : AllDigits s
  nonempty : s ≠ []
  unpadded : s.head? = some '0' → s = ['0']

variable {s t : List Char} {c : Char} {n : Nat}

-- ============================================================= one digit

theorem ne_of_isDigit {d : Char} (hc : c.isDigit = true)
    (hd : d.isDigit = false) : c ≠ d := by
  rintro rfl
  rw [hc] at hd
  cases hd

theorem toNat_of_isDigit (h : c.isDigit = true) :
    48 ≤ c.toNat ∧ c.toNat ≤ 57 := by
  simpa [Char.isDigit, UInt32.le_iff_toNat_le] using h

/-- A digit is the one of its value. -/
theorem digitChar_of_isDigit (h : c.isDigit = true) :
    c.toNat - '0'.toNat < 10 ∧ Nat.digitChar (c.toNat - '0'.toNat) = c := by
  have hrange := toNat_of_isDigit h
  have hlt : c.toNat - 48 < 10 := by omega
  refine ⟨hlt, Char.toNat_inj.1 ?_⟩
  show (Nat.digitChar (c.toNat - 48)).toNat = c.toNat
  rw [Nat.toNat_digitChar_of_lt_ten hlt]
  omega

-- ============================================================= the digits

theorem allDigits_toDigits (n : Nat) : AllDigits (Nat.toDigits 10 n) :=
  fun _ hc => Nat.isDigit_of_mem_toDigits (by decide) (by decide) hc

/-- Only zero is written as a zero. -/
theorem toDigits_eq_zero (h : Nat.toDigits 10 n = ['0']) : n = 0 := by
  have hvalue := Nat.ofDigitChars_ten_toDigits (n := n)
  rw [h] at hvalue
  exact hvalue.symm

/-- A number is written without zeros in front. -/
theorem canonical_toDigits (n : Nat) : Canonical (Nat.toDigits 10 n) where
  digits := allDigits_toDigits n
  nonempty := Nat.toDigits_ne_nil
  unpadded := by
    induction n using Nat.strongRecOn with
    | _ n ih =>
        rw [Nat.toDigits_eq_if (by decide)]
        by_cases hn : n < 10
        · rw [if_pos hn]
          intro h
          rw [Option.some.inj h]
        · rw [if_neg hn, List.head?_append_of_ne_nil _ Nat.toDigits_ne_nil]
          intro h
          have hzero := toDigits_eq_zero (ih (n / 10) (by omega) h)
          omega

/-- Digits that follow a number other than zero go on from
what is written for it. -/
theorem toDigits_append (hn : 0 < n) (h : AllDigits s) :
    Nat.toDigits 10 n ++ s = Nat.toDigits 10 (Nat.ofDigitChars 10 s n) := by
  induction s generalizing n with
  | nil => rw [List.append_nil, Nat.ofDigitChars_nil]
  | cons c s ih =>
      obtain ⟨hc, hs⟩ := List.forall_mem_cons.1 h
      obtain ⟨hlt, hchar⟩ := digitChar_of_isDigit hc
      have hone : Nat.toDigits 10 (c.toNat - '0'.toNat) = [c] := by
        rw [Nat.toDigits_of_lt_base hlt, hchar]
      calc Nat.toDigits 10 n ++ c :: s
          = (Nat.toDigits 10 n ++ Nat.toDigits 10 (c.toNat - '0'.toNat))
            ++ s := by
            rw [hone, List.append_assoc, List.singleton_append]
        _ = Nat.toDigits 10 (10 * n + (c.toNat - '0'.toNat)) ++ s := by
            rw [Nat.toDigits_append_toDigits (by decide) hn hlt]
        _ = Nat.toDigits 10 (Nat.ofDigitChars 10 (c :: s) n) := by
            rw [ih (by omega) hs, Nat.ofDigitChars_cons]

/-- Digits without zeros in front are the way their number is written. -/
theorem toDigits_ofDigitChars (h : Canonical s) :
    Nat.toDigits 10 (Nat.ofDigitChars 10 s 0) = s := by
  obtain ⟨c, s, rfl⟩ := List.exists_cons_of_ne_nil h.nonempty
  obtain ⟨hc, hs⟩ := List.forall_mem_cons.1 h.digits
  obtain ⟨hlt, hchar⟩ := digitChar_of_isDigit hc
  rw [Nat.ofDigitChars_cons, Nat.mul_zero, Nat.zero_add]
  by_cases hzero : c = '0'
  · have hnil : s = [] := (List.cons.inj (h.unpadded (congrArg some hzero))).2
    rw [hnil, hzero]
    rfl
  · have hpos : 0 < c.toNat - '0'.toNat := by
      rw [Nat.pos_iff_ne_zero]
      intro heq
      rw [heq] at hchar
      exact hzero hchar.symm
    rw [← toDigits_append hpos hs, Nat.toDigits_of_lt_base hlt, hchar,
      List.singleton_append]

-- ======================================================== zeros in front

/-- Some zeros. -/
def Zeros (s : List Char) : Prop := ∀ c ∈ s, c = '0'

theorem ofDigitChars_zeros_append (h : Zeros s) :
    Nat.ofDigitChars 10 (s ++ t) 0 = Nat.ofDigitChars 10 t 0 := by
  rw [Nat.ofDigitChars_append, List.eq_replicate_of_mem h,
    Nat.ofDigitChars_replicate_zero, Nat.mul_zero]

/-- Digits are zeros before digits that have none in front. -/
theorem exists_zeros_append (h : AllDigits s) (hne : s ≠ []) :
    ∃ zeros t, s = zeros ++ t ∧ Zeros zeros ∧ Canonical t := by
  induction s with
  | nil => exact absurd rfl hne
  | cons c s ih =>
      by_cases hpadded : c = '0' ∧ s ≠ []
      · obtain ⟨rfl, hs⟩ := hpadded
        obtain ⟨zeros, t, rfl, hzeros, ht⟩ :=
          ih (List.forall_mem_cons.1 h).2 hs
        exact ⟨'0' :: zeros, t, rfl, List.forall_mem_cons.2 ⟨rfl, hzeros⟩, ht⟩
      · refine ⟨[], c :: s, rfl, fun _ hc => absurd hc List.not_mem_nil,
          h, hne, ?_⟩
        intro hzero
        have hc := Option.some.inj hzero
        rw [hc, not_not.1 fun hs => hpadded ⟨hc, hs⟩]

/-- Digits are the written form of their number behind zeros. -/
theorem exists_zeros_append_toDigits (h : AllDigits s) (hne : s ≠ []) :
    ∃ zeros, s = zeros ++ Nat.toDigits 10 (Nat.ofDigitChars 10 s 0)
      ∧ Zeros zeros := by
  obtain ⟨zeros, t, rfl, hzeros, ht⟩ := exists_zeros_append h hne
  refine ⟨zeros, ?_, hzeros⟩
  rw [ofDigitChars_zeros_append hzeros, toDigits_ofDigitChars ht]

end TokenForge.Text
