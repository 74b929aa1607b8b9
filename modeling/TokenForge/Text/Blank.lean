/-
White space in the sense of Unicode's `White_Space` property, and trimming
by it. The table has twenty-five characters and is complete: the invisible
characters beside them (the zero-width space, the byte order mark, the
Mongolian vowel separator) are letters as far as trimming goes.

Text that is cut up is a list of characters here; a `String` is opened with
`toList` where an operation starts and closed with `String.ofList` where it
ends, so that every rule is a rule about lists.
-/
namespace TokenForge.Text

-- ================================================== the character class

/-- Whether a character has the property `White_Space`. -/
def isBlank (c : Char) : Bool :=
  let n := c.toNat
  (0x09 ≤ n && n ≤ 0x0D) || n == 0x20 || n == 0x85 || n == 0xA0 || n == 0x1680
    || (0x2000 ≤ n && n ≤ 0x200A) || n == 0x2028 || n == 0x2029 || n == 0x202F
    || n == 0x205F || n == 0x3000

-- ============================================================= trimming

/-- A text without the blanks at its start. -/
def trimStart (s : List Char) : List Char := s.dropWhile isBlank

/-- A text without the blanks at its end. -/
def trimEnd (s : List Char) : List Char :=
  (s.reverse.dropWhile isBlank).reverse

/-- A text without the blanks at either end. -/
def trim (s : List Char) : List Char := trimEnd (trimStart s)

theorem trimStart_cons_of_isBlank {c : Char} (h : isBlank c = true)
    (s : List Char) :
    trimStart (c :: s) = trimStart s := by
  simp [trimStart, h]

theorem trimStart_cons_of_not_isBlank {c : Char} (h : isBlank c = false)
    (s : List Char) :
    trimStart (c :: s) = c :: s := by
  simp [trimStart, h]

/-- What is left after trimming the start does not begin with a blank. -/
theorem not_isBlank_of_trimStart_eq_cons {s t : List Char} {c : Char}
    (h : trimStart s = c :: t) : isBlank c = false := by
  induction s with
  | nil => simp [trimStart] at h
  | cons a r ih =>
    cases ha : isBlank a with
    | true => exact ih (by rwa [trimStart_cons_of_isBlank ha] at h)
    | false =>
      rw [trimStart_cons_of_not_isBlank ha] at h
      cases h
      exact ha

end TokenForge.Text
