/-
Literals are self-delimiting: reading at the head of `encode s ++ rest`
stops at the closing quote that `encode` wrote, whatever `rest` is, and
gives the UTF-8 bytes of `s` (`read_encode`).

The reader works by turns and the writer by characters, so the bridge is
one equation: a character's text costs one turn and gives the character's
bytes (`readBody_encodeChar`). Its cases are the writer's cases. The two
hexadecimal ones are where something could go wrong: the escapes have a
fixed width, so a digit that follows in the text is never taken in
(`readHex_hexFixed`), and the value of a two-digit escape is a byte, which
is the character's encoding because only ASCII is written that way.

The second half says what the writer never writes: no control character,
no separator, no direction mark, and outside the `unicode` form nothing but
printable ASCII. Both follow from one statement about a single character
(`encodeChar_cases`).
-/
import TokenForge.Proofs.Text.Hex
import TokenForge.Solidity.Literal

namespace TokenForge.Solidity.Literal

open Text

-- ==================================================== one character back

/-- The bytes that reading a character adds in front of the rest's. -/
private def prepend (bytes : List UInt8) (r : List UInt8 × List Char) :
    List UInt8 × List Char :=
  (bytes ++ r.1, r.2)

/-- A character of ASCII is its own byte. -/
theorem utf8EncodeChar_of_isAscii {c : Char} (h : c.toNat < 0x80) :
    String.utf8EncodeChar c = [c.toNat.toUInt8] := by
  have hv : c.val ≤ 127 := by
    rw [UInt32.le_iff_toNat_le]
    have : c.toNat = c.val.toNat := rfl
    have : (127 : UInt32).toNat = 127 := rfl
    omega
  rw [String.utf8EncodeChar_eq_singleton (Char.utf8Size_eq_one_iff.2 hv)]
  rfl

/-- An escape is one turn of the reader. -/
theorem readBody_backslash {turns : Nat} {s rest : List Char}
    {bytes : List UInt8} (h : readEscape s = some (bytes, rest)) :
    readBody (turns + 1) ('\\' :: s)
      = (readBody turns rest).map (prepend bytes) := by
  simp only [readBody, h, if_neg (by decide : ¬('\\' = '"')), if_pos,
    Option.bind_eq_bind, Option.bind_some]
  cases readBody turns rest <;> rfl

/-- A character that stands for itself is one turn of the reader. -/
theorem readBody_plain {turns : Nat} {c : Char} (hq : c ≠ '"') (hb : c ≠ '\\')
    (s : List Char) :
    readBody (turns + 1) (c :: s)
      = (readBody turns s).map (prepend (String.utf8EncodeChar c)) := by
  simp only [readBody, if_neg hq, if_neg hb]
  cases readBody turns s <;> rfl

/-- The two-digit escape of an ASCII character. -/
theorem readEscape_byte {c : Char} (h : c.toNat < 0x80) (rest : List Char) :
    readEscape ('x' :: (hexFixed 2 c.toNat ++ rest))
      = some (String.utf8EncodeChar c, rest) := by
  have hread : readHex 2 (hexFixed 2 c.toNat ++ rest) = some (c.toNat, rest) :=
    readHex_hexFixed (by omega) rest
  rw [utf8EncodeChar_of_isAscii h]
  simp [readEscape, hread]

/-- The four-digit escape of a character of the basic plane. -/
theorem readEscape_char {c : Char} (h : c.toNat < 0x10000) (rest : List Char) :
    readEscape ('u' :: (hexFixed 4 c.toNat ++ rest))
      = some (String.utf8EncodeChar c, rest) := by
  have hread : readHex 4 (hexFixed 4 c.toNat ++ rest) = some (c.toNat, rest) :=
    readHex_hexFixed (by omega) rest
  simp [readEscape, hread]

/-- The characters that take a four-digit escape are in the basic plane. -/
theorem toNat_lt_of_escaped {c : Char}
    (h : (isControl c || isLineSeparator c || isBidiControl c) = true) :
    c.toNat < 0x10000 := by
  simp only [isControl, isAsciiControl, isLineSeparator, isBidiControl,
    Bool.or_eq_true, Bool.and_eq_true, decide_eq_true_eq, beq_iff_eq] at h
  omega

/-- A character's text costs the reader one turn and gives its bytes. -/
theorem readBody_encodeChar (turns : Nat) (c : Char) (rest : List Char) :
    readBody (turns + 1) (encodeChar c ++ rest)
      = (readBody turns rest).map (prepend (String.utf8EncodeChar c)) := by
  unfold encodeChar
  split
  case isTrue h => subst h; exact readBody_backslash rfl
  case isFalse hq =>
  split
  case isTrue h => subst h; exact readBody_backslash rfl
  case isFalse hb =>
  split
  case isTrue h => subst h; exact readBody_backslash rfl
  split
  case isTrue h => subst h; exact readBody_backslash rfl
  split
  case isTrue h => subst h; exact readBody_backslash rfl
  split
  case isTrue h =>
      have hlt : c.toNat < 0x80 := by
        simp only [isAsciiControl, Bool.or_eq_true, decide_eq_true_eq,
          beq_iff_eq] at h
        omega
      exact readBody_backslash (readEscape_byte hlt rest)
  split
  case isTrue h =>
      exact readBody_backslash (readEscape_char (toNat_lt_of_escaped h) rest)
  case isFalse => exact readBody_plain hq hb rest

-- ===================================================== the whole literal

/-- The text between the quotes reads back, given a turn for every
character and one for the closing quote. -/
theorem readBody_encodeBody (s rest : List Char) :
    ∀ turns, s.length < turns →
      readBody turns (encodeBody s ++ '"' :: rest)
        = some (s.flatMap String.utf8EncodeChar, rest) := by
  induction s with
  | nil =>
      intro turns hturns
      obtain ⟨n, rfl⟩ : ∃ n, turns = n + 1 := ⟨turns - 1, by omega⟩
      simp [encodeBody, readBody]
  | cons c s ih =>
      intro turns hturns
      rw [List.length_cons] at hturns
      obtain ⟨n, rfl⟩ : ∃ n, turns = n + 1 := ⟨turns - 1, by omega⟩
      rw [encodeBody_cons, List.append_assoc, readBody_encodeChar,
        ih n (by omega)]
      rfl

theorem length_le_encodeBody (s : List Char) :
    s.length ≤ (encodeBody s).length := by
  induction s with
  | nil => exact Nat.le_refl _
  | cons c s ih =>
      have hpos : 1 ≤ (encodeChar c).length := by
        unfold encodeChar
        repeat' split
        all_goals simp
      rw [encodeBody_cons, List.length_append, List.length_cons]
      omega

/-- A literal at the head of a text is read to its closing quote. -/
theorem read_encode (s rest : List Char) :
    read (encode s ++ rest)
      = some (s.flatMap String.utf8EncodeChar, rest) := by
  have hlen := length_le_encodeBody s
  have hbody := readBody_encodeBody s rest
    ((encodeBody s ++ '"' :: rest).length + 1)
    (by rw [List.length_append, List.length_cons]; omega)
  unfold encode marker
  split
  · simpa [read] using hbody
  · simpa [read] using hbody

-- ================================================= what is never written

/-- Whether a character is in ASCII and visible, or the space. -/
def Printable (c : Char) : Prop := 0x20 ≤ c.toNat ∧ c.toNat ≤ 0x7E

instance (c : Char) : Decidable (Printable c) := by
  unfold Printable
  infer_instance

theorem printable_escape {letter : Char} (hl : Printable letter)
    {s : List Char} (hs : ∀ x ∈ s, Printable x) :
    ∀ x ∈ '\\' :: letter :: s, Printable x := by
  intro x hx
  rcases List.mem_cons.1 hx with rfl | hx
  · decide
  rcases List.mem_cons.1 hx with rfl | hx
  · exact hl
  · exact hs x hx

theorem printable_letterEscape {letter : Char} (hl : Printable letter) :
    ∀ x ∈ ['\\', letter], Printable x :=
  printable_escape hl fun _ hx => absurd hx List.not_mem_nil

theorem printable_hexEscape {letter : Char} (hl : Printable letter)
    (width n : Nat) :
    ∀ x ∈ '\\' :: letter :: hexFixed width n, Printable x := by
  refine printable_escape hl fun x hx => ?_
  obtain ⟨d, hd, rfl⟩ := mem_hexFixed hx
  have := toNat_hexDigit d hd
  unfold Printable
  omega

/-- A character is written in printable ASCII, or as it is: then it lies
beyond ASCII and is none of those that are escaped. -/
theorem encodeChar_cases (c : Char) :
    (∀ x ∈ encodeChar c, Printable x)
      ∨ (encodeChar c = [c] ∧ 0x80 ≤ c.toNat
        ∧ (isControl c || isLineSeparator c || isBidiControl c) = false) := by
  unfold encodeChar
  split
  · exact Or.inl (printable_letterEscape (by decide))
  split
  · exact Or.inl (printable_letterEscape (by decide))
  split
  · exact Or.inl (printable_letterEscape (by decide))
  split
  · exact Or.inl (printable_letterEscape (by decide))
  split
  · exact Or.inl (printable_letterEscape (by decide))
  split
  · exact Or.inl (printable_hexEscape (by decide) _ _)
  split
  · exact Or.inl (printable_hexEscape (by decide) _ _)
  · -- the character stands for itself: ASCII without its controls, or beyond
    rename_i hctl hesc
    simp only [isAsciiControl, Bool.or_eq_true, decide_eq_true_eq,
      beq_iff_eq] at hctl
    by_cases h80 : c.toNat < 0x80
    · left
      intro x hx
      rw [List.mem_singleton.1 hx]
      unfold Printable
      omega
    · exact Or.inr ⟨rfl, by omega, by simpa using hesc⟩

theorem printable_encodeBody {s : List Char} (h : s.all isAscii = true) :
    ∀ x ∈ encodeBody s, Printable x := by
  intro x hx
  obtain ⟨c, hc, hx⟩ := List.mem_flatMap.1 hx
  rcases encodeChar_cases c with hp | ⟨-, h80, -⟩
  · exact hp x hx
  · have hascii := List.all_eq_true.1 h c hc
    simp only [isAscii, decide_eq_true_eq] at hascii
    omega

/-- The code points that no literal contains: the control characters, the
separators of lines and paragraphs, and the marks of writing direction. -/
def Forbidden (n : Nat) : Prop :=
  n < 0x20 ∨ (0x7F ≤ n ∧ n ≤ 0x9F) ∨ n = 0x2028 ∨ n = 0x2029
    ∨ (0x202A ≤ n ∧ n ≤ 0x202E) ∨ (0x2066 ≤ n ∧ n ≤ 0x2069)

theorem not_forbidden_of_printable {c : Char} (h : Printable c) :
    ¬Forbidden c.toNat := by
  unfold Printable at h
  unfold Forbidden
  omega

/-- Nothing forbidden stands between the quotes. -/
theorem not_forbidden_encodeBody {s : List Char} :
    ∀ x ∈ encodeBody s, ¬Forbidden x.toNat := by
  intro x hx
  obtain ⟨c, -, hx⟩ := List.mem_flatMap.1 hx
  rcases encodeChar_cases c with hp | ⟨heq, h80, hesc⟩
  · exact not_forbidden_of_printable (hp x hx)
  · rw [heq, List.mem_singleton] at hx
    subst hx
    simp only [isControl, isAsciiControl, isLineSeparator, isBidiControl,
      Bool.or_eq_false_iff, Bool.and_eq_false_iff, decide_eq_false_iff_not,
      beq_eq_false_iff_ne] at hesc
    unfold Forbidden
    omega

/-- The mark before the quote is there exactly for texts beyond ASCII. -/
theorem marker_prefix_encode_iff (s : List Char) :
    "unicode".toList <+: encode s ↔ ∃ c ∈ s, 0x80 ≤ c.toNat := by
  unfold encode marker
  split
  case isTrue h =>
      have hnone : ¬∃ c ∈ s, 0x80 ≤ c.toNat := by
        rintro ⟨c, hc, h80⟩
        have hascii := List.all_eq_true.1 h c hc
        simp only [isAscii, decide_eq_true_eq] at hascii
        omega
      simp [hnone]
  case isFalse h =>
      have hsome : ∃ c ∈ s, 0x80 ≤ c.toNat := by
        simpa [isAscii] using h
      simp only [List.append_assoc, List.prefix_append, true_iff]
      exact hsome

/-- The characters of a literal: its mark, its quotes and what is between. -/
theorem mem_encode {s : List Char} {x : Char} (hx : x ∈ encode s) :
    x ∈ marker s ∨ x = '"' ∨ x ∈ encodeBody s := by
  unfold encode at hx
  simp only [List.append_assoc, List.cons_append, List.mem_append,
    List.mem_cons, List.not_mem_nil, or_false] at hx
  rcases hx with hx | hx | hx | hx
  · exact Or.inl hx
  · exact Or.inr (Or.inl hx)
  · exact Or.inr (Or.inr hx)
  · exact Or.inr (Or.inl hx)

theorem printable_marker (s : List Char) : ∀ x ∈ marker s, Printable x := by
  unfold marker
  split
  · exact fun x hx => absurd hx List.not_mem_nil
  · intro x hx
    have hall : ("unicode".toList.all fun c => decide (Printable c))
        = true := by
      decide
    exact of_decide_eq_true (List.all_eq_true.1 hall x hx)

theorem not_forbidden_encode {s : List Char} :
    ∀ x ∈ encode s, ¬Forbidden x.toNat := by
  intro x hx
  rcases mem_encode hx with hx | rfl | hx
  · exact not_forbidden_of_printable (printable_marker s x hx)
  · exact not_forbidden_of_printable (by decide)
  · exact not_forbidden_encodeBody x hx

/-- A literal without the mark is printable throughout. -/
theorem printable_encode {s : List Char} (h : ¬"unicode".toList <+: encode s) :
    ∀ x ∈ encode s, Printable x := by
  have hascii : s.all isAscii = true := by
    rw [marker_prefix_encode_iff] at h
    simpa [isAscii] using h
  intro x hx
  rcases mem_encode hx with hx | rfl | hx
  · exact printable_marker s x hx
  · decide
  · exact printable_encodeBody hascii x hx

/-- The bytes of a string are those of its characters. -/
theorem toList_toUTF8 (v : String) :
    v.toUTF8.data.toList = v.toList.flatMap String.utf8EncodeChar := by
  rw [String.toUTF8_eq_toByteArray, ← String.ofList_toList (s := v),
    String.toList_ofList]
  exact List.toList_data_toByteArray

theorem read_encode_toUTF8 (v : String) (rest : List Char) :
    read (encode v.toList ++ rest) = some (v.toUTF8.data.toList, rest) := by
  rw [read_encode, toList_toUTF8]

/-- Different strings have different literals. -/
theorem encode_inj {v w : String} (h : encode v.toList = encode w.toList) :
    v = w := by
  have hread := read_encode_toUTF8 v []
  rw [h, read_encode_toUTF8 w] at hread
  have hdata : w.toUTF8.data = v.toUTF8.data := by
    simpa using hread
  exact String.toByteArray_inj.1 (ByteArray.ext hdata).symm

-- ======================================================== the main result

/-- A literal is self-delimiting. Whatever text follows it, a reader takes
exactly the literal and gets the UTF-8 bytes of the value; the mark
`unicode` is there exactly if the value goes beyond ASCII; a literal without
it is printable ASCII; and none holds a control character, a separator or a
direction mark. -/
theorem ofString_self_delimiting (v : String) (rest : List Char) :
    read ((ofString v).toList ++ rest) = some (v.toUTF8.data.toList, rest)
      ∧ ("unicode".toList <+: (ofString v).toList
          ↔ ∃ c ∈ v.toList, 0x80 ≤ c.toNat)
      ∧ (¬"unicode".toList <+: (ofString v).toList →
          ∀ c ∈ (ofString v).toList, Printable c)
      ∧ ∀ c ∈ (ofString v).toList, ¬Forbidden c.toNat := by
  rw [toList_ofString]
  exact ⟨read_encode_toUTF8 v rest, marker_prefix_encode_iff v.toList,
    printable_encode, not_forbidden_encode⟩

/-- The direction mark of a hostile text is escaped, and what follows the
literal is left alone. -/
example : read "\"\\\"\\u202e\";".toList
  = some ([0x22, 0xE2, 0x80, 0xAE], [';']) := by
  decide

end TokenForge.Solidity.Literal
