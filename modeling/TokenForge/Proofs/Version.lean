/-
Release numbers and their texts. What the reader accepts is said without it, by
the pieces between the dots of a text (`IsPart`), and so is what it reports
otherwise: the number of pieces if it is not three, and else the first piece
that is no part (`parse_eq_badPart_iff`).

A release number has one written form, and it is read back (`parse_text`), also
out of a document that stores it (`read_stored`). An accepted text differs from
the written form of its release number only in plus signs and zeros in front of
its parts (`shortens_of_parse`), so the written form is what all texts of one
release number have in common.
-/
import Mathlib.Data.List.Nodup
import TokenForge.Proofs.Options.RoundTrip
import TokenForge.Proofs.Text.Decimal
import TokenForge.Proofs.Text.Trim
import TokenForge.Proofs.Traversal
import TokenForge.Version

namespace TokenForge.Version

open Text

-- ============================================================= the grammar

/-- A text writes a number as a part of a release number: digits that stand for
it, with one plus sign in front or none, the number being below 2^32. -/
def PartOf (n : Nat) (s : List Char) : Prop :=
  ∃ digits, (s = digits ∨ s = '+' :: digits) ∧ AllDigits digits ∧ digits ≠ []
    ∧ Nat.ofDigitChars 10 digits 0 = n ∧ n < 2 ^ 32

/-- A text is a part of a release number. -/
def IsPart (s : List Char) : Prop := ∃ n, PartOf n s

/-- A part without its plus sign and the zeros in front of its digits. -/
def Shortens (s t : List Char) : Prop :=
  ∃ zeros, (s = zeros ++ t ∨ s = '+' :: (zeros ++ t)) ∧ Zeros zeros
    ∧ Canonical t

variable {s t : List Char} {acc n : Nat}

-- ================================================================ one part

theorem digit?_eq_some_iff {c : Char} :
    digit? c = some n ↔ c.isDigit = true ∧ c.toNat - '0'.toNat = n := by
  unfold digit?
  cases c.isDigit with
  | true => simp
  | false => simp

/-- Digits are read as their number, behind what stands before them. -/
theorem digits?_eq_some_iff :
    digits? acc s = some n ↔ AllDigits s ∧ Nat.ofDigitChars 10 s acc = n := by
  induction s generalizing acc with
  | nil => simp [digits?, AllDigits]
  | cons c s ih =>
      rw [digits?, Option.bind_eq_bind, Option.bind_eq_some_iff,
        Nat.ofDigitChars_cons, Nat.mul_comm 10 acc]
      constructor
      · rintro ⟨d, hd, hrest⟩
        obtain ⟨hc, rfl⟩ := digit?_eq_some_iff.1 hd
        obtain ⟨hs, hn⟩ := ih.1 hrest
        exact ⟨List.forall_mem_cons.2 ⟨hc, hs⟩, hn⟩
      · rintro ⟨hall, hn⟩
        obtain ⟨hc, hs⟩ := List.forall_mem_cons.1 hall
        exact ⟨_, digit?_eq_some_iff.2 ⟨hc, rfl⟩, ih.2 ⟨hs, hn⟩⟩

theorem unsigned_cases (s : List Char) :
    s = unsigned s ∨ s = '+' :: unsigned s := by
  unfold unsigned
  split
  · exact .inr rfl
  · exact .inl rfl

theorem unsigned_of_digits (h : AllDigits s) : unsigned s = s := by
  unfold unsigned
  split
  · exact absurd (h '+' (List.mem_cons_self ..)) (by decide)
  · rfl

/-- A part is read as the number it writes, and nothing else is read. -/
theorem part?_eq_some_iff {n : UInt32} :
    part? s = some n ↔ PartOf n.toNat s := by
  unfold part?
  constructor
  · intro h
    split at h
    next => cases h
    next hne =>
      split at h
      next m hm =>
        obtain ⟨hdigits, hvalue⟩ := digits?_eq_some_iff.1 hm
        split at h
        next hlt =>
          have hn : n.toNat = m := by
            rw [← Option.some.inj h]
            exact UInt32.toNat_ofNat_of_lt' hlt
          rw [hn]
          exact ⟨unsigned s, unsigned_cases s, hdigits, hne, hvalue, hlt⟩
        next => cases h
      next => cases h
  · rintro ⟨digits, hs, hdigits, hne, hvalue, hlt⟩
    have hunsigned : unsigned s = digits := by
      rcases hs with rfl | rfl
      · exact unsigned_of_digits hdigits
      · rfl
    rw [hunsigned, if_neg hne, digits?_eq_some_iff.2 ⟨hdigits, hvalue⟩]
    have hsize : n.toNat < UInt32.size := hlt
    show (if n.toNat < UInt32.size then some n.toNat.toUInt32 else none)
        = some n
    rw [if_pos hsize, Nat.toUInt32_eq, UInt32.ofNat_toNat]

theorem isPart_iff : IsPart s ↔ ∃ n, part? s = some n := by
  constructor
  · rintro ⟨n, hn⟩
    have hlt : n < UInt32.size := by
      obtain ⟨-, -, -, -, -, hlt⟩ := hn
      exact hlt
    refine ⟨UInt32.ofNat n, part?_eq_some_iff.2 ?_⟩
    rw [UInt32.toNat_ofNat_of_lt' hlt]
    exact hn
  · rintro ⟨n, hn⟩
    exact ⟨n.toNat, part?_eq_some_iff.1 hn⟩

/-- The written form of a number is a part, and the shortest that writes it. -/
theorem partOf_toDigits (n : UInt32) :
    PartOf n.toNat (Nat.toDigits 10 n.toNat) :=
  ⟨_, .inl rfl, allDigits_toDigits _, Nat.toDigits_ne_nil,
    Nat.ofDigitChars_ten_toDigits, n.toNat_lt⟩

theorem shortens_of_partOf (h : PartOf n s) :
    Shortens s (Nat.toDigits 10 n) := by
  obtain ⟨digits, hs, hdigits, hne, rfl, -⟩ := h
  obtain ⟨zeros, hsplit, hzeros⟩ := exists_zeros_append_toDigits hdigits hne
  refine ⟨zeros, ?_, hzeros, canonical_toDigits _⟩
  rw [← hsplit]
  exact hs

-- =============================================================== all parts

variable {text other : String} {v w : Version}

/-- A text of three pieces is read piece by piece. -/
theorem parse_of_three {a b c : List Char}
    (h : text.toList.splitOn '.' = [a, b, c]) :
    parse text = (do
      let major ← (part? a).elim (.error (.badPart .major)) .ok
      let minor ← (part? b).elim (.error (.badPart .minor)) .ok
      let patch ← (part? c).elim (.error (.badPart .patch)) .ok
      .ok ⟨major, minor, patch⟩) := by
  unfold parse
  rw [splitAt_eq_splitOn, h]

/-- Every other text is refused for the number of its pieces. -/
theorem parse_of_not_three (h : (text.toList.splitOn '.').length ≠ 3) :
    parse text = .error (.partCount text) := by
  unfold parse
  rw [splitAt_eq_splitOn]
  split
  next hthree =>
    rw [hthree] at h
    exact absurd rfl h
  next => rfl

theorem three_or_not (text : String) :
    (∃ a b c, text.toList.splitOn '.' = [a, b, c])
      ∨ (text.toList.splitOn '.').length ≠ 3 := by
  rw [or_iff_not_imp_right, not_not, List.length_eq_three]
  exact id

/-- Of pieces with the parts they have to be, the first that is none. -/
def FirstBad (pieces : List (Part × List Char)) (p : Part) : Prop :=
  ∃ s, FirstWithout (fun piece => IsPart piece.2) pieces (p, s)

theorem firstBad_cons_of_bad {p q : Part} {pieces : List (Part × List Char)}
    (h : ¬IsPart s) :
    FirstBad ((p, s) :: pieces) q ↔ q = p := by
  constructor
  · rintro ⟨t, ht⟩
    exact (Prod.mk.inj ((firstWithout_cons_of_neg (x := (p, s)) h).1 ht)).1
  · rintro rfl
    exact ⟨s, (firstWithout_cons_of_neg (x := (q, s)) h).2 rfl⟩

theorem firstBad_cons_of_part {p q : Part} {pieces : List (Part × List Char)}
    (h : IsPart s) :
    FirstBad ((p, s) :: pieces) q ↔ FirstBad pieces q :=
  exists_congr fun _ => firstWithout_cons_of_pos (x := (p, s)) h

/-- The pieces of a text, with the parts they have to be. -/
def labelled (a b c : List Char) : List (Part × List Char) :=
  [(.major, a), (.minor, b), (.patch, c)]

/-- What reading three pieces comes to: their numbers, or the first
piece that is no part. -/
theorem parse_three_cases {a b c : List Char}
    (h : text.toList.splitOn '.' = [a, b, c]) :
    (∃ x y z, part? a = some x ∧ part? b = some y ∧ part? c = some z
        ∧ parse text = .ok ⟨x, y, z⟩)
      ∨ ∃ p, (∀ q, FirstBad (labelled a b c) q ↔ q = p)
        ∧ parse text = .error (.badPart p) := by
  have hbad {s : List Char} (hs : part? s = none) : ¬IsPart s := by
    rw [isPart_iff, hs]
    rintro ⟨n, hn⟩
    cases hn
  have hgood {s : List Char} {n : UInt32} (hs : part? s = some n) : IsPart s :=
    isPart_iff.2 ⟨n, hs⟩
  unfold labelled
  rw [parse_of_three h]
  cases ha : part? a with
  | none => exact .inr ⟨.major, fun q => firstBad_cons_of_bad (hbad ha), rfl⟩
  | some x =>
      simp only [firstBad_cons_of_part (hgood ha)]
      cases hb : part? b with
      | none =>
          exact .inr ⟨.minor, fun q => firstBad_cons_of_bad (hbad hb), rfl⟩
      | some y =>
          simp only [firstBad_cons_of_part (hgood hb)]
          cases hc : part? c with
          | none =>
              exact .inr ⟨.patch, fun q => firstBad_cons_of_bad (hbad hc), rfl⟩
          | some z => exact .inl ⟨x, y, z, rfl, rfl, rfl, rfl⟩

/-- A text is read as a release number exactly if its
pieces write the parts. -/
theorem parse_eq_ok_iff : parse text = .ok v ↔
    ∃ a b c, text.toList.splitOn '.' = [a, b, c]
      ∧ PartOf v.major.toNat a ∧ PartOf v.minor.toNat b
        ∧ PartOf v.patch.toNat c := by
  simp only [← part?_eq_some_iff]
  constructor
  · intro hv
    rcases three_or_not text with ⟨a, b, c, h⟩ | h
    · rcases parse_three_cases h
        with ⟨x, y, z, ha, hb, hc, hok⟩ | ⟨p, -, herror⟩
      · rw [hok] at hv
        cases hv
        exact ⟨a, b, c, h, ha, hb, hc⟩
      · rw [herror] at hv
        cases hv
    · rw [parse_of_not_three h] at hv
      cases hv
  · rintro ⟨a, b, c, h, ha, hb, hc⟩
    rw [parse_of_three h, ha, hb, hc]
    rfl

/-- A text is a release number exactly if it has three pieces
and each is a part. -/
theorem parse_succeeds_iff : (∃ v, parse text = .ok v) ↔
    ∃ a b c, text.toList.splitOn '.' = [a, b, c] ∧ IsPart a ∧ IsPart b
      ∧ IsPart c := by
  simp only [parse_eq_ok_iff, isPart_iff, ← part?_eq_some_iff]
  constructor
  · rintro ⟨v, a, b, c, h, ha, hb, hc⟩
    exact ⟨a, b, c, h, ⟨_, ha⟩, ⟨_, hb⟩, ⟨_, hc⟩⟩
  · rintro ⟨a, b, c, h, ⟨x, ha⟩, ⟨y, hb⟩, ⟨z, hc⟩⟩
    exact ⟨⟨x, y, z⟩, a, b, c, h, ha, hb, hc⟩

/-- The number of pieces is reported exactly if it is not
three, with the text. -/
theorem parse_eq_partCount_iff : parse text = .error (.partCount other)
    ↔ other = text ∧ (text.toList.splitOn '.').length ≠ 3 := by
  rcases three_or_not text with ⟨a, b, c, h⟩ | h
  · have hnot : parse text ≠ .error (.partCount other) := by
      rcases parse_three_cases h with ⟨x, y, z, -, -, -, hok⟩ | ⟨p, -, herror⟩
      · rw [hok]
        exact fun heq => nomatch heq
      · rw [herror]
        exact fun heq => nomatch heq
    rw [h]
    exact iff_of_false hnot fun hlength => hlength.2 rfl
  · rw [parse_of_not_three h, and_iff_left h]
    constructor
    · intro heq
      cases heq
      rfl
    · rintro rfl
      rfl

/-- A part is reported exactly if there are three pieces and its piece
is the first bad one. -/
theorem parse_eq_badPart_iff {p : Part} : parse text = .error (.badPart p)
    ↔ ∃ a b c, text.toList.splitOn '.' = [a, b, c]
      ∧ FirstBad (labelled a b c) p := by
  constructor
  · intro hp
    rcases three_or_not text with ⟨a, b, c, h⟩ | h
    · rcases parse_three_cases h
        with ⟨x, y, z, -, -, -, hok⟩ | ⟨q, hfirst, herror⟩
      · rw [hok] at hp
        cases hp
      · rw [herror] at hp
        cases hp
        exact ⟨a, b, c, h, (hfirst p).2 rfl⟩
    · rw [parse_of_not_three h] at hp
      cases hp
  · rintro ⟨a, b, c, h, hbad⟩
    rcases parse_three_cases h
      with ⟨x, y, z, ha, hb, hc, -⟩ | ⟨q, hfirst, herror⟩
    · rw [labelled, firstBad_cons_of_part (isPart_iff.2 ⟨x, ha⟩),
        firstBad_cons_of_part (isPart_iff.2 ⟨y, hb⟩),
        firstBad_cons_of_part (isPart_iff.2 ⟨z, hc⟩)] at hbad
      obtain ⟨t, ht⟩ := hbad
      exact absurd ht.mem.1 List.not_mem_nil
    · rw [herror, (hfirst p).1 hbad]

-- ======================================================== the written form

theorem toList_text (v : Version) :
    v.text.toList = ['.'].intercalate
      [Nat.toDigits 10 v.major.toNat, Nat.toDigits 10 v.minor.toNat,
        Nat.toDigits 10 v.patch.toNat] := by
  unfold text
  simp only [Nat.toString_eq_repr, String.toList_append, Nat.toList_repr]
  simp [List.intercalate]

theorem splitOn_text (v : Version) :
    v.text.toList.splitOn '.'
      = [Nat.toDigits 10 v.major.toNat, Nat.toDigits 10 v.minor.toNat,
        Nat.toDigits 10 v.patch.toNat] := by
  have hdot (n : Nat) : '.' ∉ Nat.toDigits 10 n :=
    fun hmem => absurd (allDigits_toDigits n '.' hmem) (by decide)
  rw [toList_text]
  refine List.splitOn_intercalate '.' ?_ (List.cons_ne_nil _ _)
  simp only [List.forall_mem_cons]
  exact ⟨hdot _, hdot _, hdot _, fun _ h => absurd h List.not_mem_nil⟩

/-- What a release number is written as is read as that release number. -/
theorem parse_text (v : Version) : parse v.text = .ok v :=
  parse_eq_ok_iff.2 ⟨_, _, _, splitOn_text v, partOf_toDigits _,
    partOf_toDigits _, partOf_toDigits _⟩

/-- Different release numbers are written differently. -/
theorem text_inj : v.text = w.text ↔ v = w := by
  constructor
  · intro h
    have hparse := parse_text v
    rw [h, parse_text w] at hparse
    cases hparse
    rfl
  · rintro rfl
    rfl

/-- The written form of what was read is the text without plus signs
and zeros in front. -/
theorem shortens_of_parse (h : parse text = .ok v) :
    List.Forall₂ Shortens (text.toList.splitOn '.')
      (v.text.toList.splitOn '.') := by
  obtain ⟨a, b, c, hsplit, ha, hb, hc⟩ := parse_eq_ok_iff.1 h
  rw [hsplit, splitOn_text]
  exact .cons (shortens_of_partOf ha) (.cons (shortens_of_partOf hb)
    (.cons (shortens_of_partOf hc) .nil))

-- =============================================================== documents

theorem toList_quoted (v : Version) :
    v.quoted.toList = '"' :: (v.text.toList ++ ['"']) := by
  simp [quoted, String.toList_append]

/-- What a document stores for a release number is read as
that release number. -/
theorem parseQuoted?_quoted (v : Version) :
    parseQuoted? v.quoted = some v := by
  have hreverse : (v.text.toList ++ ['"']).reverse
      = '"' :: v.text.toList.reverse := by
    rw [List.reverse_append]
    rfl
  unfold parseQuoted?
  rw [toList_quoted]
  simp only [hreverse, List.reverse_reverse, String.ofList_toList, parse_text]
  rfl

/-- A written form has digits and dots only. -/
theorem mem_text {c : Char} (hc : c ∈ v.text.toList) :
    c.isDigit = true ∨ c = '.' := by
  rw [toList_text] at hc
  simp only [List.intercalate, List.intersperse, List.flatten_cons,
    List.flatten_nil, List.append_nil, List.mem_append,
    List.mem_singleton] at hc
  rcases hc with h | h | h | h | h
  · exact .inl (allDigits_toDigits _ c h)
  · exact .inr h
  · exact .inl (allDigits_toDigits _ c h)
  · exact .inr h
  · exact .inl (allDigits_toDigits _ c h)

/-- A document escapes nothing of a written form. -/
theorem string_text (v : Version) : Encode.string v.text = v.quoted := by
  have hplain : ∀ c ∈ v.text.toList, Encode.stringChar c = [c] := by
    intro c hc
    rcases mem_text hc with hdigit | rfl
    · have hrange := toNat_of_isDigit hdigit
      unfold Encode.stringChar
      rw [if_neg (ne_of_isDigit hdigit (by decide)),
        if_neg (ne_of_isDigit hdigit (by decide)), if_neg (by omega)]
    · decide
  have hbody : v.text.toList.flatMap Encode.stringChar = v.text.toList := by
    rw [List.flatMap_congr hplain, List.flatMap_singleton']
  apply String.toList_inj.1
  rw [toList_quoted, Encode.string, String.toList_ofList, hbody]
  rfl

/-- The line of a document that stores a release number. -/
def storing (key : String) (v : Version) : String :=
  Encode.line (key, v.quoted)

/-- A stored release number is a string in the document, and the one
that is read as it. -/
theorem read_storing {key : String} (hkey : Toml.IsBareKey key.toList)
    (v : Version) :
    ∃ d stored, Toml.read (storing key v).toList = some d
      ∧ d.entries = [(key, .string stored)]
      ∧ parse stored = .ok v := by
  have hfields : ∀ f ∈ [Encode.textField key v.text], f.Reads :=
    List.forall_mem_singleton.2 ⟨hkey, Encode.readsAs_string v.text⟩
  obtain ⟨d, hd, hentries⟩ :=
    Toml.read_fields hfields (List.nodup_singleton key)
  have hline : (storing key v).toList
      = [Encode.textField key v.text].flatMap Toml.Field.line := by
    simp [storing, Encode.line, Toml.Field.line, Encode.textField, string_text]
  refine ⟨d, v.text, ?_, ?_, parse_text v⟩
  · rw [hline]
    exact hd
  · rw [hentries]
    exact List.mergeSort_singleton _

-- ============================================================= both together

/-- The texts that are read as a release number are those of three parts,
and every other text is refused for the number of its pieces or for the
first of them that is no part. What is written for a release number is read
as it, alone, between quotes and in a document. The written form of what
was read is the text without plus signs and zeros in front of its parts,
and two texts that are read have one written form exactly if they are read
as one release number. -/
theorem parse_exact (text : String) :
    ((∃ v, parse text = .ok v) ↔
        ∃ a b c, text.toList.splitOn '.' = [a, b, c] ∧ IsPart a ∧ IsPart b
          ∧ IsPart c)
      ∧ (∀ other, parse text = .error (.partCount other)
          ↔ other = text ∧ (text.toList.splitOn '.').length ≠ 3)
      ∧ (∀ p, parse text = .error (.badPart p)
          ↔ ∃ a b c, text.toList.splitOn '.' = [a, b, c]
            ∧ FirstBad (labelled a b c) p)
      ∧ (∀ v : Version, parse v.text = .ok v ∧ parseQuoted? v.quoted = some v
          ∧ ∀ key : String, Toml.IsBareKey key.toList → ∃ d stored,
              Toml.read (storing key v).toList = some d
                ∧ d.entries = [(key, .string stored)]
                ∧ parse stored = .ok v)
      ∧ (∀ v, parse text = .ok v →
          List.Forall₂ Shortens (text.toList.splitOn '.')
            (v.text.toList.splitOn '.'))
      ∧ ∀ v other w, parse text = .ok v → parse other = .ok w →
          (v.text = w.text ↔ parse text = parse other) := by
  refine ⟨parse_succeeds_iff, fun _ => parse_eq_partCount_iff,
    fun _ => parse_eq_badPart_iff,
    fun v => ⟨parse_text v, parseQuoted?_quoted v,
      fun _ hkey => read_storing hkey v⟩, fun _ => shortens_of_parse, ?_⟩
  intro v other w hv hw
  rw [hv, hw, text_inj]
  exact (Except.ok.injEq ..).symm.to_iff

/-- A release number with a plus sign and zeros in front of its parts
is the bundled one. -/
theorem parse_exact_padded : parse "+04.3.0002" = .ok bundled
    ∧ List.Forall₂ Shortens ("+04.3.0002".toList.splitOn '.')
      ("4.3.2".toList.splitOn '.')
    ∧ (bundled.text = (⟨4, 3, 2⟩ : Version).text
      ↔ parse "+04.3.0002" = parse "4.3.2") := by
  have hpadded : parse "+04.3.0002" = .ok bundled := by decide
  have hplain : parse "4.3.2" = .ok bundled := by decide
  obtain ⟨-, -, -, -, hshort, hequal⟩ := parse_exact "+04.3.0002"
  exact ⟨hpadded, hshort bundled hpadded,
    hequal bundled "4.3.2" bundled hpadded hplain⟩

end TokenForge.Version
