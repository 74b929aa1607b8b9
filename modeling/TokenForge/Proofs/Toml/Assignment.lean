/-
Reading a document that has one assignment `key = value` on each line. A key
that needs no quotes ends at the space behind it, and a value that is complete
on its line ends at the line's end, whatever follows (`ReadsAs`); so one line
is read as its assignment and the reader stands behind it (`readLine_line`).
The induction over the lines is on the document, with the turns that the reader
has left as a parameter: there are always more of them than lines.
-/
import Mathlib.Data.List.TakeDrop
import TokenForge.Proofs.Text.Trim
import TokenForge.Proofs.Toml.Table

namespace TokenForge.Toml

-- ================================================================== keys

/-- A key that needs no quotes. -/
def IsBareKey (key : List Char) : Prop :=
  key ≠ [] ∧ key.all isBareKeyPart = true

instance : DecidablePred IsBareKey := fun key =>
  inferInstanceAs (Decidable (key ≠ [] ∧ key.all isBareKeyPart = true))

theorem IsBareKey.parts {key : List Char} (h : IsBareKey key) :
    ∀ c ∈ key, isBareKeyPart c = true :=
  List.all_eq_true.1 h.2

/-- A character of a class is none of those outside it. -/
theorem ne_of_class {p : Char → Bool} {c d : Char} (hc : p c = true)
    (hd : p d = false) :
    c ≠ d := by
  rintro rfl
  rw [hc] at hd
  cases hd

theorem not_isSpace_of_class {p : Char → Bool} {c : Char} (hc : p c = true)
    (hblank : p ' ' = false) (htab : p '\t' = false) : isSpace c = false := by
  simp [isSpace, ne_of_class hc hblank, ne_of_class hc htab]

theorem not_isSpace_of_isBareKeyPart {c : Char} (hc : isBareKeyPart c = true) :
    isSpace c = false :=
  not_isSpace_of_class hc (by decide) (by decide)

theorem skipSpaces_of_not_isSpace {c : Char} (h : isSpace c = false)
    (s : List Char) :
    skipSpaces (c :: s) = c :: s := by
  simp [skipSpaces, h]

/-- A bare key is read up to the first character that cannot be in one. -/
theorem readKey_bare {key rest : List Char} (hkey : IsBareKey key)
    (hrest : ∀ c ∈ rest.head?, isBareKeyPart c = false) :
    readKey (key ++ rest) = some (String.ofList key, rest) := by
  have hspan := Text.span_append hkey.parts hrest
  obtain ⟨c, key, rfl⟩ := List.exists_cons_of_ne_nil hkey.1
  have hc := hkey.parts c (List.mem_cons_self ..)
  unfold readKey
  split
  next hmatch =>
      exact absurd (List.cons.inj hmatch).1 (ne_of_class hc (by decide))
  next hmatch =>
      exact absurd (List.cons.inj hmatch).1 (ne_of_class hc (by decide))
  next =>
      rw [hspan]
      rfl

/-- One bare key in front of an equality sign is the whole path. -/
theorem readPath_bare {key rest : List Char} (hkey : IsBareKey key) :
    readPath (key ++ ' ' :: '=' :: rest)
      = some ([String.ofList key], '=' :: rest) := by
  have hread : readKey (key ++ ' ' :: '=' :: rest)
      = some (String.ofList key, ' ' :: '=' :: rest) := by
    refine readKey_bare hkey fun c hc => ?_
    cases hc
    decide
  have hskip : skipSpaces (key ++ ' ' :: '=' :: rest)
      = key ++ ' ' :: '=' :: rest := by
    obtain ⟨c, key, rfl⟩ := List.exists_cons_of_ne_nil hkey.1
    exact skipSpaces_of_not_isSpace
      (not_isSpace_of_isBareKeyPart (hkey.parts c (List.mem_cons_self ..))) _
  have hsign : skipSpaces (' ' :: '=' :: rest) = '=' :: rest := by
    simp [skipSpaces, isSpace]
  unfold readPath readPathFrom
  rw [hskip, hread]
  simp only [Option.bind_eq_bind, Option.bind_some, hsign]
  rfl

-- ================================================================== lines

/-- A text is read as a value wherever a line ends behind it. -/
structure ReadsAs (text : List Char) (v : Value) : Prop where
  head : ∀ c ∈ text.head?, isSpace c = false
  nonempty : text ≠ []
  reads : ∀ rest, readValue (text ++ '\n' :: rest) = some (v, '\n' :: rest)

/-- A key with a value and how the value is written. -/
structure Field where
  key : String
  text : String
  value : Value

namespace Field

/-- The line that assigns a field. -/
def line (f : Field) : List Char :=
  f.key.toList ++ ' ' :: '=' :: ' ' :: f.text.toList ++ ['\n']

/-- The field is written as it has to be read. -/
structure Reads (f : Field) : Prop where
  key : IsBareKey f.key.toList
  text : ReadsAs f.text.toList f.value

/-- The entry that a field makes. -/
def entry (f : Field) : String × Value := (f.key, f.value)

end Field

/-- A line starts with a character of its key. -/
theorem Field.Reads.line_eq_cons {f : Field} (h : f.Reads) :
    ∃ c s, f.line = c :: s ∧ isBareKeyPart c = true := by
  obtain ⟨c, key, hkey⟩ := List.exists_cons_of_ne_nil h.key.1
  refine ⟨c, key ++ ' ' :: '=' :: ' ' :: f.text.toList ++ ['\n'], ?_, ?_⟩
  · unfold Field.line
    rw [hkey]
    rfl
  · exact h.key.parts c (by rw [hkey]; exact List.mem_cons_self ..)

/-- A line is read as its assignment; its end is left. -/
theorem readLine_line {f : Field} (h : f.Reads) (rest : List Char) :
    ∃ place, readLine (f.line ++ rest)
      = some (⟨assignment f.entry, place⟩, '\n' :: rest) := by
  have hsplit : f.line ++ rest
      = f.key.toList ++ ' ' :: '='
        :: (' ' :: f.text.toList ++ '\n' :: rest) := by
    simp [Field.line]
  have hpath : readPath
      (f.key.toList ++ ' ' :: '=' :: (' ' :: f.text.toList ++ '\n' :: rest))
      = some ([String.ofList f.key.toList], '='
        :: (' ' :: f.text.toList ++ '\n' :: rest)) :=
    readPath_bare h.key
  have hstart : skipSpaces (' ' :: f.text.toList ++ '\n' :: rest)
      = f.text.toList ++ '\n' :: rest := by
    obtain ⟨c, text, htext⟩ := List.exists_cons_of_ne_nil h.text.nonempty
    have hc : isSpace c = false := h.text.head c (by rw [htext]; rfl)
    rw [htext]
    show skipSpaces (c :: (text ++ '\n' :: rest)) = _
    exact skipSpaces_of_not_isSpace hc _
  have hopen : ∀ inner, f.line ++ rest ≠ '[' :: inner := by
    intro inner heq
    obtain ⟨c, s, hline, hc⟩ := h.line_eq_cons
    rw [hline] at heq
    exact ne_of_class hc (by decide) (List.cons.inj heq).1
  unfold readLine
  split
  next heq => exact absurd heq (hopen _)
  next heq => exact absurd heq (hopen _)
  next =>
      rw [hsplit, hpath]
      simp only [Option.bind_eq_bind, Option.bind_some, afterChar,
        if_true, hstart, h.text.reads]
      rw [String.ofList_toList]
      exact ⟨_, rfl⟩

theorem endOfLine?_newline (rest : List Char) :
    endOfLine? ('\n' :: rest) = some rest := by
  simp [endOfLine?, skipSpaces, isSpace, skipComment, newline?]

/-- A character of a bare key starts no trivia. -/
theorem skipTrivia_of_isBareKeyPart {c : Char} (hc : isBareKeyPart c = true)
    (s : List Char) :
    skipTrivia (c :: s) = c :: s := by
  have hfeed := ne_of_class (d := '\n') hc (by decide)
  have hreturn := ne_of_class (d := '\r') hc (by decide)
  have hmark := ne_of_class (d := '#') hc (by decide)
  have hnewline : newline? (c :: s) = none := by
    unfold newline?
    split
    next heq => exact absurd (List.cons.inj heq).1 hfeed
    next heq => exact absurd (List.cons.inj heq).1 hreturn
    next => rfl
  unfold skipTrivia skipTriviaFrom
  simp only [skipSpaces_of_not_isSpace (not_isSpace_of_isBareKeyPart hc),
    hnewline]
  split
  next heq => exact absurd (List.cons.inj heq).1 hmark
  next => rfl

/-- One line after the other is read, and nothing else is there. -/
theorem readLinesFrom_lines (fs : List Field) (h : ∀ f ∈ fs, f.Reads) :
    ∀ turns, fs.length < turns → ∃ lines,
      readLinesFrom turns (fs.flatMap Field.line) = some lines
        ∧ lines.map (·.statement) = (fs.map Field.entry).map assignment := by
  induction fs with
  | nil =>
      intro turns hturns
      obtain ⟨turns, rfl⟩ := Nat.exists_eq_add_of_lt hturns
      exact ⟨[], by rfl, rfl⟩
  | cons f fs ih =>
      intro turns hturns
      rw [List.length_cons] at hturns
      obtain ⟨turns, rfl⟩ : ∃ n, turns = n + 1 := ⟨turns - 1, by omega⟩
      obtain ⟨lines, hlines, hstatements⟩ :=
        ih (fun g hg => h g (List.mem_cons_of_mem _ hg)) turns (by omega)
      have hf := h f (List.mem_cons_self ..)
      obtain ⟨place, hline⟩ := readLine_line hf (fs.flatMap Field.line)
      obtain ⟨c, s, hcons, hc⟩ := hf.line_eq_cons
      refine ⟨⟨assignment f.entry, place⟩ :: lines, ?_, ?_⟩
      · rw [List.flatMap_cons]
        rw [hcons] at hline ⊢
        unfold readLinesFrom
        rw [List.cons_append] at hline ⊢
        rw [skipTrivia_of_isBareKeyPart hc]
        simp only [hline, Option.bind_eq_bind, Option.bind_some,
          endOfLine?_newline, hlines]
      · rw [List.map_cons, hstatements]
        rfl

/-- Each field takes some room. -/
theorem length_le_flatMap_line {fs : List Field} (h : ∀ f ∈ fs, f.Reads) :
    fs.length ≤ (fs.flatMap Field.line).length := by
  induction fs with
  | nil => exact Nat.le_refl _
  | cons f fs ih =>
      have hrest := ih fun g hg => h g (List.mem_cons_of_mem _ hg)
      obtain ⟨c, s, hcons, -⟩ := (h f (List.mem_cons_self ..)).line_eq_cons
      rw [List.length_cons, List.flatMap_cons, List.length_append, hcons,
        List.length_cons]
      omega

-- ============================================================== documents

/-- A document of assignments to different keys holds what they assign. -/
theorem read_fields {fs : List Field} (h : ∀ f ∈ fs, f.Reads)
    (hkeys : (fs.map (·.key)).Nodup) :
    ∃ d, read (fs.flatMap Field.line) = some d
      ∧ d.entries = sortEntries (fs.map Field.entry) := by
  have hmark : dropMark (fs.flatMap Field.line) = fs.flatMap Field.line := by
    cases fs with
    | nil => rfl
    | cons f fs =>
        obtain ⟨c, s, hcons, hc⟩ := (h f (List.mem_cons_self ..)).line_eq_cons
        rw [List.flatMap_cons, hcons, List.cons_append]
        unfold dropMark
        split
        next heq =>
          exact absurd (List.cons.inj heq).1 (ne_of_class hc (by decide))
        next => rfl
  have hturns := length_le_flatMap_line h
  obtain ⟨lines, hlines, hstatements⟩ :=
    readLinesFrom_lines fs h ((fs.flatMap Field.line).length + 1) (by omega)
  have hdistinct : ((fs.map Field.entry).map Prod.fst).Nodup := by
    rw [List.map_map]
    exact hkeys
  refine ⟨⟨sortEntries (fs.map Field.entry), lines⟩, ?_, rfl⟩
  unfold read readLines
  rw [hmark, hlines]
  simp only [Option.bind_eq_bind, Option.bind_some, hstatements,
    build_assignments hdistinct]

end TokenForge.Toml
