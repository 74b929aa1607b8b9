/-
What trimming and cutting leave of a text. Trimming takes away blanks and
nothing else, and what is left has none at that end; these two facts say all
about it, so a text is known from its trimmed form up to blanks
(`trimEnd_append_eq_iff`).

A text cut before a mark does not hold the mark (`not_infix_takeUntil`). It is
a beginning of the text, and beginnings of one text are told apart by the
number of their bytes (`eq_of_isPrefix`), which is how a stretch of bytes
stands for the text it covers. Cut at every separator, a text gives the pieces
that lists are split into (`splitAt_eq_splitOn`).
-/
import Mathlib.Data.List.TakeWhile
import Mathlib.Data.List.Infix
import TokenForge.Text.Blank
import TokenForge.Text.Split

namespace TokenForge.Text

-- ================================================================= blanks

/-- A text of blanks only. -/
def Blanks (s : List Char) : Prop := ∀ c ∈ s, isBlank c = true

/-- A text that does not start with a blank. -/
def StartsClear (s : List Char) : Prop := ∀ c ∈ s.head?, isBlank c = false

/-- A text that does not end with a blank. -/
def EndsClear (s : List Char) : Prop := ∀ c ∈ s.getLast?, isBlank c = false

-- the letters of the text are tried, not all characters
instance (s : List Char) : Decidable (Blanks s) := List.decidableBAll _ s

instance (s : List Char) : Decidable (StartsClear s) :=
  Option.decidableForallMem s.head?

instance (s : List Char) : Decidable (EndsClear s) :=
  Option.decidableForallMem s.getLast?

variable {s t b : List Char} {c : Char}

theorem blanks_append : Blanks (s ++ t) ↔ Blanks s ∧ Blanks t :=
  List.forall_mem_append

theorem blanks_cons : Blanks (c :: s) ↔ isBlank c = true ∧ Blanks s :=
  List.forall_mem_cons

theorem startsClear_nil : StartsClear [] := fun _ h => nomatch h

theorem startsClear_cons : StartsClear (c :: s) ↔ isBlank c = false := by
  simp [StartsClear]

theorem startsClear_append (hs : s ≠ []) :
    StartsClear (s ++ t) ↔ StartsClear s := by
  cases s with
  | nil => exact absurd rfl hs
  | cons c s => rw [List.cons_append, startsClear_cons, startsClear_cons]

theorem endsClear_concat : EndsClear (s ++ [c]) ↔ isBlank c = false := by
  simp [EndsClear]

/-- Only the empty text is both blank and clear. -/
theorem eq_nil_of_blanks (hblanks : Blanks s) (hclear : StartsClear s) :
    s = [] := by
  cases s with
  | nil => rfl
  | cons c s =>
      have hc := (blanks_cons.1 hblanks).1
      rw [startsClear_cons.1 hclear] at hc
      cases hc

-- ============================================================== the start

theorem trimStart_append_blanks (h : Blanks b) :
    trimStart (b ++ s) = trimStart s :=
  List.dropWhile_append_of_pos h

theorem trimStart_of_startsClear (h : StartsClear s) : trimStart s = s := by
  cases s with
  | nil => rfl
  | cons c s => exact trimStart_cons_of_not_isBlank (startsClear_cons.1 h) s

theorem startsClear_trimStart (s : List Char) : StartsClear (trimStart s) := by
  cases h : trimStart s with
  | nil => exact startsClear_nil
  | cons c t => exact startsClear_cons.2 (not_isBlank_of_trimStart_eq_cons h)

/-- Only blanks are taken away at the start. -/
theorem exists_blanks_trimStart (s : List Char) :
    ∃ b, Blanks b ∧ s = b ++ trimStart s :=
  ⟨s.takeWhile isBlank, fun _ hc => List.mem_takeWhile_imp hc,
    List.takeWhile_append_dropWhile.symm⟩

-- ================================================================ the end

/-- The end of a text is trimmed like its start, read backwards. -/
theorem trimEnd_eq_reverse (s : List Char) :
    trimEnd s = (trimStart s.reverse).reverse :=
  rfl

theorem blanks_reverse : Blanks s.reverse ↔ Blanks s := by
  simp [Blanks]

/-- A text ends without a blank if it starts without one, read backwards. -/
theorem endsClear_iff_reverse : EndsClear s ↔ StartsClear s.reverse := by
  unfold EndsClear StartsClear
  rw [List.head?_reverse]

theorem endsClear_trimEnd (s : List Char) : EndsClear (trimEnd s) := by
  rw [endsClear_iff_reverse, trimEnd_eq_reverse, List.reverse_reverse]
  exact startsClear_trimStart s.reverse

/-- Only blanks are taken away at the end. -/
theorem exists_blanks_trimEnd (s : List Char) :
    ∃ b, Blanks b ∧ s = trimEnd s ++ b := by
  obtain ⟨b, hb, hs⟩ := exists_blanks_trimStart s.reverse
  refine ⟨b.reverse, blanks_reverse.2 hb, ?_⟩
  rw [trimEnd_eq_reverse, ← List.reverse_append, ← hs, List.reverse_reverse]

/-- Blanks at the end are trimmed, up to what is none. -/
theorem trimEnd_of_append_blanks (hs : EndsClear s) (hb : Blanks b) :
    trimEnd (s ++ b) = s := by
  rw [trimEnd_eq_reverse, List.reverse_append,
    trimStart_append_blanks (blanks_reverse.2 hb),
    trimStart_of_startsClear (endsClear_iff_reverse.1 hs),
    List.reverse_reverse]

/-- A text without a blank at its end is what trimming leaves exactly if
only blanks follow it. -/
theorem trimEnd_append_eq_iff (hs : EndsClear s) :
    trimEnd (s ++ t) = s ↔ Blanks t := by
  constructor
  · intro h
    obtain ⟨b, hb, hst⟩ := exists_blanks_trimEnd (s ++ t)
    rw [h, List.append_cancel_left_eq] at hst
    rwa [hst]
  · exact trimEnd_of_append_blanks hs

/-- A text that starts with something else than a blank is not trimmed away. -/
theorem trimEnd_ne_nil (hs : StartsClear s) (hne : s ≠ []) :
    trimEnd s ≠ [] := by
  intro h
  obtain ⟨b, hb, hsb⟩ := exists_blanks_trimEnd s
  rw [h, List.nil_append] at hsb
  exact hne (eq_nil_of_blanks (hsb ▸ hb) hs)

-- ================================================================== marks

section Mark

variable {mark : List Char}

/-- A text cut before a mark is a beginning of it. -/
theorem takeUntil_isPrefix (mark s : List Char) : takeUntil mark s <+: s := by
  induction s with
  | nil => exact List.nil_prefix
  | cons c s ih =>
      unfold takeUntil
      split
      · exact List.nil_prefix
      · exact List.cons_prefix_cons.2 ⟨rfl, ih⟩

theorem takeUntil_cons_of_unmarked (h : ¬ mark <+: c :: s) :
    takeUntil mark (c :: s) = c :: takeUntil mark s := by
  rw [takeUntil, if_neg (mt List.isPrefixOf_iff_prefix.1 h)]

/-- What was cut before a mark does not hold it. -/
theorem not_infix_takeUntil (hmark : mark ≠ []) (s : List Char) :
    ¬ mark <:+: takeUntil mark s := by
  induction s with
  | nil => exact fun h => hmark (List.infix_nil.1 h)
  | cons c s ih =>
      by_cases hstart : mark <+: c :: s
      · rw [takeUntil, if_pos (List.isPrefixOf_iff_prefix.2 hstart)]
        exact fun h => hmark (List.infix_nil.1 h)
      · rw [takeUntil_cons_of_unmarked hstart, List.infix_cons_iff, not_or]
        refine ⟨fun h => ?_, ih⟩
        rw [← takeUntil_cons_of_unmarked hstart] at h
        exact hstart (h.trans (takeUntil_isPrefix mark _))

end Mark

-- ================================================================== bytes

theorem byteLength_eq_zero_iff : byteLength s = 0 ↔ s = [] := by
  cases s with
  | nil => simp [byteLength_nil]
  | cons c s =>
      have hpos := c.utf8Size_pos
      simp only [byteLength_cons, reduceCtorEq, iff_false]
      omega

/-- The bytes of a text are counted as in a string. -/
theorem byteLength_eq (s : List Char) :
    byteLength s = (String.ofList s).utf8ByteSize := by
  induction s with
  | nil => rfl
  | cons c s ih =>
      have hsplit : String.ofList (c :: s)
          = String.singleton c ++ String.ofList s := by
        rw [String.singleton_eq_ofList, ← String.ofList_append]
        rfl
      rw [byteLength_cons, ih, hsplit, String.utf8ByteSize_append,
        String.utf8ByteSize_singleton]

/-- Beginnings of one text with equally many bytes are equal. -/
theorem eq_of_isPrefix (hs : s <+: b) (ht : t <+: b)
    (h : byteLength s = byteLength t) :
    s = t := by
  have hcut : ∀ {p q : List Char}, p <+: q → byteLength p = byteLength q →
      p = q := by
    intro p q hpq hlength
    obtain ⟨r, rfl⟩ := hpq
    rw [byteLength_append] at hlength
    have hr : r = [] := byteLength_eq_zero_iff.1 (by omega)
    rw [hr, List.append_nil]
  rcases List.prefix_or_prefix_of_prefix hs ht with hst | hts
  · exact hcut hst h
  · exact (hcut hts h.symm).symm

-- ================================================================== lines

/-- A line has no line feed but at its end. -/
theorem not_mem_dropLast_of_mem_lines {line : List Char} (h : line ∈ lines s) :
    '\n' ∉ line.dropLast := by
  induction s generalizing line with
  | nil => cases h
  | cons c s ih =>
      unfold lines at h
      split at h
      · rcases List.mem_cons.1 h with rfl | h
        · exact List.not_mem_nil
        · exact ih h
      next hc =>
        cases hs : lines s with
        | nil =>
            rw [hs] at h
            rw [List.mem_singleton.1 h]
            exact List.not_mem_nil
        | cons first more =>
            rw [hs] at h ih
            rcases List.mem_cons.1 h with rfl | h
            · have hfirst := ih (List.mem_cons_self ..)
              cases first with
              | nil => exact List.not_mem_nil
              | cons d first =>
                  rw [List.dropLast_cons_cons, List.mem_cons, not_or]
                  exact ⟨Ne.symm hc, hfirst⟩
            · exact ih (List.mem_cons_of_mem _ h)

-- ================================================================== spans

/-- A text is cut where its letters first leave a class. -/
theorem span_append {p : Char → Bool} {s rest : List Char}
    (hs : ∀ c ∈ s, p c = true) (hrest : ∀ c ∈ rest.head?, p c = false) :
    (s ++ rest).span p = (s, rest) := by
  rw [List.span_eq_takeWhile_dropWhile, List.takeWhile_append_of_pos hs,
    List.dropWhile_append_of_pos hs]
  cases rest with
  | nil => simp
  | cons c rest =>
      have hc : p c = false := hrest c rfl
      simp [hc]

-- ================================================================= pieces

/-- The pieces are those that lists are split into. -/
theorem splitAt_eq_splitOn (sep : Char) (s : List Char) :
    splitAt sep s = s.splitOn sep := by
  rw [List.splitOn_eq_splitOnP]
  induction s with
  | nil => rw [splitAt_nil, List.splitOnP_nil]
  | cons c s ih =>
      rw [List.splitOnP_cons_eq_if_modifyHead]
      by_cases hc : c = sep
      · rw [hc, splitAt_sep, if_pos (beq_self_eq_true sep), ih]
      · obtain ⟨piece, pieces, hs⟩ :=
          List.exists_cons_of_ne_nil (List.splitOnP_ne_nil (· == sep) s)
        rw [if_neg (by simpa using hc), splitAt, if_neg hc, ih, hs,
          List.modifyHead_cons]

/-- Without the separator there is one piece. -/
theorem splitAt_of_not_mem {sep : Char} {s : List Char} (h : sep ∉ s) :
    splitAt sep s = [s] := by
  induction s with
  | nil => rfl
  | cons c s ih =>
      have hc : c ≠ sep := (List.ne_of_not_mem_cons h).symm
      rw [splitAt, if_neg hc, ih (List.not_mem_of_not_mem_cons h)]

end TokenForge.Text
