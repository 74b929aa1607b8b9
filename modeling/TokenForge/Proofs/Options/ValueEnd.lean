/-
Where the place of a value ends. The search does not read strings: it cuts what
follows the equals sign before the first space that a number sign follows, and
trims what is left. So the place of a string, which should end at the closing
quote, ends too early if the two characters are in the string, and too late if
a comment follows and the character before it is the quote or another blank
than a space. In all other cases it covers the string exactly
(`place_covers_string_iff`).
-/
import TokenForge.Proofs.Options.Span

namespace TokenForge.Span

open Text

-- ================================================================ the mark

/-- What the search takes for the start of a comment. -/
abbrev commentMark : List Char := [' ', '#']

/-- A text without the mark is kept whole before a character
that is no number sign. -/
theorem takeUntil_append_of_unmarked {s : List Char} {d : Char} (hd : d ≠ '#')
    (h : ¬ commentMark <:+: s) (t : List Char) :
    takeUntil commentMark (s ++ d :: t)
      = s ++ takeUntil commentMark (d :: t) := by
  induction s with
  | nil => rfl
  | cons c s ih =>
      obtain ⟨hstart, hs⟩ := not_or.1 (mt List.infix_cons_iff.2 h)
      have hplain : ¬ commentMark <+: c :: (s ++ d :: t) := by
        intro hmark
        cases s with
        | nil =>
            obtain ⟨-, hsecond⟩ := List.cons_prefix_cons.1 hmark
            exact hd (List.cons_prefix_cons.1 hsecond).1.symm
        | cons e s =>
            obtain ⟨hfirst, hsecond⟩ := List.cons_prefix_cons.1 hmark
            obtain ⟨hsharp, -⟩ := List.cons_prefix_cons.1 hsecond
            apply hstart
            rw [← hfirst, ← hsharp]
            exact List.prefix_append [' ', '#'] s
      rw [List.cons_append, takeUntil_cons_of_unmarked hplain, ih hs,
        List.cons_append]

/-- A text that does not start with a space does not start with the mark. -/
theorem takeUntil_cons_of_ne_space {c : Char} (hc : c ≠ ' ') (s : List Char) :
    takeUntil commentMark (c :: s) = c :: takeUntil commentMark s := by
  apply takeUntil_cons_of_unmarked
  intro hmark
  exact hc (List.cons_prefix_cons.1 hmark).1.symm

section Trail

variable {trail comment : List Char}

theorem sharp_not_mem_of_blanks (h : Blanks trail) : '#' ∉ trail :=
  fun hsharp =>
  absurd (h '#' hsharp) (by decide)

theorem not_infix_of_blanks (h : Blanks trail) : ¬ commentMark <:+: trail :=
  fun hmark =>
  sharp_not_mem_of_blanks h (hmark.subset (by decide))

/-- A comment after a space is cut off with the space. -/
theorem takeUntil_space (h : Blanks trail) (s : List Char) :
    takeUntil commentMark (trail ++ ' ' :: '#' :: s) = trail := by
  have hspace : takeUntil commentMark (' ' :: '#' :: s) = [] := by
    have hstart : commentMark <+: ' ' :: '#' :: s :=
      List.prefix_append [' ', '#'] s
    rw [takeUntil, if_pos (List.isPrefixOf_iff_prefix.2 hstart)]
  rw [takeUntil_append_of_unmarked (by decide) (not_infix_of_blanks h), hspace,
    List.append_nil]

/-- A comment after any other blank, or after none, is not cut off. -/
theorem sharp_mem_takeUntil (h : Blanks trail)
    (hlast : trail.getLast? ≠ some ' ') (s : List Char) :
    '#' ∈ takeUntil commentMark (trail ++ '#' :: s) := by
  have hsharp : '#' ∈ takeUntil commentMark ('#' :: s) := by
    rw [takeUntil_cons_of_ne_space (by decide)]
    exact List.mem_cons_self ..
  rcases List.eq_nil_or_concat' trail with rfl | ⟨front, last, rfl⟩
  · exact hsharp
  · have hspace : last ≠ ' ' := by
      rintro rfl
      exact hlast List.getLast?_concat
    have hne : last ≠ '#' := by
      rintro rfl
      exact sharp_not_mem_of_blanks h
        (List.mem_append_right _ (List.mem_singleton_self _))
    have hfront := not_infix_of_blanks (blanks_append.1 h).1
    rw [List.append_assoc, List.singleton_append,
      takeUntil_append_of_unmarked hne hfront,
      takeUntil_cons_of_ne_space hspace]
    exact List.mem_append_right _ (List.mem_cons_of_mem _ hsharp)

/-- Only blanks are left of what follows a value exactly if the comment, if
any, follows a space. -/
theorem blanks_takeUntil_iff (htrail : Blanks trail)
    (hcomment : comment = [] ∨ comment.head? = some '#') :
    Blanks (takeUntil commentMark (trail ++ comment))
      ↔ comment = [] ∨ trail.getLast? = some ' ' := by
  cases comment with
  | nil =>
      rw [List.append_nil]
      refine iff_of_true (fun c hc => ?_) (.inl rfl)
      exact htrail c ((takeUntil_isPrefix commentMark trail).subset hc)
  | cons c comment =>
      obtain rfl : c = '#' :=
        Option.some.inj (hcomment.resolve_left (List.cons_ne_nil _ _))
      by_cases hlast : trail.getLast? = some ' '
      · obtain ⟨front, rfl⟩ := List.getLast?_eq_some_iff.1 hlast
        obtain ⟨hfront, -⟩ := blanks_append.1 htrail
        rw [List.append_assoc, List.singleton_append, takeUntil_space hfront]
        exact iff_of_true hfront (.inr hlast)
      · refine iff_of_false (fun hblanks => ?_)
          (not_or.2 ⟨List.cons_ne_nil _ _, hlast⟩)
        exact sharp_not_mem_of_blanks hblanks
          (sharp_mem_takeUntil htrail hlast comment)

end Trail

-- ================================================================ strings

/-- A text between quotes, and what may follow it in its line:
blanks and a comment. -/
structure StringValue where
  content : List Char
  trail : List Char
  comment : List Char
  trail_blank : Blanks trail
  comment_starts : comment = [] ∨ comment.head? = some '#'

namespace StringValue

/-- The text with its quotes. -/
def quoted (v : StringValue) : List Char := '"' :: (v.content ++ ['"'])

/-- The string and what follows it. -/
def rest (v : StringValue) : List Char := v.quoted ++ (v.trail ++ v.comment)

variable {v : StringValue}

theorem startsClear_rest (v : StringValue) : StartsClear v.rest :=
  startsClear_cons.2 (by decide)

theorem endsClear_quoted (v : StringValue) : EndsClear v.quoted := by
  unfold quoted
  rw [← List.cons_append]
  exact endsClear_concat.2 (by decide)

/-- Quotes are neither spaces nor number signs, so the mark is in
the string or nowhere. -/
theorem mark_infix_quoted :
    commentMark <:+: v.quoted ↔ commentMark <:+: v.content := by
  constructor
  · intro h
    by_contra hcontent
    have hcut : takeUntil commentMark v.quoted = v.quoted := by
      unfold quoted
      rw [takeUntil_cons_of_ne_space (by decide),
        takeUntil_append_of_unmarked (by decide) hcontent,
        takeUntil_cons_of_ne_space (by decide)]
      rfl
    exact not_infix_takeUntil (List.cons_ne_nil _ _) v.quoted (hcut.symm ▸ h)
  · intro h
    exact h.trans ⟨['"'], ['"'], rfl⟩

/-- The search keeps exactly the string if the mark is not in it and the
comment, if any, follows a space. -/
theorem withoutComment_rest_iff :
    withoutComment v.rest = v.quoted
      ↔ ¬ commentMark <:+: v.content
        ∧ (v.comment = [] ∨ v.trail.getLast? = some ' ') := by
  have hstring : ¬ commentMark <:+: v.content →
      takeUntil commentMark v.rest
        = v.quoted ++ takeUntil commentMark (v.trail ++ v.comment) := by
    intro hcontent
    unfold rest quoted
    rw [List.cons_append, List.append_assoc, List.singleton_append,
      takeUntil_cons_of_ne_space (by decide),
        takeUntil_append_of_unmarked (by decide) hcontent,
      takeUntil_cons_of_ne_space (by decide)]
    simp
  unfold withoutComment
  by_cases hcontent : commentMark <:+: v.content
  · refine iff_of_false (fun h => ?_) (fun h => h.1 hcontent)
    obtain ⟨b, -, hcut⟩ := exists_blanks_trimEnd (takeUntil commentMark v.rest)
    have hmark : commentMark <:+: takeUntil commentMark v.rest := by
      rw [hcut]
      exact (h ▸ mark_infix_quoted.2 hcontent).trans
        (List.prefix_append _ b).isInfix
    exact not_infix_takeUntil (List.cons_ne_nil _ _) v.rest hmark
  · show trimEnd (takeUntil commentMark v.rest) = v.quoted ↔ _
    rw [hstring hcontent, trimEnd_append_eq_iff v.endsClear_quoted,
      blanks_takeUntil_iff v.trail_blank v.comment_starts]
    exact (and_iff_right hcontent).symm

end StringValue

-- ============================================================== the theorem

/-- The place of a string that the first line for a key assigns starts at the
opening quote, unless the key starts with a blank. It is the string with its
quotes, and neither less nor more, exactly if no space with a number sign after
it is in the string, and the comment, if there is one, follows a space. -/
theorem place_covers_string_iff {text key : String}
    {earlier : List (List Char)} {lead : List Char} (v : StringValue)
    (hfirst : First text key.toList earlier lead v.rest) :
    (ofKey? text key = some ⟨byteLength earlier.flatten + byteLength lead,
      byteLength v.quoted⟩
        ↔ StartsClear key.toList ∧ ¬ commentMark <:+: v.content
          ∧ (v.comment = [] ∨ v.trail.getLast? = some ' '))
      ∧ (StartsClear key.toList → ∃ length,
        ofKey? text key = some
          ⟨byteLength earlier.flatten + byteLength lead, length⟩) := by
  have hplace : StartsClear key.toList → ofKey? text key
      = some ⟨byteLength earlier.flatten + byteLength lead,
        byteLength (withoutComment v.rest)⟩ :=
    fun hkey => ofKey?_of_first hkey hfirst v.startsClear_rest
      (List.cons_ne_nil _ _)
  refine ⟨?_, fun hkey => ⟨_, hplace hkey⟩⟩
  by_cases hkey : StartsClear key.toList
  · rw [hplace hkey, and_iff_right hkey, ← StringValue.withoutComment_rest_iff]
    constructor
    · intro h
      have hlength : byteLength (withoutComment v.rest)
          = byteLength v.quoted := by
        simpa using h
      exact eq_of_isPrefix (withoutComment_isPrefix v.rest)
        (List.prefix_append _ _) hlength
    · intro h
      rw [h]
  · refine iff_of_false (fun h => hkey ?_) (fun h => hkey h.1)
    exact (ofKey?_eq_some_iff.1 h).1

/-- A string with number signs, behind a key that another key begins with, and
before a comment that has the mark too. -/
theorem place_covers_string_with_signs :
    let text := "names = 1\n name\t= \"a#b é\"\t # \"c\" #d\r\n"
    let v : StringValue := ⟨"a#b é".toList, "\t ".toList,
      "# \"c\" #d\r\n".toList, by decide, by decide⟩
    First text "name".toList ["names = 1\n".toList] " name\t= ".toList v.rest
      ∧ byteLength v.quoted = 8 ∧ ofKey? text "name" = some ⟨18, 8⟩ := by
  intro text v
  have hkey : StartsClear "name".toList := by decide
  have hfirst : First text "name".toList
      ["names = 1\n".toList] " name\t= ".toList v.rest := by
    refine ⟨⟨[], by decide +kernel⟩, ?_, " ".toList, "\t".toList, " ".toList,
      by decide, by decide, by decide, by decide⟩
    intro l hl
    rw [List.mem_singleton.1 hl, ← assigned?_eq_none_iff hkey]
    decide
  refine ⟨hfirst, by decide, ?_⟩
  exact (place_covers_string_iff v hfirst).1.2
    ⟨hkey, by decide, .inr (by decide)⟩

/-- The place of a string ends at a number sign inside it, goes on to
the end of a comment that no space precedes, and is not found for a key
with a blank in front. -/
theorem place_misses_string :
    let cut : StringValue :=
  ⟨"a #b".toList, "\n".toList, [], by decide, by decide⟩
    let attached : StringValue :=
  ⟨"T".toList, [], "# c\n".toList, by decide, by decide⟩
    let tabbed : StringValue :=
  ⟨"T".toList, "\t".toList, "# c\n".toList, by decide, by decide⟩
    let plain : StringValue :=
  ⟨"T".toList, "\n".toList, [], by decide, by decide⟩
    (First "name = \"a #b\"\n" "name".toList [] "name = ".toList cut.rest
        ∧ byteLength cut.quoted = 6
          ∧ ofKey? "name = \"a #b\"\n" "name" = some ⟨7, 2⟩)
      ∧ (First "name = \"T\"# c\n" "name".toList
        [] "name = ".toList attached.rest
        ∧ byteLength attached.quoted = 3
          ∧ ofKey? "name = \"T\"# c\n" "name" = some ⟨7, 6⟩)
      ∧ (First "name = \"T\"\t# c\n" "name".toList
        [] "name = ".toList tabbed.rest
        ∧ byteLength tabbed.quoted = 3
          ∧ ofKey? "name = \"T\"\t# c\n" "name" = some ⟨7, 7⟩)
      ∧ First " name = \"T\"\n" " name".toList [] " name = ".toList plain.rest
        ∧ ofKey? " name = \"T\"\n" " name" = none := by
  intro cut attached tabbed plain
  have hfirst : ∀ (key : List Char) {text : String} {rest : List Char},
      lines text.toList = [key ++ " = ".toList ++ rest] →
        First text key [] (key ++ " = ".toList) rest := by
    intro key text rest hlines
    refine ⟨⟨[], hlines⟩, fun _ hl => absurd hl List.not_mem_nil, [],
      " ".toList, " ".toList, by decide, by decide, by decide, ?_⟩
    simp
  refine ⟨⟨?_, by decide, by decide +kernel⟩,
    ⟨?_, by decide, by decide +kernel⟩, ⟨?_, by decide, by decide +kernel⟩,
    ?_, by decide +kernel⟩
  · exact hfirst "name".toList (by decide +kernel)
  · exact hfirst "name".toList (by decide +kernel)
  · exact hfirst "name".toList (by decide +kernel)
  · exact hfirst " name".toList (by decide +kernel)

end TokenForge.Span
