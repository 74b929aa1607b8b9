/-
Where a document assigns a key. The search looks at one line after the other
and takes the first that assigns the key, so everything is said about that
line: what introduces the value, and the value without what follows it. A key
that starts with a blank is never found, as the blanks of a line are skipped
before it is compared; for every other key the search and the form of the lines
agree (`assigned?_eq_none_iff`), also if it is empty or begins another key.

A place that is found is a stretch of whole characters in one line
(`place_usable`). The search cuts a value before a space and a number sign,
wherever they stand, and nowhere else; so it finds exactly the string of an
assignment if these two are not in it, and if nothing but blanks, the last of
which is a space, is between the string and a comment
(`place_covers_string_iff`).
-/
import TokenForge.Options.Span
import TokenForge.Proofs.Text.Trim

namespace TokenForge.Span

open Text

-- ============================================================ assignments

/-- What may stand in a line before the value of a key: blanks, the key,
blanks, an equals sign and blanks. -/
def Introduces (key lead : List Char) : Prop :=
  ∃ indent gap space, Blanks indent ∧ Blanks gap ∧ Blanks space
    ∧ lead = indent ++ key ++ gap ++ '=' :: space

/-- A line that assigns a key. -/
def Assigns (key line : List Char) : Prop :=
  ∃ lead rest, Introduces key lead ∧ line = lead ++ rest

variable {key lead line rest : List Char}

/-- Blanks in front of a value belong to what introduces it. -/
theorem Introduces.append_blanks (h : Introduces key lead) {b : List Char}
    (hb : Blanks b) :
    Introduces key (lead ++ b) := by
  obtain ⟨indent, gap, space, hindent, hgap, hspace, rfl⟩ := h
  refine ⟨indent, gap, space ++ b, hindent, hgap,
    blanks_append.2 ⟨hspace, hb⟩, ?_⟩
  simp only [List.append_assoc, List.cons_append]

/-- What introduces the value is taken off, if the key does not
start with a blank. -/
theorem assigned?_of_introduces (hkey : StartsClear key)
    (hlead : Introduces key lead) (hrest : StartsClear rest) :
    assigned? key (lead ++ rest) = some rest := by
  obtain ⟨indent, gap, space, hindent, hgap, hspace, rfl⟩ := hlead
  have hline : indent ++ key ++ gap ++ '=' :: space ++ rest
      = indent ++ (key ++ (gap ++ '=' :: (space ++ rest))) := by
    simp only [List.append_assoc, List.cons_append]
  have hequals : trimStart ('=' :: (space ++ rest)) = '=' :: (space ++ rest) :=
    trimStart_cons_of_not_isBlank (by decide) _
  have hgapped : trimStart (gap ++ '=' :: (space ++ rest))
      = '=' :: (space ++ rest) := by
    rw [trimStart_append_blanks hgap, hequals]
  -- before an empty key the blanks on both of its sides are skipped together
  obtain ⟨after, hafter, htrimmed⟩ :
      ∃ after, trimStart after = '=' :: (space ++ rest)
      ∧ trimStart (indent ++ (key ++ (gap ++ '=' :: (space ++ rest))))
        = key ++ after := by
    rw [trimStart_append_blanks hindent]
    by_cases hempty : key = []
    · exact ⟨'=' :: (space ++ rest), hequals,
        by rw [hempty, List.nil_append, hgapped]; rfl⟩
    · exact ⟨gap ++ '=' :: (space ++ rest), hgapped,
        trimStart_of_startsClear ((startsClear_append hempty).2 hkey)⟩
  have hequalsSign :
      stripStart? ['='] ('=' :: (space ++ rest)) = some (space ++ rest) :=
    stripStart?_append ['='] (space ++ rest)
  unfold assigned?
  rw [hline, htrimmed, stripStart?_append, Option.bind_eq_bind,
    Option.bind_some, hafter, hequalsSign, Option.bind_some,
    trimStart_append_blanks hspace, trimStart_of_startsClear hrest]

/-- What is found to be assigned was introduced by the key. -/
theorem introduces_of_assigned? (h : assigned? key line = some rest) :
    StartsClear key ∧ StartsClear rest ∧ ∃ lead,
      Introduces key lead ∧ line = lead ++ rest := by
  unfold assigned? at h
  obtain ⟨after, hkey, h⟩ := Option.bind_eq_some_iff.1 h
  obtain ⟨value, hequals, h⟩ := Option.bind_eq_some_iff.1 h
  obtain rfl := Option.some.inj h
  obtain ⟨indent, hindent, hline⟩ := exists_blanks_trimStart line
  obtain ⟨gap, hgap, hafter⟩ := exists_blanks_trimStart after
  obtain ⟨space, hspace, hvalue⟩ := exists_blanks_trimStart value
  have htrimmed := eq_of_stripStart? hkey
  refine ⟨?_, startsClear_trimStart value,
    indent ++ key ++ gap ++ '=' :: space,
    ⟨indent, gap, space, hindent, hgap, hspace, rfl⟩, ?_⟩
  · by_cases hempty : key = []
    · exact hempty ▸ startsClear_nil
    · have hclear := startsClear_trimStart line
      rwa [htrimmed, startsClear_append hempty] at hclear
  · rw [eq_of_stripStart? hequals] at hafter
    rw [hline, htrimmed, hafter]
    nth_rewrite 1 [hvalue]
    simp

/-- The search and the form of the lines agree. -/
theorem assigned?_eq_none_iff (hkey : StartsClear key) :
    assigned? key line = none ↔ ¬ Assigns key line := by
  constructor
  · intro h hassigns
    obtain ⟨lead, value, hlead, rfl⟩ := hassigns
    obtain ⟨b, hb, hvalue⟩ := exists_blanks_trimStart value
    rw [hvalue, ← List.append_assoc,
      assigned?_of_introduces hkey (hlead.append_blanks hb)
        (startsClear_trimStart value)] at h
    cases h
  · intro h
    cases hassigned : assigned? key line with
    | none => rfl
    | some rest =>
        obtain ⟨-, -, lead, hlead, hline⟩ := introduces_of_assigned? hassigned
        exact absurd ⟨lead, rest, hlead, hline⟩ h

-- ======================================================= the first of them

/-- The lines before the first that assigns a key are passed over. -/
theorem inLines?_append {earlier : List (List Char)}
    (h : ∀ l ∈ earlier, assigned? key l = none) (more : List (List Char))
    (offset : Nat) :
    inLines? key offset (earlier ++ more)
      = inLines? key (offset + byteLength earlier.flatten) more := by
  induction earlier generalizing offset with
  | nil => rfl
  | cons l earlier ih =>
      obtain ⟨hl, hearlier⟩ := List.forall_mem_cons.1 h
      rw [List.cons_append, inLines?, hl]
      show inLines? key (offset + byteLength l) (earlier ++ more) = _
      rw [ih hearlier, List.flatten_cons, byteLength_append, Nat.add_assoc]

/-- Either no line assigns the key, or there is a first that does. -/
theorem first_assigned (key : List Char) (ls : List (List Char)) :
    (∀ l ∈ ls, assigned? key l = none)
      ∨ ∃ earlier line later rest, ls = earlier ++ line :: later
        ∧ (∀ l ∈ earlier, assigned? key l = none)
          ∧ assigned? key line = some rest := by
  induction ls with
  | nil => exact .inl fun l hl => nomatch hl
  | cons l ls ih =>
      cases hl : assigned? key l with
      | some rest =>
          exact .inr ⟨[], l, ls, rest, rfl, (fun _ h => nomatch h), hl⟩
      | none =>
          rcases ih with hnone | ⟨earlier, line, later, rest, rfl,
            hearlier, hline⟩
          · exact .inl (List.forall_mem_cons.2 ⟨hl, hnone⟩)
          · exact .inr ⟨l :: earlier, line, later, rest, rfl,
              List.forall_mem_cons.2 ⟨hl, hearlier⟩, hline⟩

/-- A value is lost with its comment only if there is none. -/
theorem withoutComment_eq_nil_iff (h : StartsClear rest) :
    withoutComment rest = [] ↔ rest = [] := by
  constructor
  · intro hnil
    cases rest with
    | nil => rfl
    | cons c rest =>
        have hc := startsClear_cons.1 h
        have hmark : ¬ [' ', '#'] <+: c :: rest := by
          intro hprefix
          rw [List.cons_prefix_cons] at hprefix
          rw [← hprefix.1] at hc
          cases hc
        unfold withoutComment at hnil
        rw [takeUntil_cons_of_unmarked hmark] at hnil
        exact absurd hnil
          (trimEnd_ne_nil (startsClear_cons.2 hc) (List.cons_ne_nil c _))
  · intro hnil
    rw [hnil]
    rfl

/-- The first line of a text that assigns a key: the lines before it, what
introduces the value, and the rest of the line. -/
structure First (text : String) (key : List Char) (earlier : List (List Char))
    (lead rest : List Char) : Prop where
  stands : ∃ later, lines text.toList = earlier ++ (lead ++ rest) :: later
  earlier_lines : ∀ l ∈ earlier, ¬ Assigns key l
  introduces : Introduces key lead

variable {text : String} {earlier : List (List Char)}

/-- The place of a value in the first line that assigns it. -/
theorem ofKey?_of_first {key : String} (hkey : StartsClear key.toList)
    (hfirst : First text key.toList earlier lead rest)
    (hrest : StartsClear rest) (hne : rest ≠ []) :
    ofKey? text key = some ⟨byteLength earlier.flatten + byteLength lead,
      byteLength (withoutComment rest)⟩ := by
  obtain ⟨later, hlines⟩ := hfirst.stands
  have hearlier : ∀ l ∈ earlier, assigned? key.toList l = none := fun l hl =>
    (assigned?_eq_none_iff hkey).2 (hfirst.earlier_lines l hl)
  unfold ofKey?
  rw [hlines, inLines?_append hearlier, inLines?,
    assigned?_of_introduces hkey hfirst.introduces hrest]
  dsimp only
  rw [if_neg (mt (withoutComment_eq_nil_iff hrest).1 hne), byteLength_append,
    Nat.zero_add, Nat.add_sub_cancel]

/-- A text has a place for a key exactly if the first line that assigns
the key has a value. -/
theorem ofKey?_eq_some_iff {key : String} {span : Span} :
    ofKey? text key = some span ↔ StartsClear key.toList ∧ ∃ earlier lead rest,
      First text key.toList earlier lead rest ∧ StartsClear rest ∧ rest ≠ []
        ∧ span = ⟨byteLength earlier.flatten + byteLength lead,
          byteLength (withoutComment rest)⟩ := by
  constructor
  · intro h
    unfold ofKey? at h
    rcases first_assigned key.toList (lines text.toList) with hnone |
      ⟨earlier, line, later, rest, hlines, hearlier, hline⟩
    · have hskip := inLines?_append hnone [] 0
      rw [List.append_nil, h] at hskip
      cases hskip
    · obtain ⟨hkey, hrest, lead, hlead, rfl⟩ := introduces_of_assigned? hline
      have hfirst : First text key.toList earlier lead rest :=
        ⟨⟨later, hlines⟩, fun l hl =>
          (assigned?_eq_none_iff hkey).1 (hearlier l hl), hlead⟩
      have hne : rest ≠ [] := by
        rintro rfl
        rw [hlines, inLines?_append hearlier, inLines?, hline] at h
        cases h
      refine ⟨hkey, earlier, lead, rest, hfirst, hrest, hne, ?_⟩
      have hplace := ofKey?_of_first hkey hfirst hrest hne
      unfold ofKey? at hplace
      exact Option.some.inj (h.symm.trans hplace)
  · intro h
    obtain ⟨hkey, earlier, lead, rest, hfirst, hrest, hne, rfl⟩ := h
    exact ofKey?_of_first hkey hfirst hrest hne

-- ========================================================= usable places

theorem withoutComment_isPrefix (rest : List Char) :
    withoutComment rest <+: rest := by
  obtain ⟨b, -, hcut⟩ := exists_blanks_trimEnd (takeUntil [' ', '#'] rest)
  exact List.IsPrefix.trans ⟨b, hcut.symm⟩ (takeUntil_isPrefix [' ', '#'] rest)

/-- A value without a blank at its end has no line feed, as
that ends the line. -/
theorem First.newline_free {value after : List Char}
    (h : First text key earlier lead (value ++ after))
    (hclear : EndsClear value) :
    '\n' ∉ value := by
  obtain ⟨later, hlines⟩ := h.stands
  have hmem : lead ++ (value ++ after) ∈ lines text.toList := by
    rw [hlines]
    exact List.mem_append_right _ (List.mem_cons_self ..)
  have hline := not_mem_dropLast_of_mem_lines hmem
  rcases List.eq_nil_or_concat' value with rfl | ⟨front, last, rfl⟩
  · exact List.not_mem_nil
  · have hlast : last ≠ '\n' := by
      rintro rfl
      exact absurd (endsClear_concat.1 hclear) (by decide)
    have hfront : '\n' ∉ front := by
      intro hfront
      apply hline
      have hkept : (lead ++ (front ++ [last] ++ after)).dropLast
          = lead ++ front ++ ([last] ++ after).dropLast := by
        rw [List.append_assoc front, ← List.append_assoc lead,
          List.dropLast_append_of_ne_nil (by simp)]
      rw [hkept]
      exact List.mem_append_left _ (List.mem_append_right _ hfront)
    rw [List.mem_append, List.mem_singleton, not_or]
    exact ⟨hfront, Ne.symm hlast⟩

/-- A place that a reporter can show: a stretch of whole characters of the
text, which is all of the value in the first line that assigns the key, but for
blanks and what was taken for a comment. -/
structure Usable (span : Span) (text key : String) : Prop where
  nonempty : 0 < span.length
  inside : span.offset + span.length ≤ text.utf8ByteSize
  starts : String.Pos.Raw.IsValid text ⟨span.offset⟩
  ends : String.Pos.Raw.IsValid text ⟨span.offset + span.length⟩
  covers : ∃ earlier lead value after,
    First text key.toList earlier lead (value ++ after)
    ∧ span = ⟨byteLength earlier.flatten + byteLength lead, byteLength value⟩
    ∧ '\n' ∉ value ∧ StartsClear value ∧ EndsClear value

/-- A stretch of characters starts and ends between characters. -/
theorem isValid_of_split {text : String} {before value after : List Char}
    (h : text.toList = before ++ value ++ after) :
    byteLength before + byteLength value ≤ text.utf8ByteSize
      ∧ String.Pos.Raw.IsValid text ⟨byteLength before⟩
      ∧ String.Pos.Raw.IsValid text
        ⟨byteLength before + byteLength value⟩ := by
  have hstart : text
      = String.ofList before ++ String.ofList (value ++ after) := by
    rw [← String.ofList_append, ← List.append_assoc, ← h, String.ofList_toList]
  have hend : text = String.ofList
      (before ++ value) ++ String.ofList after := by
    rw [← String.ofList_append, ← h, String.ofList_toList]
  rw [← byteLength_append]
  refine ⟨?_, ?_, ?_⟩
  · rw [byteLength_eq, hend, String.utf8ByteSize_append]
    omega
  · rw [String.Pos.Raw.isValid_iff_exists_append]
    exact ⟨_, _, hstart, by rw [byteLength_eq]; rfl⟩
  · rw [String.Pos.Raw.isValid_iff_exists_append]
    exact ⟨_, _, hend, by rw [byteLength_eq]; rfl⟩

theorem usable_of_ofKey? {key : String} {span : Span}
    (h : ofKey? text key = some span) :
    span.Usable text key := by
  obtain ⟨-, earlier, lead, rest, hfirst, hrest, hne, rfl⟩ :=
    ofKey?_eq_some_iff.1 h
  obtain ⟨after, hafter⟩ := withoutComment_isPrefix rest
  have hvalue := mt (withoutComment_eq_nil_iff hrest).1 hne
  rw [← hafter] at hfirst
  obtain ⟨later, hlines⟩ := hfirst.stands
  have hsplit : text.toList
      = (earlier.flatten ++ lead) ++ withoutComment rest
        ++ (after ++ later.flatten) := by
    rw [← flatten_lines text.toList, hlines]
    simp
  obtain ⟨hinside, hstarts, hends⟩ := isValid_of_split hsplit
  rw [byteLength_append] at hinside hstarts hends
  have hclear : EndsClear (withoutComment rest) := endsClear_trimEnd _
  refine ⟨?_, hinside, hstarts, hends, earlier, lead, withoutComment rest,
    after, hfirst, rfl, hfirst.newline_free hclear, ?_, hclear⟩
  · exact Nat.pos_of_ne_zero (mt byteLength_eq_zero_iff.1 hvalue)
  · rw [← hafter] at hrest
    exact (startsClear_append hvalue).1 hrest

/-- Every place that is found can be shown: it lies inside the text, starts and
ends between characters, and covers the value in the first line that assigns
the key, without line feed and without blanks at its ends. A place is found
exactly if that line has a value and the key does not start with a blank, and
in no line does a value have more bytes than the line. -/
theorem place_usable (text key : String) :
    (∀ span, ofKey? text key = some span → span.Usable text key)
      ∧ ((ofKey? text key).isSome = true
        ↔ StartsClear key.toList ∧ ∃ earlier lead rest,
        First text key.toList earlier lead rest ∧ StartsClear rest ∧ rest ≠ [])
      ∧ ∀ line ∈ lines text.toList, ∀ rest,
        assigned? key.toList line = some rest →
        byteLength rest ≤ byteLength line := by
  refine ⟨fun span => usable_of_ofKey?, ?_, fun line _ rest hassigned => ?_⟩
  · rw [Option.isSome_iff_exists]
    constructor
    · intro h
      obtain ⟨span, h⟩ := h
      obtain ⟨hkey, earlier, lead, rest, hfirst, hrest, hne, -⟩ :=
        ofKey?_eq_some_iff.1 h
      exact ⟨hkey, earlier, lead, rest, hfirst, hrest, hne⟩
    · intro h
      obtain ⟨hkey, earlier, lead, rest, hfirst, hrest, hne⟩ := h
      exact ⟨_, ofKey?_of_first hkey hfirst hrest hne⟩
  · obtain ⟨-, -, lead, -, rfl⟩ := introduces_of_assigned? hassigned
    rw [byteLength_append]
    omega

/-- A value among blanks of several bytes, behind a key that another key begins
with, in a last line without line feed. -/
theorem place_among_wide_blanks :
    let text := "names = 1\r\n\u2003name\u2003=\u00a0é #\u3000 # c"
    let line := "\u2003name\u2003=\u00a0é #\u3000 # c".toList
    let rest := "é #\u3000 # c".toList
    ofKey? text "name" = some ⟨24, 2⟩ ∧ Usable ⟨24, 2⟩ text "name"
      ∧ line ∈ lines text.toList ∧ assigned? "name".toList line = some rest
      ∧ byteLength rest ≤ byteLength line := by
  intro text line rest
  obtain ⟨husable, -, hbytes⟩ := place_usable text "name"
  have hplace : ofKey? text "name" = some ⟨24, 2⟩ := by decide +kernel
  have hline : line ∈ lines text.toList := by decide +kernel
  have hassigned : assigned? "name".toList line = some rest := by
    decide +kernel
  exact ⟨hplace, husable _ hplace, hline, hassigned,
    hbytes line hline rest hassigned⟩

end TokenForge.Span
