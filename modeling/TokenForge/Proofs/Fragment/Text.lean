/-
The text of fragments, without the writer. `textOf level fs` is the lines of
the fragments, each with a line feed; emitting appends exactly that
(`text_emit`), so a fragment's text depends on its level and on nothing that
was written before. What is inside a list of fragments is then inside its
text (`occurs_textOf`), through blocks and through joined sections
(`infix_joinSections`), and the text of joined sections is that of each, one
blank line between neighbours (`textOf_joinSections`).
-/
import TokenForge.Fragment.Writer

namespace TokenForge

-- ============================================================ text in text

/-- One text stands somewhere in another. -/
def Occurs (x s : String) : Prop := ∃ before after, s = before ++ x ++ after

theorem Occurs.refl (s : String) : Occurs s s :=
  ⟨"", "", by simp⟩

theorem Occurs.trans {x y z : String} (hxy : Occurs x y) (hyz : Occurs y z) :
    Occurs x z := by
  obtain ⟨a, b, rfl⟩ := hxy
  obtain ⟨p, q, rfl⟩ := hyz
  exact ⟨p ++ a, b ++ q, by simp only [String.append_assoc]⟩

/-- Each of the joined texts is in the whole. -/
theorem occurs_intercalate {sep x : String} {l : List String} (hx : x ∈ l) :
    Occurs x (sep.intercalate l) := by
  obtain ⟨before, after, rfl⟩ := List.append_of_mem hx
  have hright : Occurs x (sep.intercalate (x :: after)) := by
    cases after with
    | nil => rw [String.intercalate_singleton]; exact Occurs.refl x
    | cons y after =>
        rw [String.intercalate_cons_cons]
        exact ⟨"", sep ++ sep.intercalate (y :: after), by
          simp [String.append_assoc]⟩
  cases before with
  | nil => exact hright
  | cons y before =>
      refine hright.trans ⟨sep.intercalate (y :: before) ++ sep, "", ?_⟩
      rw [String.intercalate_append_of_ne_nil (by simp) (by simp)]
      simp

namespace Fragment

-- ======================================================== text of fragments

/-- The text of fragments that stand `level` deep. -/
def textOf (level : Nat) (fs : List Fragment) : String :=
  String.join ((linesOf level fs).map (· ++ "\n"))

/-- The text of a layout is put together from its parts. -/
theorem textOf_append (level : Nat) (a b : List Fragment) :
    textOf level (a ++ b) = textOf level a ++ textOf level b := by
  unfold textOf
  rw [linesOf_append, List.map_append, String.join_append]

theorem textOf_cons (level : Nat) (f : Fragment) (rest : List Fragment) :
    textOf level (f :: rest) = textOf level [f] ++ textOf level rest :=
  textOf_append level [f] rest

theorem textOf_line (level : Nat) (s : String) :
    textOf level [.line s] = indentation level ++ s ++ "\n" := by
  simp [textOf, linesOf, lines]

theorem textOf_blank (level : Nat) : textOf level [.blank] = "\n" := by
  simp [textOf, linesOf, lines]

/-- Lines that stand at the outermost level are not indented. -/
theorem textOf_lines (ls : List String) :
    textOf 0 (ls.map .line) = String.join (ls.map (· ++ "\n")) := by
  induction ls with
  | nil => rfl
  | cons s ls ih =>
      rw [List.map_cons, textOf_cons, textOf_line, indentation_zero, ih,
        List.map_cons, String.join_cons, String.empty_append]

theorem textOf_block (level : Nat) (body : List Fragment) :
    textOf level [.block body] = textOf (level + 1) body := by
  simp [textOf, linesOf, lines]

end Fragment

mutual

theorem Writer.text_apply (f : Fragment) (w : Writer) :
    (Writer.apply f w).text = w.text ++ Fragment.textOf w.level [f] := by
  match f with
  | .line s =>
      rw [Fragment.textOf_line, ← String.append_assoc, ← String.append_assoc]
      rfl
  | .blank =>
      rw [Fragment.textOf_blank]
      rfl
  | .block body =>
      rw [Fragment.textOf_block]
      exact text_emit body w.indent

/-- A writer appends the text of the layout at its level. -/
theorem Writer.text_emit (fs : List Fragment) (w : Writer) :
    (Writer.emit fs w).text = w.text ++ Fragment.textOf w.level fs := by
  match fs with
  | [] => simp [Writer.emit_nil, Fragment.textOf, Fragment.linesOf]
  | f :: rest =>
      rw [Writer.emit_cons, text_emit rest, text_apply f, Writer.level_apply,
        Fragment.textOf_cons _ f rest, String.append_assoc]

end

namespace Fragment

/-- What is rendered is the text at the outermost level. -/
theorem render_eq (fs : List Fragment) : render fs = textOf 0 fs := by
  rw [render, Writer.text_emit]
  exact String.empty_append

-- ======================================================= inside fragments

/-- What is among the fragments is in their text. -/
theorem occurs_textOf {a b : List Fragment} (level : Nat) (h : a <:+: b) :
    Occurs (textOf level a) (textOf level b) := by
  obtain ⟨s, t, rfl⟩ := h
  exact ⟨textOf level s, textOf level t, by rw [textOf_append, textOf_append]⟩

theorem occurs_line {s : String} {fs : List Fragment} (level : Nat)
    (h : Fragment.line s ∈ fs) : Occurs s (textOf level fs) := by
  obtain ⟨before, after, rfl⟩ := List.append_of_mem h
  have hline : Occurs s (textOf level [.line s]) :=
    ⟨indentation level, "\n", textOf_line level s⟩
  exact hline.trans (occurs_textOf level ⟨before, after, by simp⟩)

/-- The text of a block is in the text around it, one level deeper. -/
theorem occurs_block {body fs : List Fragment} (level : Nat)
    (h : Fragment.block body ∈ fs) :
    Occurs (textOf (level + 1) body) (textOf level fs) := by
  obtain ⟨before, after, rfl⟩ := List.append_of_mem h
  rw [← textOf_block]
  exact occurs_textOf level ⟨before, after, by simp⟩

/-- A section is among the joined ones, also if it is empty. -/
theorem infix_joinSections {s : List Fragment}
    {sections : List (List Fragment)} (h : s ∈ sections) :
    s <:+: joinSections sections := by
  have hinter : ∀ {l : List (List Fragment)}, s ∈ l →
      s <:+: [Fragment.blank].intercalate l := by
    intro l hl
    induction l with
    | nil => cases hl
    | cons x l ih =>
        by_cases hnil : l = []
        · subst hnil
          have hsingle : [Fragment.blank].intercalate [x] = x :=
            List.intercalate_singleton ..
          refine ⟨[], [], ?_⟩
          rw [hsingle, List.mem_singleton.1 hl, List.nil_append,
            List.append_nil]
        · rw [List.intercalate_cons_of_ne_nil hnil]
          rcases List.mem_cons.1 hl with rfl | hl
          · exact ⟨[], [Fragment.blank] ++ [Fragment.blank].intercalate l, by
              simp⟩
          · exact (ih hl).trans (List.suffix_append _ _).isInfix
  by_cases hs : s = []
  · rw [hs]
    exact List.nil_infix
  · exact hinter (List.mem_filter.2 ⟨h, by simpa using hs⟩)

-- ========================================================= joined sections

/-- One more section in front: an empty one leaves no trace, and a blank line
follows another one if anything comes after it. -/
theorem joinSections_cons_cases (s : List Fragment)
    (rest : List (List Fragment)) :
    (s = [] ∧ joinSections (s :: rest) = joinSections rest)
      ∨ (s ≠ [] ∧ joinSections rest = [] ∧ joinSections (s :: rest) = s)
      ∨ (s ≠ []
        ∧ joinSections (s :: rest) = s ++ [.blank] ++ joinSections rest) := by
  by_cases hs : s = []
  · left
    rw [hs]
    exact ⟨rfl, rfl⟩
  · right
    have hne : (!s.isEmpty) = true := by simpa using hs
    unfold joinSections
    rw [List.filter_cons, if_pos hne]
    cases hrest : rest.filter fun s => !s.isEmpty with
    | nil =>
        left
        rw [List.intercalate_singleton]
        exact ⟨hs, rfl, rfl⟩
    | cons t rest' =>
        right
        rw [List.intercalate_cons_of_ne_nil (by simp)]
        exact ⟨hs, rfl⟩

/-- Joined sections are empty exactly if each is. -/
theorem isEmpty_joinSections (sections : List (List Fragment)) :
    (joinSections sections).isEmpty = sections.all List.isEmpty := by
  induction sections with
  | nil => rfl
  | cons s rest ih =>
      rw [List.all_cons, ← ih]
      rcases joinSections_cons_cases s rest with ⟨rfl, hjoin⟩ |
        ⟨hs, -, hjoin⟩ | ⟨hs, hjoin⟩
      · rw [hjoin]
        rfl
      · rw [hjoin, List.isEmpty_eq_false_iff.2 hs]
        rfl
      · rw [hjoin, List.isEmpty_eq_false_iff.2 hs]
        simp [hs]

/-- The text of joined sections, the first of which is not empty: each of the
others follows a blank line, if there is anything in it. -/
theorem textOf_joinSections (level : Nat) (rest : List (List Fragment)) :
    ∀ {s : List Fragment}, s ≠ [] →
      textOf level (joinSections (s :: rest)) = textOf level s
        ++ String.join ((rest.filter fun t => !t.isEmpty).map fun t =>
          "\n" ++ textOf level t) := by
  induction rest with
  | nil =>
      intro s _
      rw [joinSections_singleton]
      exact String.append_empty.symm
  | cons t rest ih =>
      intro s hs
      by_cases ht : t = []
      · have hskip : joinSections (s :: t :: rest)
            = joinSections (s :: rest) := by
          unfold joinSections
          simp [ht, List.filter_cons]
        rw [hskip, ih hs]
        simp [ht]
      · have hkept : (!t.isEmpty) = true := by simpa using ht
        have hjoin : joinSections (s :: t :: rest)
            = s ++ [.blank] ++ joinSections (t :: rest) := by
          rcases joinSections_cons_cases s (t :: rest) with ⟨hnil, -⟩ |
            ⟨-, hnil, -⟩ | ⟨-, hjoin⟩
          · exact absurd hnil hs
          · have hall := isEmpty_joinSections (t :: rest)
            rw [hnil] at hall
            simp [ht] at hall
          · exact hjoin
        rw [hjoin, textOf_append, textOf_append, textOf_blank, ih ht,
          List.filter_cons, if_pos hkept, List.map_cons, String.join_cons]
        simp only [String.append_assoc]

/-- The text of joined sections is the texts of those with something in them,
with a blank line between neighbours. -/
theorem textOf_joinSections_eq (level : Nat)
    (sections : List (List Fragment)) :
    textOf level (joinSections sections)
      = "\n".intercalate
        ((sections.filter fun s => !s.isEmpty).map (textOf level)) := by
  unfold joinSections
  induction sections.filter fun s => !s.isEmpty with
  | nil => rfl
  | cons s rest ih =>
      cases rest with
      | nil => rw [List.intercalate_singleton, List.map_singleton,
        String.intercalate_singleton]
      | cons t rest =>
          rw [List.intercalate_cons_cons, textOf_append, textOf_append,
            textOf_blank, ih]
          simp only [List.map_cons, String.intercalate_cons_cons,
            String.append_assoc]

end Fragment

end TokenForge
