/-
Joining sections, however they are nested. What has been joined so far takes
one section more: an empty one leaves it as it is, and another stands below it
after a blank line, unless there is nothing yet (`addSection`). With nothing as
its unit this is associative (`addSection_assoc`), and joining is its fold. So
it does not matter which neighbours are joined first: sections that are joined
on their own are one section for the rest, and count for nothing if all of them
are empty (`joinSections_nests`).

What the result looks like is told one section at a time, too: from two layouts
whose blank lines stand alone, one more section makes such a layout again
(`BlanksApart.addSection`), since a blank line that is put in has something
above it and something below.
-/
import Mathlib.Data.List.Chain
import TokenForge.Proofs.Fragment.Text

namespace TokenForge.Fragment

-- ========================================================= one section more

/-- What has been joined so far, with one section more below it. -/
def addSection (joined next : List Fragment) : List Fragment :=
  if next.isEmpty then joined
  else if joined.isEmpty then next
  else joined ++ .blank :: next

variable {a b c : List Fragment}

theorem addSection_nil_right (a : List Fragment) : addSection a [] = a := rfl

theorem addSection_nil_left (b : List Fragment) : addSection [] b = b := by
  cases b <;> rfl

theorem addSection_of_ne_nil (ha : a ≠ []) (hb : b ≠ []) :
    addSection a b = a ++ .blank :: b := by
  simp [addSection, ha, hb]

theorem addSection_eq_nil_iff : addSection a b = [] ↔ a = [] ∧ b = [] := by
  by_cases ha : a = []
  · simp [ha, addSection_nil_left]
  by_cases hb : b = []
  · simp [hb, addSection_nil_right]
  simp [addSection_of_ne_nil ha hb, ha]

/-- It does not matter which of three neighbours are joined first. -/
theorem addSection_assoc (a b c : List Fragment) :
    addSection (addSection a b) c = addSection a (addSection b c) := by
  by_cases hb : b = []
  · rw [hb, addSection_nil_right, addSection_nil_left]
  by_cases ha : a = []
  · rw [ha, addSection_nil_left, addSection_nil_left]
  by_cases hc : c = []
  · rw [hc, addSection_nil_right, addSection_nil_right]
  have hab : addSection a b ≠ [] := fun h => ha (addSection_eq_nil_iff.1 h).1
  have hbc : addSection b c ≠ [] := fun h => hb (addSection_eq_nil_iff.1 h).1
  calc addSection (addSection a b) c
      = (a ++ .blank :: b) ++ .blank :: c := by
        rw [addSection_of_ne_nil hab hc, addSection_of_ne_nil ha hb]
    _ = a ++ .blank :: (b ++ .blank :: c) := by simp
    _ = addSection a (addSection b c) := by
        rw [addSection_of_ne_nil ha hbc, addSection_of_ne_nil hb hc]

-- ============================================================= all sections

variable {sections : List (List Fragment)}

theorem joinSections_eq_nil_iff :
    joinSections sections = [] ↔ ∀ s ∈ sections, s = [] := by
  rw [← List.isEmpty_iff, isEmpty_joinSections, List.all_eq_true]
  simp only [List.isEmpty_iff]

/-- The first section takes all others, joined, below it. -/
theorem joinSections_cons (s : List Fragment) (rest : List (List Fragment)) :
    joinSections (s :: rest) = addSection s (joinSections rest) := by
  by_cases hs : s = []
  · rw [hs, joinSections_cons_nil, addSection_nil_left]
  have hkept : (!s.isEmpty) = true := by simpa using hs
  by_cases hrest : joinSections rest = []
  · have hnone : rest.filter (fun t => !t.isEmpty) = [] := by
      rw [List.filter_eq_nil_iff]
      intro t ht
      simp [joinSections_eq_nil_iff.1 hrest t ht]
    rw [hrest, addSection_nil_right]
    unfold joinSections
    rw [List.filter_cons, if_pos hkept, hnone, List.intercalate_singleton]
  · have hsome : rest.filter (fun t => !t.isEmpty) ≠ [] := by
      intro hnone
      apply hrest
      unfold joinSections
      rw [hnone]
      rfl
    rw [addSection_of_ne_nil hs hrest]
    unfold joinSections
    rw [List.filter_cons, if_pos hkept, List.intercalate_cons_of_ne_nil hsome,
      List.append_assoc]
    rfl

/-- Two stretches of sections may be joined apart. -/
theorem joinSections_append (first second : List (List Fragment)) :
    joinSections (first ++ second)
      = addSection (joinSections first) (joinSections second) := by
  induction first with
  | nil =>
      show joinSections second = _
      rw [joinSections_nil, addSection_nil_left]
  | cons s first ih =>
      rw [List.cons_append, joinSections_cons, ih, joinSections_cons,
        addSection_assoc]

/-- Joining goes from section to section, and what has been joined so far
is all it looks at. -/
theorem joinSections_eq_foldl (sections : List (List Fragment)) :
    joinSections sections = sections.foldl addSection [] := by
  induction sections using List.reverseRecOn with
  | nil => rfl
  | append_singleton sections s ih =>
      rw [joinSections_append, joinSections_singleton, List.foldl_append, ← ih]
      rfl

-- ================================================================= the pieces

/-- Pieces one below the other, with exactly one blank line between neighbours
and none at the ends. -/
inductive Separated : List (List Fragment) → List Fragment → Prop where
  | nothing : Separated [] []
  | single (s : List Fragment) : Separated [s] s
  | above (s : List Fragment) {t joined : List Fragment}
      {rest : List (List Fragment)}
    (h : Separated (t :: rest) joined) :
        Separated (s :: t :: rest) (s ++ .blank :: joined)

/-- The pieces say how they look when they are separated. -/
theorem Separated.unique {pieces : List (List Fragment)}
    (ha : Separated pieces a) (hb : Separated pieces b) : a = b := by
  induction ha generalizing b with
  | nothing =>
      cases hb
      rfl
  | single s =>
      cases hb
      rfl
  | above s _ ih =>
      cases hb with
      | above _ hb => rw [ih hb]

/-- One section more, which is not empty, in front of separated pieces. -/
theorem Separated.cons {pieces : List (List Fragment)} (h : Separated pieces b)
    (ha : a ≠ []) (hpieces : ∀ s ∈ pieces, s ≠ []) :
    Separated (a :: pieces) (addSection a b) := by
  cases h with
  | nothing => exact .single a
  | single s =>
      rw [addSection_of_ne_nil ha (hpieces b (List.mem_singleton_self b))]
      exact .above a (.single b)
  | above s h =>
      rw [addSection_of_ne_nil ha (by simp)]
      exact .above a (.above s h)

theorem separated_joinSections (sections : List (List Fragment)) :
    Separated (sections.filter fun s => !s.isEmpty)
      (joinSections sections) := by
  induction sections with
  | nil => exact .nothing
  | cons s rest ih =>
      rw [joinSections_cons]
      by_cases hs : s = []
      · rw [hs, addSection_nil_left]
        exact ih
      · rw [List.filter_cons_of_pos (by simpa using hs)]
        refine ih.cons hs fun t ht => ?_
        have hkept := (List.mem_filter.1 ht).2
        simpa using hkept

-- ============================================================== blank lines

/-- A layout whose blank lines stand alone: none is at an end, and no
two are neighbours. -/
structure BlanksApart (fs : List Fragment) : Prop where
  first : fs.head? ≠ some .blank
  last : fs.getLast? ≠ some .blank
  apart : fs.IsChain fun x y => ¬ (x = .blank ∧ y = .blank)

theorem BlanksApart.nil : BlanksApart [] := ⟨nofun, nofun, .nil⟩

/-- The blank line that is put in has a fragment that is not
blank on both sides. -/
theorem BlanksApart.addSection (ha : BlanksApart a) (hb : BlanksApart b) :
    BlanksApart (addSection a b) := by
  by_cases hane : a = []
  · rw [hane, addSection_nil_left]
    exact hb
  by_cases hbne : b = []
  · rw [hbne, addSection_nil_right]
    exact ha
  rw [addSection_of_ne_nil hane hbne]
  refine ⟨?_, ?_, ?_⟩
  · rw [List.head?_append_of_ne_nil a hane]
    exact ha.first
  · rw [List.getLast?_append_of_ne_nil a (by simp),
      List.getLast?_cons_of_ne_nil hbne]
    exact hb.last
  · refine List.isChain_append.2
      ⟨ha.apart, List.isChain_cons.2 ⟨?_, hb.apart⟩, ?_⟩
    · intro y hy h
      apply hb.first
      rw [← h.2]
      exact hy
    · intro x hx y _ h
      apply ha.last
      rw [← h.1]
      exact hx

/-- No section more or less makes blank lines meet, so all of
them together do not. -/
theorem blanksApart_joinSections (h : ∀ s ∈ sections, BlanksApart s) :
    BlanksApart (joinSections sections) := by
  induction sections with
  | nil => exact .nil
  | cons s rest ih =>
      obtain ⟨hs, hrest⟩ := List.forall_mem_cons.1 h
      rw [joinSections_cons]
      exact hs.addSection (ih hrest)

-- ============================================================== the theorem

/-- Sections may be joined on their own first, wherever they stand. Joining
goes from section to section and looks at nothing but what has been joined so
far. What comes of it is empty only if all sections are; it is the sections
that are not, in order and as they are, with exactly one blank line between
neighbours; and if the blank lines of each section stand alone, so do all. -/
theorem joinSections_nests (before inner after : List (List Fragment)) :
    joinSections (before ++ [joinSections inner] ++ after)
      = joinSections (before ++ inner ++ after)
      ∧ ∀ sections : List (List Fragment),
        joinSections sections = sections.foldl addSection []
          ∧ (joinSections sections = [] ↔ ∀ s ∈ sections, s = [])
          ∧ (∀ joined, Separated (sections.filter fun s => !s.isEmpty) joined
            ↔ joined = joinSections sections)
          ∧ ((∀ s ∈ sections, BlanksApart s) →
            BlanksApart (joinSections sections)) := by
  constructor
  · simp only [joinSections_append, joinSections_singleton]
  intro sections
  refine ⟨joinSections_eq_foldl sections, joinSections_eq_nil_iff, ?_,
    blanksApart_joinSections⟩
  intro joined
  constructor
  · intro h
    exact h.unique (separated_joinSections sections)
  · intro h
    rw [h]
    exact separated_joinSections sections

/-- Sections between two that are empty, one of them a join of nothing but
empty ones; another has a blank line of its own, which stays where it is. -/
theorem joinSections_nests_around_nothing :
    let one := [Fragment.line "one"]
    let two := [Fragment.line "two", .blank, .block [.line "three"]]
    joinSections ([one, []] ++ [joinSections [[], []]] ++ [two, []])
        = joinSections ([one, []] ++ [[], []] ++ [two, []])
      ∧ joinSections [one, [], two] = one ++ .blank :: two
      ∧ (∀ s ∈ [one, [], two], BlanksApart s)
      ∧ BlanksApart (joinSections [one, [], two]) := by
  intro one two
  have hone : BlanksApart one := ⟨by simp [one], by simp [one], .singleton _⟩
  have htwo : BlanksApart two := ⟨by simp [two], by simp [two], by simp [two]⟩
  have hall : ∀ s ∈ [one, [], two], BlanksApart s := by
    simp only [List.forall_mem_cons]
    exact ⟨hone, .nil, htwo, by simp⟩
  obtain ⟨hnests, hlook⟩ := joinSections_nests [one, []] [[], []] [two, []]
  exact ⟨hnests, rfl, hall, (hlook [one, [], two]).2.2.2 hall⟩

end TokenForge.Fragment
