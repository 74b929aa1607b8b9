/-
Blank lines between pieces of source text. A well-spaced layout is put together
from lines that show something, one after the other, with one blank line
between two pieces, or around a block that is well spaced itself (`Spaced`). So
every piece starts and ends with a line that shows something, wherever it
stands, and this is what keeps blank lines apart (`Spaced.wellSpaced`): they
come from the joints only.

The grammar has no case for a blank line at the end of a piece, and joining
sections never makes one (`spaced_joinSections`), whichever of them are empty.
-/
import Mathlib.Data.List.Chain
import TokenForge.Proofs.Fragment.Text
import TokenForge.Proofs.Text.Trim

namespace TokenForge

open Text (isBlank)

-- ============================================================ single lines

/-- A text without line feeds. -/
def OneLine (s : String) : Prop := '\n' ∉ s.toList

/-- A text that shows something: it is not blank. -/
def Visible (s : String) : Prop := ∃ c ∈ s.toList, isBlank c = false

/-- A text that fills a line. -/
structure FillsLine (s : String) : Prop where
  oneLine : OneLine s
  visible : Visible s

instance (s : String) : Decidable (OneLine s) :=
  inferInstanceAs (Decidable (_ ∉ _))

instance (s : String) : Decidable (Visible s) := List.decidableBEx _ s.toList

instance (s : String) : Decidable (FillsLine s) :=
  decidable_of_iff (OneLine s ∧ Visible s)
    ⟨fun h => ⟨h.1, h.2⟩, fun h => ⟨h.oneLine, h.visible⟩⟩

variable {s t : String}

theorem oneLine_append : OneLine (s ++ t) ↔ OneLine s ∧ OneLine t := by
  unfold OneLine
  rw [String.toList_append, List.mem_append, not_or]

theorem OneLine.append (hs : OneLine s) (ht : OneLine t) : OneLine (s ++ t) :=
  oneLine_append.2 ⟨hs, ht⟩

theorem OneLine.intercalate {l : List String} (hsep : OneLine s)
    (h : ∀ t ∈ l, OneLine t) :
    OneLine (s.intercalate l) := by
  induction l with
  | nil => exact List.not_mem_nil
  | cons t l ih =>
      obtain ⟨ht, hl⟩ := List.forall_mem_cons.1 h
      cases l with
      | nil =>
          rw [String.intercalate_singleton]
          exact ht
      | cons u l =>
          rw [String.intercalate_cons_cons]
          exact (ht.append hsep).append (ih hl)

theorem Visible.append_left (h : Visible s) (t : String) :
    Visible (s ++ t) := by
  obtain ⟨c, hc, hshown⟩ := h
  exact ⟨c, by rw [String.toList_append]; exact List.mem_append_left _ hc,
    hshown⟩

theorem Visible.append_right (h : Visible t) (s : String) :
    Visible (s ++ t) := by
  obtain ⟨c, hc, hshown⟩ := h
  exact ⟨c, by rw [String.toList_append]; exact List.mem_append_right _ hc,
    hshown⟩

/-- What fills a line may be followed by anything without a line feed. -/
theorem FillsLine.append (hs : FillsLine s) (ht : OneLine t) :
    FillsLine (s ++ t) :=
  ⟨hs.oneLine.append ht, hs.visible.append_left t⟩

/-- Indenting a line hides nothing and adds no line feed. -/
theorem FillsLine.indent (h : FillsLine s) (level : Nat) :
    FillsLine (Fragment.indentation level ++ s) := by
  refine ⟨OneLine.append (fun hmem => ?_) h.oneLine, h.visible.append_right _⟩
  rw [Fragment.indentation, String.toList_ofList] at hmem
  exact absurd (List.mem_replicate.1 hmem).2 (by decide)

-- ======================================================= well-spaced lines

/-- Lines among which the blank ones stand alone: the first and the
last line show something, of two neighbours one does, and a line that
shows nothing is empty. -/
structure WellSpaced (ls : List String) : Prop where
  first : ∃ l ∈ ls.head?, Visible l
  last : ∃ l ∈ ls.getLast?, Visible l
  apart : ls.IsChain fun a b => Visible a ∨ Visible b
  empty : ∀ l ∈ ls, Visible l ∨ l = ""
  oneLine : ∀ l ∈ ls, OneLine l

namespace WellSpaced

variable {a b : List String}

theorem singleton (h : FillsLine s) : WellSpaced [s] where
  first := ⟨s, rfl, h.visible⟩
  last := ⟨s, rfl, h.visible⟩
  apart := .singleton s
  empty := List.forall_mem_singleton.2 (.inl h.visible)
  oneLine := List.forall_mem_singleton.2 h.oneLine

/-- The first line still shows something when lines are added behind. -/
theorem first_append (ha : WellSpaced a) (b : List String) :
    ∃ l ∈ (a ++ b).head?, Visible l := by
  obtain ⟨l, hl, hshown⟩ := ha.first
  exact ⟨l, List.mem_head?_append_of_mem_head? hl, hshown⟩

/-- The last line still shows something when lines are added in front. -/
theorem last_append (hb : WellSpaced b) (a : List String) :
    ∃ l ∈ (a ++ b).getLast?, Visible l := by
  obtain ⟨l, hl, hshown⟩ := hb.last
  exact ⟨l, List.mem_getLast?_append_of_mem_getLast? hl, hshown⟩

/-- Well-spaced lines after well-spaced lines are so too. -/
theorem append (ha : WellSpaced a) (hb : WellSpaced b) :
    WellSpaced (a ++ b) where
  first := ha.first_append b
  last := hb.last_append a
  apart := by
    obtain ⟨l, hl, hshown⟩ := ha.last
    refine List.isChain_append.2 ⟨ha.apart, hb.apart, fun x hx y _ => .inl ?_⟩
    rwa [Option.mem_unique hx hl]
  empty := List.forall_mem_append.2 ⟨ha.empty, hb.empty⟩
  oneLine := List.forall_mem_append.2 ⟨ha.oneLine, hb.oneLine⟩

/-- An empty line may stand between two pieces. -/
theorem gap (ha : WellSpaced a) (hb : WellSpaced b) :
    WellSpaced (a ++ "" :: b) where
  first := ha.first_append _
  last := by
    have hlast := hb.last_append (a ++ [""])
    rwa [List.append_assoc, List.singleton_append] at hlast
  apart := by
    obtain ⟨l, hl, hshown⟩ := ha.last
    obtain ⟨f, hf, hshown'⟩ := hb.first
    refine List.isChain_append.2 ⟨ha.apart, ?_, fun x hx y _ => .inl ?_⟩
    · refine List.isChain_cons.2 ⟨fun y hy => .inr ?_, hb.apart⟩
      rwa [Option.mem_unique hy hf]
    · rwa [Option.mem_unique hx hl]
  empty := List.forall_mem_append.2
    ⟨ha.empty, List.forall_mem_cons.2 ⟨.inr rfl, hb.empty⟩⟩
  oneLine := List.forall_mem_append.2
    ⟨ha.oneLine, List.forall_mem_cons.2 ⟨by decide, hb.oneLine⟩⟩

end WellSpaced

namespace Fragment

-- ============================================================= the grammar

/-- Layouts in which every blank line joins two pieces that show something. -/
inductive Spaced : List Fragment → Prop where
  | line {s : String} (h : FillsLine s) : Spaced [.line s]
  | append {a b : List Fragment} (ha : Spaced a) (hb : Spaced b) :
      Spaced (a ++ b)
  | gap {a b : List Fragment} (ha : Spaced a) (hb : Spaced b) :
      Spaced (a ++ .blank :: b)
  | aroundNothing {a b : List Fragment} (ha : Spaced a) (hb : Spaced b) :
    Spaced (a ++ .block [] :: b)
  | around {a body b : List Fragment} (ha : Spaced a) (hbody : Spaced body)
      (hb : Spaced b) :
    Spaced (a ++ .block body :: b)

/-- A piece that may be missing. -/
def SpacedIfAny (fs : List Fragment) : Prop := fs = [] ∨ Spaced fs

variable {a b body fs : List Fragment}

theorem linesOf_block (level : Nat) (body rest : List Fragment) :
    linesOf level (.block body :: rest)
      = linesOf (level + 1) body ++ linesOf level rest := rfl

/-- The lines of a well-spaced layout are well spaced at every level. -/
theorem Spaced.wellSpaced (h : Spaced fs) (level : Nat) :
    WellSpaced (linesOf level fs) := by
  induction h generalizing level with
  | line h => exact .singleton (h.indent level)
  | append _ _ iha ihb =>
      rw [linesOf_append]
      exact (iha level).append (ihb level)
  | gap _ _ iha ihb =>
      rw [linesOf_append]
      exact (iha level).gap (ihb level)
  | aroundNothing _ _ iha ihb =>
      rw [linesOf_append, linesOf_block]
      exact (iha level).append (ihb level)
  | around _ _ _ iha ihbody ihb =>
      rw [linesOf_append, linesOf_block]
      exact (iha level).append ((ihbody (level + 1)).append (ihb level))

/-- What is in a block of a well-spaced layout is well spaced,
if there is anything. -/
theorem Spaced.of_block (h : Spaced fs) (hbody : .block body ∈ fs) :
    SpacedIfAny body := by
  induction h with
  | line => cases List.mem_singleton.1 hbody
  | append _ _ iha ihb => exact (List.mem_append.1 hbody).elim iha ihb
  | gap _ _ iha ihb =>
      rcases List.mem_append.1 hbody with hbody | hbody
      · exact iha hbody
      · exact ihb ((List.mem_cons.1 hbody).resolve_left nofun)
  | aroundNothing _ _ iha ihb =>
      rcases List.mem_append.1 hbody with hbody | hbody
      · exact iha hbody
      · rcases List.mem_cons.1 hbody with heq | hbody
        · cases heq
          exact .inl rfl
        · exact ihb hbody
  | around _ hinner _ iha _ ihb =>
      rcases List.mem_append.1 hbody with hbody | hbody
      · exact iha hbody
      · rcases List.mem_cons.1 hbody with heq | hbody
        · cases heq
          exact .inr hinner
        · exact ihb hbody

/-- A block between well-spaced parts may be empty. -/
theorem Spaced.around_ifAny (ha : Spaced a) (hbody : SpacedIfAny body)
    (hb : Spaced b) :
    Spaced (a ++ .block body :: b) := by
  rcases hbody with rfl | hbody
  · exact .aroundNothing ha hb
  · exact .around ha hbody hb

-- ================================================================ sections

/-- Lines that show something, one below the other. -/
theorem spaced_lines {α : Type} {l : List α} (text : α → String)
    (h : ∀ x ∈ l, FillsLine (text x)) :
    SpacedIfAny (l.map fun x => .line (text x)) := by
  induction l with
  | nil => exact .inl rfl
  | cons x l ih =>
      obtain ⟨hx, hl⟩ := List.forall_mem_cons.1 h
      have hfirst : Spaced [.line (text x)] := .line hx
      rcases ih hl with hnil | hrest
      · rw [List.map_cons, hnil]
        exact .inr hfirst
      · exact .inr (hfirst.append hrest)

/-- Pieces with one blank line between neighbours. -/
theorem spaced_intercalate {pieces : List (List Fragment)} (hne : pieces ≠ [])
    (h : ∀ p ∈ pieces, Spaced p) :
    Spaced ([Fragment.blank].intercalate pieces) := by
  induction pieces with
  | nil => exact absurd rfl hne
  | cons p pieces ih =>
      obtain ⟨hp, hpieces⟩ := List.forall_mem_cons.1 h
      cases pieces with
      | nil =>
          rw [List.intercalate_singleton]
          exact hp
      | cons q pieces =>
          rw [List.intercalate_cons_cons, List.append_assoc,
            List.singleton_append]
          exact hp.gap (ih (List.cons_ne_nil q pieces) hpieces)

/-- Joining sections leaves no blank line at an end,
whichever of them are empty. -/
theorem spaced_joinSections {sections : List (List Fragment)}
    (h : ∀ s ∈ sections, SpacedIfAny s) :
    SpacedIfAny (joinSections sections) := by
  unfold joinSections
  by_cases hnone : (sections.filter fun s => !s.isEmpty) = []
  · rw [hnone]
    exact .inl rfl
  · refine .inr (spaced_intercalate hnone fun s hs => ?_)
    obtain ⟨hmem, hkept⟩ := List.mem_filter.1 hs
    have hne : s ≠ [] := by simpa using hkept
    exact (h s hmem).resolve_left hne

/-- Two sections are joined to a well-spaced layout, or to none. -/
theorem spaced_joinPair (ha : SpacedIfAny a) (hb : SpacedIfAny b) :
    SpacedIfAny (joinSections [a, b]) := by
  apply spaced_joinSections
  intro s hs
  rcases List.mem_cons.1 hs with rfl | hs
  · exact ha
  · rw [List.mem_singleton.1 hs]
    exact hb

end Fragment

-- ================================================================= braces

/-- A heading, what it opens and the line that closes it, one below the other.
No blank line follows the heading, and none precedes the line that closes. -/
structure Encloses (lines heading inside : List String) (closing : String) :
    Prop where
  placed : heading ++ inside ++ [closing] <:+: lines
  opened : ∃ l ∈ (inside ++ [closing]).head?, Visible l
  closed : ∃ l ∈ (heading ++ inside).getLast?, Visible l

/-- What encloses lines does so in a longer text. -/
theorem Encloses.mono {lines more heading inside : List String}
    {closing : String} (h : Encloses lines heading inside closing)
    (hlines : lines <:+: more) :
    Encloses more heading inside closing :=
  { h with placed := h.placed.trans hlines }

namespace Fragment

theorem linesOf_infix {a b : List Fragment} (level : Nat) (h : a <:+: b) :
    linesOf level a <:+: linesOf level b := by
  obtain ⟨before, after, rfl⟩ := h
  exact ⟨linesOf level before, linesOf level after,
    by rw [linesOf_append, linesOf_append]⟩

theorem linesOf_infix_of_block {body fs : List Fragment} (level : Nat)
    (h : Fragment.block body ∈ fs) :
    linesOf (level + 1) body <:+: linesOf level fs := by
  obtain ⟨before, after, rfl⟩ := List.append_of_mem h
  refine ⟨linesOf level before, linesOf level after, ?_⟩
  rw [linesOf_append, linesOf_block, List.append_assoc]

/-- A block of well-spaced layout, or of nothing, below a heading and above the
line that closes it. -/
theorem encloses_block {heading body fs : List Fragment} {closing : String}
    {level : Nat}
    (hheading : ∃ l ∈ (linesOf level heading).getLast?, Visible l)
    (hbody : SpacedIfAny body) (hclosing : Visible closing)
    (h : heading ++ [.block body, .line closing] <:+: fs) :
    Encloses (linesOf level fs) (linesOf level heading)
      (linesOf (level + 1) body)
      (indentation level ++ closing) where
  placed := by
    have hlines := linesOf_infix level h
    rw [linesOf_append, linesOf_block] at hlines
    rw [List.append_assoc]
    exact hlines
  opened := by
    rcases hbody with rfl | hbody
    · exact ⟨_, rfl, hclosing.append_right _⟩
    · exact (hbody.wellSpaced _).first_append _
  closed := by
    rcases hbody with rfl | hbody
    · rw [linesOf, List.append_nil]
      exact hheading
    · exact (hbody.wellSpaced _).last_append _

end Fragment

-- ================================================================ the end

/-- A text that ends with exactly one line feed. -/
def EndsOnce (text : String) : Prop :=
  ∃ front c, text.toList = front ++ [c, '\n'] ∧ c ≠ '\n'

/-- Well-spaced lines end with the line feed of the last. -/
theorem WellSpaced.endsOnce {ls : List String} (h : WellSpaced ls) :
    EndsOnce (String.join (ls.map (· ++ "\n"))) := by
  obtain ⟨l, hl, c, hc, -⟩ := h.last
  obtain ⟨front, rfl⟩ := List.getLast?_eq_some_iff.1 hl
  have hone : OneLine l :=
    h.oneLine l (List.mem_append_right _ (List.mem_singleton_self l))
  rcases List.eq_nil_or_concat' l.toList with hnil | ⟨start, last, hlast⟩
  · rw [hnil] at hc
    cases hc
  · refine ⟨(String.join (front.map (· ++ "\n"))).toList ++ start,
      last, ?_, ?_⟩
    · rw [List.map_append, String.join_append, List.map_singleton,
        String.join_cons, String.join_nil, String.append_empty,
        String.toList_append, String.toList_append, hlast]
      simp
    · rintro rfl
      apply hone
      rw [hlast]
      exact List.mem_append_right _ (List.mem_singleton_self _)

end TokenForge
