/-
Pieces of source text before they are indented: lines, blank lines and
blocks one level deeper. Only the writer (`Fragment/Writer.lean`) turns them
into text, so no other part of the library ever counts spaces.

`joinSections` puts one blank line between the sections that have something
in them. It is `List.intercalate` after a filter, so an empty section leaves
no trace: not even a doubled blank line.
-/
namespace TokenForge

/-- A piece of source text. -/
inductive Fragment where
  /-- One line, indented where it is written. -/
  | line (text : String)
  /-- An empty line, never indented. -/
  | blank
  /-- Fragments one level deeper. -/
  | block (body : List Fragment)
  deriving Inhabited

namespace Fragment

-- ============================================================ sections

/-- The non-empty sections in order, one blank line between neighbours. -/
def joinSections (sections : List (List Fragment)) : List Fragment :=
  [Fragment.blank].intercalate (sections.filter fun s => !s.isEmpty)

theorem joinSections_nil : joinSections [] = [] := rfl

/-- An empty section leaves no trace. -/
theorem joinSections_cons_nil (sections : List (List Fragment)) :
    joinSections ([] :: sections) = joinSections sections := by
  simp [joinSections]

/-- A single section is itself. -/
theorem joinSections_singleton (s : List Fragment) : joinSections [s] = s := by
  cases s <;> simp [joinSections, List.intercalate]

-- =============================================================== lines

/-- The spaces before a line that stands `level` deep: four for each level. -/
def indentation (level : Nat) : String :=
  String.ofList (List.replicate (4 * level) ' ')

theorem indentation_zero : indentation 0 = "" := rfl

mutual

/-- The lines of a fragment that stands `level` deep, without line feeds. -/
def lines (level : Nat) : Fragment → List String
  | .line text => [indentation level ++ text]
  | .blank => [""]
  | .block body => linesOf (level + 1) body

/-- The lines of fragments that stand `level` deep, in order. -/
def linesOf (level : Nat) : List Fragment → List String
  | [] => []
  | f :: rest => lines level f ++ linesOf level rest

end

theorem linesOf_append (level : Nat) (a b : List Fragment) :
    linesOf level (a ++ b) = linesOf level a ++ linesOf level b := by
  induction a with
  | nil => rfl
  | cons f a ih => simp [linesOf, ih]

end Fragment

end TokenForge
