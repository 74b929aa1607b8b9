/-
The writer: text under construction and the indent level it has reached. A
line takes four spaces for each level; a blank line takes none. A block
raises the level for its own fragments and gives the old level back, whatever
the level was, so a fragment's text depends on nothing but the level where it
starts.
-/
import TokenForge.Fragment.Basic

namespace TokenForge

/-- Text under construction. -/
structure Writer where
  /-- How many levels deep the next line stands. -/
  level : Nat
  /-- The lines written so far. -/
  text : String
  deriving DecidableEq, Repr

namespace Writer

/-- Nothing written yet. -/
def empty : Writer := ⟨0, ""⟩

-- ============================================================ commands

/-- Writes one line at the current level. -/
def line (s : String) (w : Writer) : Writer :=
  { w with text := w.text ++ Fragment.indentation w.level ++ s ++ "\n" }

/-- Writes an empty line. -/
def blank (w : Writer) : Writer := { w with text := w.text ++ "\n" }

/-- Goes one level deeper. -/
def indent (w : Writer) : Writer := { w with level := w.level + 1 }

/-- Goes one level back; at the outermost level it stays. -/
def dedent (w : Writer) : Writer := { w with level := w.level - 1 }

mutual

/-- Writes one fragment. -/
def apply : Fragment → Writer → Writer
  | .line s, w => w.line s
  | .blank, w => w.blank
  | .block body, w => (emit body w.indent).dedent

/-- Writes fragments in order. -/
def emit : List Fragment → Writer → Writer
  | [], w => w
  | f :: rest, w => emit rest (apply f w)

end

-- ============================================================ equations

theorem emit_nil (w : Writer) : emit [] w = w := rfl

theorem emit_cons (f : Fragment) (rest : List Fragment) (w : Writer) :
    emit (f :: rest) w = emit rest (apply f w) := rfl

theorem emit_append (a b : List Fragment) (w : Writer) :
    emit (a ++ b) w = emit b (emit a w) := by
  induction a generalizing w with
  | nil => rfl
  | cons f a ih => exact ih (apply f w)

mutual

/-- A fragment leaves the level where it was. -/
theorem level_apply (f : Fragment) (w : Writer) :
    (apply f w).level = w.level := by
  match f with
  | .line s => rfl
  | .blank => rfl
  | .block body => simp [apply, dedent, indent, level_emit body]

/-- Fragments leave the level where it was. -/
theorem level_emit (fs : List Fragment) (w : Writer) :
    (emit fs w).level = w.level := by
  match fs with
  | [] => rfl
  | f :: rest => rw [emit_cons, level_emit rest, level_apply f]

end

end Writer

/-- The text of fragments written from the outermost level. -/
def Fragment.render (fs : List Fragment) : String :=
  (Writer.emit fs .empty).text

end TokenForge
