/-
Files that a command writes, and what becomes of a file that is there
already: rendered sources are always written anew, files that a user edits
only where there is none.
-/
import TokenForge.Workspace.Basic

namespace TokenForge

/-- How a file at the same path is handled. -/
inductive Overwrite where
  | always
  | ifMissing
  deriving DecidableEq, Repr

/-- A file to be written. -/
structure OutputFile where
  path : String
  content : String
  overwrite : Overwrite := .always
  deriving DecidableEq, Repr

/-- What became of a file that was to be written. -/
inductive WriteResult where
  | written
  /-- Something is there already. -/
  | skipped
  deriving DecidableEq, Repr

/-- Writes a file as its rule says; none if it cannot be written. -/
def Workspace.save (w : Workspace) (f : OutputFile) :
    Workspace × Option WriteResult :=
  if f.overwrite = .ifMissing ∧ w.pathExists f.path then (w, some .skipped)
  else
    match w.write f.path f.content with
    | (w, true) => (w, some .written)
    | (w, false) => (w, none)

end TokenForge
