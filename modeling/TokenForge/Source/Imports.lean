/-
The import section: every path once, where it was first needed.
-/
import TokenForge.Fragment.Basic
import TokenForge.Source.Naming

namespace TokenForge

/-- Import paths without repetition, in the order they were first added. -/
structure Imports where
  paths : List String
  deriving DecidableEq, Repr

namespace Imports

/-- No imports. -/
def empty : Imports := ⟨[]⟩

/-- The imports with one more path; a path that is there stays where it is. -/
def add (imports : Imports) (path : String) : Imports :=
  if path ∈ imports.paths then imports else ⟨imports.paths ++ [path]⟩

/-- The imports of a list of paths. -/
def ofList (paths : List String) : Imports := paths.foldl add empty

/-- The statement that imports a path. -/
def statement (path : String) : String := "import \"" ++ path ++ "\";"

/-- One statement for each path. -/
def statements (imports : Imports) : List String := imports.paths.map statement

theorem paths_add_of_mem {imports : Imports} {path : String}
    (h : path ∈ imports.paths) :
    (imports.add path).paths = imports.paths := by
  simp [add, h]

theorem paths_add_of_not_mem {imports : Imports} {path : String}
    (h : path ∉ imports.paths) :
    (imports.add path).paths = imports.paths ++ [path] := by
  simp [add, h]

end Imports

/-- The paths of a contract's bases and libraries, as the contract needs
them. -/
def Contract.importPaths (c : Contract) : List String :=
  (c.bases.map (·.dependency.path)
    ++ c.attachments.map (·.library.path)).map c.shownPath

end TokenForge
