/-
The import lines of a file from those of its contracts. Collecting paths is
leaving out later repetitions (`Imports.paths_ofList`), and two paths never
have the same statement, so paths can be collected contract by contract:
what each contract imports when it is printed alone, put together and without
later repetitions, is what the file imports (`statements_imports`).
-/
import TokenForge.Proofs.FirstOccurrence
import TokenForge.Source.File

namespace TokenForge

namespace Imports

/-- Collecting paths is leaving out later repetitions. -/
theorem paths_ofList (paths : List String) :
    (ofList paths).paths = paths.eraseDups := by
  induction paths using List.reverseRecOn with
  | nil => rfl
  | append_singleton paths path ih =>
      have hadd : ofList (paths ++ [path]) = (ofList paths).add path :=
        List.foldl_append
      rw [hadd, eraseDups_concat, ← ih]
      by_cases hpath : path ∈ paths
      · have hmem : path ∈ (ofList paths).paths := by
          rw [ih]
          exact List.mem_eraseDups.2 hpath
        rw [if_pos hpath, paths_add_of_mem hmem]
      · have hmem : path ∉ (ofList paths).paths := by
          rw [ih]
          exact fun h => hpath (List.mem_eraseDups.1 h)
        rw [if_neg hpath, paths_add_of_not_mem hmem]

/-- Paths are imported only if they are asked for. -/
theorem mem_paths_ofList {paths : List String} {path : String}
    (h : path ∈ (ofList paths).paths) : path ∈ paths := by
  rw [paths_ofList] at h
  exact List.mem_eraseDups.1 h

theorem statement_injective : Function.Injective statement := by
  intro p q h
  unfold statement at h
  rwa [String.append_left_inj, String.append_right_inj] at h

end Imports

namespace SourceFile

/-- The import lines of a contract that is printed alone. -/
def importLines (transform : String → String) (c : Contract) : List String :=
  (imports transform [c]).statements

/-- A file imports what its contracts import when they are printed alone. -/
theorem statements_imports (transform : String → String) (cs : List Contract) :
    (imports transform cs).statements
      = (cs.flatMap (importLines transform)).eraseDups := by
  have hlines : importLines transform = fun c =>
      ((c.importPaths.map transform).eraseDups).map Imports.statement := by
    funext c
    unfold importLines Imports.statements imports
    rw [List.flatMap_singleton, Imports.paths_ofList]
  rw [hlines, ← List.map_flatMap, eraseDups_map Imports.statement_injective,
    eraseDups_flatMap, ← Imports.paths_ofList]
  rfl

end SourceFile

end TokenForge
