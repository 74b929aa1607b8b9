/-
Names and files of the contracts package. An upgradeable contract renames what
it takes from the package, and it rewrites the paths of the files it takes it
from, each by a rule of its own: the name is cut at its first dot, the path at
its last slash and the file at its last dot. The rules agree on a file that is
named after its contract, whatever the name: the file that is imported is named
after the name that is printed (`imported_file_follows_name`).

Pinning puts the release behind the name of the package and leaves the rest of
the path alone, so it keeps the two in step.
-/
import TokenForge.Proofs.Source.ImportSection
import TokenForge.Proofs.Source.PrintedNames

namespace TokenForge

-- ================================================================ the files

/-- The file of a contract or library is in a directory of the contracts
package, and named after it. -/
structure Dependency.NamesItsFile (d : Dependency) (directory : String) :
    Prop where
  isDirectory : Package.IsDirectory directory
  /-- The name has no directory in it. -/
  isFile : '/' ∉ d.name.toList
  path_eq : d.path = "@openzeppelin/contracts/" ++ directory
    ++ d.name ++ ".sol"

instance (d : Dependency) (directory : String) :
    Decidable (d.NamesItsFile directory) :=
  decidable_of_iff (Package.IsDirectory directory ∧ '/' ∉ d.name.toList
      ∧ d.path = "@openzeppelin/contracts/" ++ directory ++ d.name ++ ".sol")
    ⟨fun h => ⟨h.1, h.2.1, h.2.2⟩,
      fun h => ⟨h.isDirectory, h.isFile, h.path_eq⟩⟩

/-- The path of a file of the upgradeable package, pinned. -/
theorem Package.pin_upgradeable (version : Version) (path : String) :
    pin version ("@openzeppelin/contracts-upgradeable/" ++ path)
      = "@openzeppelin/contracts-upgradeable@" ++ version.text ++ "/"
        ++ path := by
  have hroot : "@openzeppelin/contracts-upgradeable/" ++ path
      = "@openzeppelin/contracts-upgradeable" ++ ("/" ++ path) := by
    rw [← String.append_assoc]
    rfl
  rw [hroot, pin_inside version (by decide) (.inr ⟨path, rfl⟩),
    ← String.append_assoc]
  rfl

namespace Contract

variable {c : Contract} {d : Dependency}

/-- What an upgradeable contract imports for a name. -/
theorem shownPath_of_namesItsFile (hup : c.upgradeable = true)
    {directory : String} (h : d.NamesItsFile directory) :
    c.shownPath d.path
      = "@openzeppelin/contracts-upgradeable/"
        ++ (directory ++ c.shownName d.name ++ ".sol") := by
  have hpath := Package.upgradeablePath_of_file h.isDirectory h.isFile
  unfold shownPath shownName
  rw [if_pos hup, if_pos hup, h.path_eq]
  simp only [String.append_assoc] at hpath ⊢
  exact hpath

/-- The paths of all dependencies are printed. -/
theorem mem_renderedPaths {transform : String → String} {cs : List Contract}
    (hc : c ∈ cs) (hd : d ∈ c.dependencies) :
    transform (c.shownPath d.path)
      ∈ SourceFile.renderedPaths transform cs := by
  have hpath : d.path ∈ c.bases.map (·.dependency.path) ++ c.attachments.map
      (·.library.path) := by
    rw [dependencies, List.mem_append, List.mem_map, List.mem_map] at hd
    rcases hd with ⟨b, hb, rfl⟩ | ⟨a, ha, rfl⟩
    · exact List.mem_append_left _ (List.mem_map_of_mem hb)
    · exact List.mem_append_right _ (List.mem_map_of_mem ha)
  unfold SourceFile.renderedPaths
  exact List.mem_flatMap.2 ⟨c, hc, List.mem_map.2 ⟨_, hpath, rfl⟩⟩

-- ============================================================== the theorem

/-- In the text of a file, what a contract takes from files that are named
after it is imported from files of the package at a root, and these are named
after the names that are printed. -/
structure FilesFollowNames (c : Contract) (cs : List Contract)
    (text root : String) : Prop where
  /-- The names stand after `is`, in `using` lines and in override clauses. -/
  names : c.ShownNames text
  /-- The files are imported under these names. -/
  files : ∀ d ∈ c.dependencies, ∀ directory, d.NamesItsFile directory →
    SourceFile.HasImport cs text
      (root ++ directory ++ c.shownName d.name ++ ".sol")

/-- A file is imported under the name that is printed, if the transformation of
the paths moves the upgradeable package to another root. -/
theorem filesFollowNames_of_print {name : String} {history : List Step}
    (hc : c = replay history { name }) (hup : c.upgradeable = true)
    {transform : String → String} {root : String}
    (hroot : ∀ path,
      transform ("@openzeppelin/contracts-upgradeable/" ++ path)
        = root ++ path)
    {cs : List Contract} {text : String} (hmem : c ∈ cs)
    (h : SourceFile.print transform cs = .ok text) :
    c.FilesFollowNames cs text root where
  names := shownNames_of_print hc hmem h
  files := by
    intro d hd directory hfile
    have hpath : transform (c.shownPath d.path)
        ∈ SourceFile.renderedPaths transform cs :=
      mem_renderedPaths hmem hd
    have himport := SourceFile.hasImport_of_print h hpath
    rw [shownPath_of_namesItsFile hup hfile, hroot] at himport
    simpa only [String.append_assoc] using himport

end Contract

open Contract

/-- A path of the contracts package that ends in the name of a contract,
after any directory, becomes the path of the upgradeable package that ends in
the contract's name there. So whatever an upgradeable contract takes from a
file that is named after it, be it a base or a library, is imported from the
file that is named after the name that is printed, with and without the
release in the path. -/
theorem imported_file_follows_name :
    (∀ directory name, Package.IsDirectory directory → '/' ∉ name.toList →
        Package.upgradeablePath
          ("@openzeppelin/contracts/" ++ directory ++ name ++ ".sol")
          = "@openzeppelin/contracts-upgradeable/" ++ directory
            ++ Package.upgradeableName name
            ++ ".sol")
      ∧ ∀ (name : String) (history : List Step),
        let c := replay history { name }
        c.upgradeable = true → ∀ (cs : List Contract) (text : String), c ∈ cs →
          (SourceFile.printPlain cs = .ok text →
              c.FilesFollowNames cs text
                "@openzeppelin/contracts-upgradeable/")
            ∧ (SourceFile.printVersioned cs = .ok text →
              c.FilesFollowNames cs text
                "@openzeppelin/contracts-upgradeable@4.3.2/") := by
  refine ⟨fun directory name hdirectory hname => ?_, ?_⟩
  · exact Package.upgradeablePath_of_file hdirectory hname
  · intro name history c hup cs text hc
    refine ⟨fun h => ?_, fun h => ?_⟩
    · exact filesFollowNames_of_print rfl hup (fun path => rfl) hc h
    · refine filesFollowNames_of_print rfl hup (fun path => ?_) hc h
      rw [Package.pin_upgradeable]
      rfl

/-- An upgradeable contract with names of every kind: the one that keeps its
name, an interface, one that has the suffix, one at the root of the package,
and a library whose name has a dot. -/
def packageNames : List Step :=
  [.upgradeable,
    .base ⟨⟨"Initializable",
      "@openzeppelin/contracts/proxy/utils/Initializable.sol"⟩, []⟩,
    .base ⟨⟨"IERC165",
      "@openzeppelin/contracts/utils/introspection/IERC165.sol"⟩, []⟩,
    .base ⟨⟨"UUPSUpgradeable",
      "@openzeppelin/contracts/proxy/utils/UUPSUpgradeable.sol"⟩, []⟩,
    .base ⟨⟨"Votes", "@openzeppelin/contracts/Votes.sol"⟩, []⟩,
    .attachment ⟨⟨"Counters.Lib",
      "@openzeppelin/contracts/utils/Counters.Lib.sol"⟩,
      "Counters.Counter"⟩]

/-- Each printed name has its file, in the pinned package; and a path without a
name is rewritten all the same. -/
theorem imported_files_of_packageNames :
    let c := replay packageNames { name := "Token" }
    let pinned := "@openzeppelin/contracts-upgradeable@4.3.2/"
    ∃ text, SourceFile.printVersioned [c] = .ok text ∧ c.ShownNames text
      ∧ c.heading
        = "contract Token is Initializable, IERC165, UUPSUpgradeable, "
          ++ "VotesUpgradeable \x7b"
      ∧ c.usingLines
        = ["using CountersUpgradeable.Lib for CountersUpgradeable.Counter;"]
      ∧ SourceFile.HasImport [c] text
        (pinned ++ "proxy/utils/" ++ "Initializable" ++ ".sol")
      ∧ SourceFile.HasImport [c] text
        (pinned ++ "utils/introspection/" ++ "IERC165" ++ ".sol")
      ∧ SourceFile.HasImport [c] text
        (pinned ++ "proxy/utils/" ++ "UUPSUpgradeable" ++ ".sol")
      ∧ SourceFile.HasImport [c] text
        (pinned ++ "" ++ "VotesUpgradeable" ++ ".sol")
      ∧ SourceFile.HasImport [c] text
        (pinned ++ "utils/" ++ "CountersUpgradeable.Lib" ++ ".sol")
      ∧ Package.upgradeablePath
        ("@openzeppelin/contracts/" ++ "//" ++ "" ++ ".sol")
        = "@openzeppelin/contracts-upgradeable/" ++ "//" ++ "Upgradeable"
          ++ ".sol" := by
  intro c pinned
  obtain ⟨text, hprint⟩ :
      ∃ text, SourceFile.printVersioned [c] = .ok text := ⟨_, rfl⟩
  obtain ⟨hpath, hcontracts⟩ := imported_file_follows_name
  obtain ⟨hnames, hfiles⟩ := (hcontracts "Token" packageNames rfl [c] text
    (List.mem_singleton_self c)).2 hprint
  refine ⟨text, hprint, hnames, by decide +kernel, by decide +kernel, ?_, ?_,
    ?_, ?_, ?_, hpath "//" "" (by decide) (by decide)⟩
  · exact hfiles ⟨"Initializable",
      "@openzeppelin/contracts/proxy/utils/Initializable.sol"⟩
      (by decide) "proxy/utils/" (by decide)
  · exact hfiles ⟨"IERC165",
      "@openzeppelin/contracts/utils/introspection/IERC165.sol"⟩ (by decide)
      "utils/introspection/" (by decide)
  · exact hfiles ⟨"UUPSUpgradeable",
      "@openzeppelin/contracts/proxy/utils/UUPSUpgradeable.sol"⟩
      (by decide) "proxy/utils/" (by decide)
  · exact hfiles ⟨"Votes", "@openzeppelin/contracts/Votes.sol"⟩ (by decide) ""
      (by decide)
  · exact hfiles ⟨"Counters.Lib",
      "@openzeppelin/contracts/utils/Counters.Lib.sol"⟩ (by decide)
      "utils/" (by decide)

end TokenForge
