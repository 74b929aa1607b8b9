/-
The import section of a printed file, told from the contracts alone. Each
contract needs the files of its bases and then those of its libraries, and
prints their paths rewritten twice: for the upgradeable package if it is
written against it, and then by the transformation of the file. The section
has one line for each printed path, where the path first occurs
(`import_section_exact`).

It is the printed paths that are told apart, not what stands in the contracts.
Different paths of one contract, or of contracts in different modes, share a
line as soon as the rewriting makes them equal, and one path that two contracts
rewrite differently has two.
-/
import TokenForge.Proofs.Source.Transform

namespace TokenForge.SourceFile

-- ================================================================ the paths

/-- The paths of a file's contracts as they are printed: contract by contract,
first those of the bases and then those of the libraries, in the order in
which they were added. -/
def renderedPaths (transform : String → String) (cs : List Contract) :
    List String :=
  cs.flatMap fun c =>
    (c.bases.map (·.dependency.path) ++ c.attachments.map (·.library.path)).map
      fun path =>
      transform (if c.upgradeable then Package.upgradeablePath path else path)

theorem renderedPaths_eq (transform : String → String) (cs : List Contract) :
    renderedPaths transform cs
      = cs.flatMap fun c => c.importPaths.map transform := by
  unfold renderedPaths Contract.importPaths
  simp only [List.map_map]
  rfl

/-- The paths that are collected are the first occurrences
of the printed ones. -/
theorem paths_imports (transform : String → String) (cs : List Contract) :
    (imports transform cs).paths = (renderedPaths transform cs).eraseDups := by
  unfold imports
  rw [Imports.paths_ofList, renderedPaths_eq]

-- ================================================================= the text

theorem print_eq_textWith_imports {transform : String → String}
    {cs : List Contract} {text : String} (h : print transform cs = .ok text) :
    text = textWith cs (imports transform cs).paths := by
  have hprint := print_eq_textWith transform (blocks_of_print h)
  rw [← paths_imports_transform] at hprint
  exact Except.ok.inj (h.symm.trans hprint)

/-- A text has an import line for a path between the
header and the contracts. -/
def HasImport (cs : List Contract) (text path : String) : Prop :=
  ∃ paths, text = textWith cs paths ∧ path ∈ paths

/-- Every printed path has its line. -/
theorem hasImport_of_print {transform : String → String} {cs : List Contract}
    {text : String} (h : print transform cs = .ok text) {path : String}
    (hpath : path ∈ renderedPaths transform cs) : HasImport cs text path := by
  refine ⟨_, print_eq_textWith_imports h, ?_⟩
  rw [paths_imports, List.mem_eraseDups]
  exact hpath

-- ============================================================== the theorem

/-- The import lines of a printed file: below the header and above the
contracts, one line for each path that some contract prints, at the first place
where one does. No path is missing and no line is there twice. -/
theorem import_section_exact (transform : String → String) (cs : List Contract)
    (text : String) (h : print transform cs = .ok text) :
    ∃ paths,
      text = headerText (license cs)
          ++ importText (paths.map fun path => "import \"" ++ path ++ "\";")
          ++ String.join (cs.map fun c => "\n" ++ c.blockText)
        ∧ FirstOccurrences (renderedPaths transform cs) paths
        ∧ (paths.map fun path => "import \"" ++ path ++ "\";").Nodup := by
  have hfirst : FirstOccurrences (renderedPaths transform cs)
      (imports transform cs).paths :=
    firstOccurrences_iff.2 (paths_imports transform cs)
  exact ⟨_, print_eq_textWith_imports h, hfirst,
    hfirst.once.map Imports.statement_injective⟩

/-- Two contracts with five dependencies in three files. The upgradeable one
takes `Votes` from the contracts package and the plain one takes its
upgradeable form by its own path, which becomes one line. They share a file of
their own. The plain one takes `Votes` itself, too, from the path that the
upgradeable one rewrites. -/
theorem import_section_of_sharedFiles :
    let proxied := Contract.replay [.upgradeable,
      .attachment ⟨⟨"Local", "./Local.sol"⟩, "uint256"⟩,
      .base ⟨⟨"Votes", "@openzeppelin/contracts/Votes.sol"⟩, []⟩]
        { name := "Proxied" }
    let plain := Contract.replay [
      .base ⟨⟨"VotesUpgradeable",
        "@openzeppelin/contracts-upgradeable/VotesUpgradeable.sol"⟩, []⟩,
      .base ⟨⟨"Local", "./Local.sol"⟩, []⟩,
      .base ⟨⟨"Votes", "@openzeppelin/contracts/Votes.sol"⟩, []⟩]
        { name := "Plain" }
    printVersioned [proxied, plain] = .ok (headerText "MIT"
      ++ importText
        ["import \"@openzeppelin/contracts-upgradeable@4.3.2/"
          ++ "VotesUpgradeable.sol\";",
        "import \"./Local.sol\";",
        "import \"@openzeppelin/contracts@4.3.2/Votes.sol\";"]
      ++ String.join ["\n" ++ proxied.blockText,
        "\n" ++ plain.blockText]) := by
  intro proxied plain
  obtain ⟨text, hprint⟩ :
      ∃ text, printVersioned [proxied, plain] = .ok text := ⟨_, rfl⟩
  obtain ⟨paths, htext, hfirst, -⟩ :=
    import_section_exact (Package.pin Version.bundled)
      [proxied, plain] text hprint
  have hpaths : paths
      = ["@openzeppelin/contracts-upgradeable@4.3.2/VotesUpgradeable.sol",
      "./Local.sol", "@openzeppelin/contracts@4.3.2/Votes.sol"] := by
    rw [firstOccurrences_iff.1 hfirst]
    decide
  rw [hprint, htext, hpaths]
  rfl

end TokenForge.SourceFile
