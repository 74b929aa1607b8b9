/-
A transformation of the import paths changes import lines only. Whether a file
can be printed is decided by its blocks, which know nothing of the
transformation, so every transformation fails with the same error or not at
all. The paths are collected after the transformation, but clearing a list of
repetitions before or after renaming its elements leaves the same, so the lines
of a transformed file are told from those of the plain one
(`paths_imports_transform`), although a transformation may put paths together.

Pinning to a release is the transformation that matters: it changes exactly
the paths of the two packages.
-/
import TokenForge.Proofs.Package.Pin
import TokenForge.Proofs.Source.Composition

namespace TokenForge.SourceFile

-- ================================================================ the paths

/-- The paths that a file imports, in their order. -/
def importedPaths (cs : List Contract) : List String := (imports id cs).paths

/-- The paths of a file under a transformation are those it imports,
transformed and cleared of repetitions. -/
theorem paths_imports_transform (transform : String → String)
    (cs : List Contract) :
    (imports transform cs).paths
      = ((importedPaths cs).map transform).eraseDups := by
  have hid : (cs.flatMap fun c => c.importPaths.map id)
      = cs.flatMap Contract.importPaths := by
    simp only [List.map_id]
  unfold importedPaths imports
  rw [Imports.paths_ofList, Imports.paths_ofList, hid, eraseDups_map_eraseDups,
    List.map_flatMap]

theorem importedPaths_distinct (cs : List Contract) :
    (importedPaths cs).eraseDups = importedPaths cs := by
  have h := paths_imports_transform id cs
  rw [List.map_id] at h
  exact h.symm

-- ================================================================= the text

/-- The text of a file with given import paths. -/
def textWith (cs : List Contract) (paths : List String) : String :=
  headerText (license cs) ++ importText (paths.map Imports.statement)
    ++ String.join (cs.map fun c => "\n" ++ c.blockText)

theorem blocks_of_print {transform : String → String} {cs : List Contract}
    {text : String} (h : print transform cs = .ok text) :
    ∀ c ∈ cs, ∃ b, c.block = .ok b := by
  obtain ⟨blocks, hblocks, -⟩ := print_eq_ok.1 h
  intro c hc
  obtain ⟨b, -, hb⟩ := mem_of_mapM hblocks hc
  exact ⟨b, hb⟩

theorem print_eq_textWith (transform : String → String) {cs : List Contract}
    (h : ∀ c ∈ cs, ∃ b, c.block = .ok b) :
    print transform cs
      = .ok (textWith cs ((importedPaths cs).map transform).eraseDups) := by
  rw [print_of_blocks transform h, ← statements_imports]
  unfold Imports.statements textWith
  rw [paths_imports_transform]

/-- A file fails to be printed with the error of its blocks. -/
theorem print_eq_error {transform : String → String} {cs : List Contract}
    {e : ContractError} :
    print transform cs = .error e ↔ cs.mapM Contract.block = .error e := by
  unfold print
  cases cs.mapM Contract.block with
  | error e' =>
      constructor
      · intro h
        cases h
        rfl
      · intro h
        cases h
        rfl
  | ok blocks =>
      constructor
      · intro h
        cases h
      · intro h
        cases h

-- ============================================================== the theorem

open Package (GoesInside)

/-- A file is printed under every transformation of its import paths or under
none, with the same error, and the transformation replaces the list of imported
paths by what it makes of them, each once, where it first occurs. The pinned
file is the case that puts the release after the name of the contracts package
and of its upgradeable variant, and leaves the paths of all others. -/
theorem print_transform :
    (∀ (transform : String → String) (cs : List Contract) (e : ContractError),
        print transform cs = .error e ↔ printPlain cs = .error e)
      ∧ (∀ (transform : String → String) (cs : List Contract) (text : String),
        printPlain cs = .ok text →
          text = textWith cs (importedPaths cs)
            ∧ print transform cs
              = .ok (textWith cs ((importedPaths cs).map transform).eraseDups))
      ∧ (∀ (cs : List Contract) (text : String), printPlain cs = .ok text →
        printVersioned cs
          = .ok (textWith cs
            ((importedPaths cs).map (Package.pin Version.bundled)).eraseDups))
      ∧ (∀ package ∈ ["@openzeppelin/contracts",
          "@openzeppelin/contracts-upgradeable"],
        ∀ rest, GoesInside rest →
          Package.pin Version.bundled (package ++ rest)
            = package ++ "@4.3.2" ++ rest)
      ∧ ∀ path,
        (∀ package ∈ ["@openzeppelin/contracts",
            "@openzeppelin/contracts-upgradeable"],
          ∀ rest, GoesInside rest → path ≠ package ++ rest) →
        Package.pin Version.bundled path = path := by
  have hpackages : ∀ package,
      package ∈ ["@openzeppelin/contracts",
        "@openzeppelin/contracts-upgradeable"]
        ↔ package ∈ Package.pinnable := by
    intro package
    simp only [Package.pinnable, List.mem_cons, List.not_mem_nil, or_false]
    exact or_comm
  have hversion : ∀ package,
      package ++ "@" ++ Version.bundled.text = package ++ "@4.3.2" := by
    intro package
    rw [String.append_assoc]
    rfl
  refine ⟨fun transform cs e => ?_, fun transform cs text h => ⟨?_, ?_⟩,
    fun cs text h => ?_, fun package hpackage rest hrest => ?_,
    fun path h => ?_⟩
  · exact print_eq_error.trans print_eq_error.symm
  · have hplain := print_eq_textWith id (blocks_of_print h)
    rw [List.map_id, importedPaths_distinct] at hplain
    exact Except.ok.inj (h.symm.trans hplain)
  · exact print_eq_textWith transform (blocks_of_print h)
  · exact print_eq_textWith (Package.pin Version.bundled) (blocks_of_print h)
  · rw [Package.pin_inside Version.bundled
      ((hpackages package).1 hpackage) hrest, hversion]
  · exact Package.pin_outside Version.bundled fun package hpackage =>
      h package ((hpackages package).2 hpackage)

/-- A plain contract and an upgradeable one import the same file from the
two packages. A transformation that forgets the file leaves one import;
pinning leaves both. -/
theorem print_transform_of_both :
    let votes : Base := ⟨⟨"Votes", "@openzeppelin/contracts/Votes.sol"⟩, []⟩
    let plain := Contract.replay [.base votes] { name := "Plain" }
    let proxied :=
      Contract.replay [.upgradeable, .base votes] { name := "Proxied" }
    (∃ text, printPlain [plain, proxied] = .ok text)
      ∧ print (fun _ => "./All.sol") [plain, proxied]
        = .ok (textWith [plain, proxied] ["./All.sol"])
      ∧ printVersioned [plain, proxied] = .ok (textWith [plain, proxied]
        ["@openzeppelin/contracts@4.3.2/Votes.sol",
          "@openzeppelin/contracts-upgradeable@4.3.2/VotesUpgradeable.sol"])
      ∧ Package.pin Version.bundled ("@openzeppelin/contracts" ++ "/Votes.sol")
        = "@openzeppelin/contracts@4.3.2/Votes.sol"
      ∧ Package.pin Version.bundled "@openzeppelin/contracts-extra/Votes.sol"
        = "@openzeppelin/contracts-extra/Votes.sol" := by
  intro votes plain proxied
  obtain ⟨-, htransform, hversioned, hinside, houtside⟩ := print_transform
  have hblocks : ∀ c ∈ [plain, proxied], ∃ b, c.block = .ok b := by
    intro c hc
    simp only [List.mem_cons, List.not_mem_nil, or_false] at hc
    rcases hc with rfl | rfl
    · exact ⟨_, rfl⟩
    · exact ⟨_, rfl⟩
  have hplain : ∃ text, printPlain [plain, proxied] = .ok text :=
    ⟨_, print_eq_textWith id hblocks⟩
  have hextra : ∀ package ∈ ["@openzeppelin/contracts",
        "@openzeppelin/contracts-upgradeable"],
      ∀ rest, GoesInside rest →
        "@openzeppelin/contracts-extra/Votes.sol" ≠ package ++ rest := by
    intro package hpackage rest hrest hpath
    have hsome := Package.insidePackage?_eq_some_iff.2 ⟨hpath, hrest⟩
    have hnone : ∀ package ∈ ["@openzeppelin/contracts",
          "@openzeppelin/contracts-upgradeable"],
        Package.insidePackage? package
          "@openzeppelin/contracts-extra/Votes.sol" = none := by
      decide
    rw [hnone package hpackage] at hsome
    cases hsome
  refine ⟨hplain, ?_, ?_,
    hinside _ (by decide) "/Votes.sol" (.inr ⟨"Votes.sol", rfl⟩),
    houtside _ hextra⟩
  · obtain ⟨text, htext⟩ := hplain
    have hpaths :
        ((importedPaths [plain, proxied]).map fun _ => "./All.sol").eraseDups
        = ["./All.sol"] := by
      decide
    rw [(htransform (fun _ => "./All.sol") [plain, proxied] text htext).2,
      hpaths]
  · obtain ⟨text, htext⟩ := hplain
    have hpaths :
        ((importedPaths [plain, proxied]).map
          (Package.pin Version.bundled)).eraseDups
      = ["@openzeppelin/contracts@4.3.2/Votes.sol",
        "@openzeppelin/contracts-upgradeable@4.3.2/VotesUpgradeable.sol"] := by
      decide
    rw [hversioned [plain, proxied] text htext, hpaths]

end TokenForge.SourceFile
