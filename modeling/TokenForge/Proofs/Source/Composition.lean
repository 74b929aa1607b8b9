/-
A file of several contracts is put together from the files of each. The text
of a contract that is printed alone is a front (the header with its licence,
its import lines, and the blank line that ends them) and the contract's block
after it. A file of several contracts is the header of the first, the import
lines of all, each once, and every block after a blank line, byte for byte
(`print_composes`).

Nothing goes from one contract to the next. The writer starts each block at
the outermost level because the one before gave the level back, joined
sections put one blank line between blocks whatever they hold, and the only
thing the contracts share is the list of imports. The block's text is
therefore a function of the contract (`Contract.blockText`), and the same
under every transformation of the import paths.
-/
import TokenForge.Proofs.Source.Imports
import TokenForge.Proofs.Source.Print

namespace TokenForge

-- ================================================================= blocks

namespace Contract

/-- The fragments of a contract's block; none if it cannot be printed. -/
def shownBlock (c : Contract) : List Fragment :=
  match c.block with
  | .ok b => b
  | .error _ => []

/-- The text of a contract's block. -/
def blockText (c : Contract) : String := Fragment.textOf 0 c.shownBlock

/-- A block that can be printed is not empty: it has a heading. -/
theorem block_eq_shownBlock {c : Contract} (h : ∃ b, c.block = .ok b) :
    c.block = .ok c.shownBlock ∧ c.shownBlock ≠ [] := by
  obtain ⟨b, hb⟩ := h
  obtain ⟨marked, -, hmarked⟩ := block_eq_ok.1 hb
  unfold shownBlock
  rw [hb]
  refine ⟨rfl, ?_⟩
  rw [hmarked]
  exact List.cons_ne_nil _ _

end Contract

namespace SourceFile

-- ============================================================ the sections

/-- The header of a file with a licence. -/
def headerText (license : String) : String :=
  "// SPDX-License-Identifier: " ++ license ++ "\n"
    ++ "pragma solidity ^" ++ compilerVersion ++ ";" ++ "\n"

/-- A blank line and the import lines, if there are any. -/
def importText (lines : List String) : String :=
  if lines.isEmpty then "" else "\n" ++ String.join (lines.map (· ++ "\n"))

theorem textOf_header (cs : List Contract) :
    Fragment.textOf 0 (header cs) = headerText (license cs) := by
  unfold header headerText
  rw [Fragment.textOf_cons, Fragment.textOf_line, Fragment.textOf_line,
    Fragment.indentation_zero]
  simp only [String.empty_append, String.append_assoc]

/-- The text of a file whose blocks are known. -/
theorem textOf_fragments (transform : String → String) (cs : List Contract)
    {blocks : List (List Fragment)} (h : ∀ b ∈ blocks, b ≠ []) :
    Fragment.textOf 0 (fragments transform cs blocks)
      = headerText (license cs) ++ importText (imports transform cs).statements
        ++ String.join (blocks.map fun b => "\n" ++ Fragment.textOf 0 b) := by
  have hblocks : (blocks.filter fun b => !b.isEmpty) = blocks :=
    List.filter_eq_self.2 fun b hb => by simpa using h b hb
  have hheader : header cs ≠ [] := List.cons_ne_nil _ _
  show Fragment.textOf 0 (Fragment.joinSections
    (header cs :: importSection transform cs :: blocks)) = _
  rw [Fragment.textOf_joinSections 0 _ hheader, textOf_header,
    List.filter_cons, hblocks]
  unfold importSection importText
  rw [List.isEmpty_map]
  cases (imports transform cs).statements.isEmpty with
  | true => simp
  | false =>
      simp only [Bool.not_false, Bool.false_eq_true, if_true, if_false,
        List.map_cons, String.join_cons, Fragment.textOf_lines,
        String.append_assoc]

-- =============================================================== printing

/-- A contract is printed alone exactly if it has a block. -/
theorem printed_alone_iff {transform : String → String} {c : Contract} :
    (∃ text, print transform [c] = .ok text) ↔ ∃ b, c.block = .ok b := by
  constructor
  · rintro ⟨text, h⟩
    obtain ⟨blocks, hblocks, -⟩ := print_eq_ok.1 h
    obtain ⟨b, -, hb⟩ := mem_of_mapM hblocks (List.mem_singleton_self c)
    exact ⟨b, hb⟩
  · rintro ⟨b, hb⟩
    have hblocks : [c].mapM Contract.block = .ok ([c].map fun _ => b) :=
      mapM_ok_of_forall [c] fun c' hc' => by rw [List.mem_singleton.1 hc', hb]
    exact ⟨_, print_eq_ok.2 ⟨_, hblocks, rfl⟩⟩

/-- The text of a file whose contracts have blocks. -/
theorem print_of_blocks (transform : String → String) {cs : List Contract}
    (h : ∀ c ∈ cs, ∃ b, c.block = .ok b) :
    print transform cs = .ok (headerText (license cs)
      ++ importText ((cs.flatMap (importLines transform)).eraseDups)
      ++ String.join (cs.map fun c => "\n" ++ c.blockText)) := by
  have hblocks : cs.mapM Contract.block = .ok (cs.map Contract.shownBlock) :=
    mapM_ok_of_forall cs fun c hc => (Contract.block_eq_shownBlock (h c hc)).1
  have hne : ∀ b ∈ cs.map Contract.shownBlock, b ≠ [] := by
    intro b hb
    obtain ⟨c, hc, rfl⟩ := List.mem_map.1 hb
    exact (Contract.block_eq_shownBlock (h c hc)).2
  refine print_eq_ok.2 ⟨_, hblocks, ?_⟩
  rw [textOf_fragments transform cs hne, statements_imports, List.map_map]
  rfl

/-- What a contract that is printed alone starts with: the header, the import
lines, and the blank line that ends them. -/
def front (transform : String → String) (c : Contract) : String :=
  headerText c.license ++ importText (importLines transform c) ++ "\n"

/-- What remains of a contract that is printed alone is its block. -/
theorem print_alone {transform : String → String} {c : Contract}
    {text : String} (h : print transform [c] = .ok text) :
    text = front transform c ++ c.blockText := by
  have hblock : ∀ c' ∈ [c], ∃ b, c'.block = .ok b := by
    intro c' hc'
    rw [List.mem_singleton.1 hc']
    exact printed_alone_iff.1 ⟨text, h⟩
  have hlines : ([c].flatMap (importLines transform)).eraseDups
      = importLines transform c := (statements_imports transform [c]).symm
  rw [print_of_blocks transform hblock, hlines] at h
  rw [← Except.ok.inj h]
  simp only [front, license, List.head?_cons, Option.map_some,
    Option.getD_some, List.map_singleton, String.join_cons, String.join_nil,
    String.append_empty, String.append_assoc]

end SourceFile

-- ============================================================ the theorem

open SourceFile

/-- A contract's block is what remains of the contract printed alone, after
the header, the import lines and the blank line that ends them. Contracts that
each can be printed alone can be printed together: the header of the first,
their import lines, each once, below a blank line, and each block after a
blank line. -/
theorem print_composes (transform : String → String) :
    (∀ c text, print transform [c] = .ok text →
        text = front transform c ++ c.blockText)
      ∧ ∀ (first : Contract) (others : List Contract),
        (∀ c ∈ first :: others, ∃ text, print transform [c] = .ok text) →
          print transform (first :: others) = .ok (headerText first.license
            ++ importText
              (((first :: others).flatMap (importLines transform)).eraseDups)
            ++ String.join ((first :: others).map
              fun c => "\n" ++ c.blockText)) :=
  ⟨fun _ _ h => print_alone h, fun _ _ h =>
    print_of_blocks transform fun c hc => printed_alone_iff.1 (h c hc)⟩

/-- Three contracts in one file: an upgradeable one between a plain one and one
without imports. The two that share an import share its line; the file that
only one of them needs from the upgradeable package has a line of its own. -/
theorem mixed_file :
    let initial : Base := ⟨⟨"Initializable", "./Initializable.sol"⟩, []⟩
    let votes : Base := ⟨⟨"Votes", "@openzeppelin/contracts/Votes.sol"⟩, []⟩
    let plain := Contract.replay [.base initial, .base votes]
        { name := "Plain" }
    let proxied := Contract.replay [.upgradeable, .base initial, .base votes]
      { name := "Proxied", license := "Apache-2.0" }
    let bare : Contract := { name := "Bare" }
    SourceFile.printPlain [plain, proxied, bare] = .ok (headerText "MIT"
      ++ importText ["import \"./Initializable.sol\";",
        "import \"@openzeppelin/contracts/Votes.sol\";",
        "import \"@openzeppelin/contracts-upgradeable/VotesUpgradeable.sol\";"]
      ++ String.join ["\n" ++ plain.blockText, "\n" ++ proxied.blockText,
        "\n" ++ bare.blockText]) := by
  intro initial votes plain proxied bare
  have halone : ∀ c ∈ [plain, proxied, bare],
      ∃ text, print id [c] = .ok text := by
    intro c hc
    rw [printed_alone_iff]
    simp only [List.mem_cons, List.not_mem_nil, or_false] at hc
    rcases hc with rfl | rfl | rfl
    · exact ⟨_, rfl⟩
    · exact ⟨_, rfl⟩
    · exact ⟨_, rfl⟩
  have hlines : ([plain, proxied, bare].flatMap (importLines id)).eraseDups
      = ["import \"./Initializable.sol\";",
        "import \"@openzeppelin/contracts/Votes.sol\";",
        "import \"@openzeppelin/contracts-upgradeable/"
          ++ "VotesUpgradeable.sol\";"] := by
    decide
  have hprint := (print_composes id).2 plain [proxied, bare] halone
  rw [hlines] at hprint
  exact hprint

end TokenForge
