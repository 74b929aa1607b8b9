/-
The tokens of a whole file. It starts with the licence comment, goes on with
the pragma, the imports and the contracts ahead of the main one, and ends
with the main contract. Only the comment depends on the licence, and import
paths, whichever package and release they name, can stand between quotes;
so files of matching contracts have the same tokens up to the licence, the
main contract's name, and the literals that stand for corresponding strings
(`SourceFile.reads_of_matching`).
-/
import TokenForge.Proofs.Source.Imports
import TokenForge.Proofs.Source.MatchingText

namespace TokenForge

open Solidity

-- ================================================================== paths

namespace Package

/-- The letters that a path gets can stand between quotes. -/
theorem quotable_upgradeablePath {path : String} (h : Quotable path) :
    Quotable (upgradeablePath path) := by
  have hroot : Quotable upgradeableRoot := by decide
  have hsuffix : Quotable suffix := by decide
  intro x hx
  rcases mem_upgradeablePath hx with hx | hx | hx
  · exact h x hx
  · exact hroot x hx
  · exact hsuffix x hx

/-- Naming the bundled release adds a fixed text. -/
theorem quotable_pin {path : String} (h : Quotable path) :
    Quotable (pin Version.bundled path) := by
  have hinside : ∀ package rest, insidePackage? package path = some rest →
      Quotable rest := by
    intro package rest hrest
    unfold insidePackage? at hrest
    split at hrest
    · cases hrest
      exact fun x hx => absurd hx List.not_mem_nil
    next tail hstrip =>
      cases hrest
      intro x hx
      rw [String.toList_ofList] at hx
      apply h
      rw [Text.eq_of_stripStart? hstrip]
      exact List.mem_append_right _ hx
    · cases hrest
  unfold pin
  cases hfound : pinnable.findSome? fun package =>
      (insidePackage? package path).map fun rest =>
        package ++ "@" ++ Version.bundled.text ++ rest with
  | none => exact h
  | some pinned =>
      obtain ⟨package, hmem, hpackage⟩ :=
        List.exists_of_findSome?_eq_some hfound
      obtain ⟨rest, hrest, rfl⟩ := Option.map_eq_some_iff.1 hpackage
      have hlead : ∀ package ∈ pinnable,
          Quotable (package ++ "@" ++ Version.bundled.text) := by decide
      intro x hx
      rw [Option.getD_some, String.toList_append, List.mem_append] at hx
      rcases hx with hx | hx
      · exact hlead package hmem x hx
      · exact hinside package rest hrest x hx

end Package

namespace Contract

variable {A : String → String → Prop} {c c' : Contract}

/-- Contracts that match import the same files. -/
theorem Matches.importPaths (h : c.Matches A c') :
    c.importPaths = c'.importPaths := by
  have hpaths : c.bases.map (·.dependency.path)
      = c'.bases.map (·.dependency.path) := by
    rw [← List.forall₂_eq_eq_eq, List.forall₂_map_left_iff,
      List.forall₂_map_right_iff]
    exact h.bases.imp fun _ _ hb => congrArg Dependency.path hb.dependency
  unfold Contract.importPaths shownPath
  rw [hpaths, h.attachments, h.upgradeable]

/-- The import paths of a contract that matches another can stand between
quotes. -/
theorem Matches.quotable (h : c.Matches A c') :
    ∀ path ∈ c.importPaths, Quotable path := by
  have hshown : ∀ path, Quotable path → Quotable (c.shownPath path) := by
    intro path hpath
    unfold shownPath
    split
    · exact Package.quotable_upgradeablePath hpath
    · exact hpath
  intro path hpath
  obtain ⟨path, hmem, rfl⟩ := List.mem_map.1 hpath
  rcases List.mem_append.1 hmem with hmem | hmem
  · obtain ⟨b, hb, rfl⟩ := List.mem_map.1 hmem
    obtain ⟨b', -, hmatch⟩ := exists_of_forall₂_left h.bases hb
    exact hshown _ hmatch.path
  · obtain ⟨a, ha, rfl⟩ := List.mem_map.1 hmem
    exact hshown _ (h.attachments_plain a ha).path

end Contract

-- ================================================================ imports

namespace Imports

/-- A statement is a word, one literal and a symbol. -/
theorem reads_statement {path : String} (h : Quotable path) :
    ReadsText (statement path) [.word "import".toList,
      .literal ('"' :: path.toList ++ ['"']), .symbol ';'] := by
  have hlead : Reads "import ".toList [.word "import".toList] := by
    unfold Reads
    decide
  have htail : Reads [';'] [.symbol ';'] := by
    unfold Reads
    decide
  have hsplit : (statement path).toList
      = "import ".toList ++ ('"' :: path.toList ++ ['"']) ++ [';'] := by
    unfold statement
    rw [String.toList_append, String.toList_append]
    simp only [List.append_assoc, List.cons_append, List.nil_append]
    rfl
  unfold ReadsText
  rw [hsplit]
  exact (hlead.append (reads_quoted h)).append htail

end Imports

-- ================================================================== files

namespace SourceFile

/-- Whether a transformation leads from paths that can stand between quotes
to such paths. -/
def KeepsQuotable (transform : String → String) : Prop :=
  ∀ path, Quotable path → Quotable (transform path)

/-- An import section reads, as long as its paths can be quoted. -/
theorem reads_importSection {transform : String → String}
    (ht : KeepsQuotable transform) {cs : List Contract}
    (h : ∀ c ∈ cs, ∀ path ∈ c.importPaths, Quotable path) :
    ∃ ts, Fragment.Reads (importSection transform cs) ts := by
  have hquotable : ∀ path ∈ (imports transform cs).paths, Quotable path := by
    intro path hpath
    obtain ⟨c, hc, hmem⟩ := List.mem_flatMap.1 (Imports.mem_paths_ofList hpath)
    obtain ⟨needed, hneeded, rfl⟩ := List.mem_map.1 hmem
    exact ht needed (h c hc needed hneeded)
  have hlines : List.Forall₂ SettlesText (imports transform cs).statements
      ((imports transform cs).paths.map fun path => [.word "import".toList,
        .literal ('"' :: path.toList ++ ['"']), .symbol ';']) := by
    unfold Imports.statements
    rw [List.forall₂_map_left_iff, List.forall₂_map_right_iff,
      List.forall₂_same]
    exact fun path hpath =>
      (Imports.reads_statement (hquotable path hpath)).settles
  exact ⟨_, .lines hlines⟩

/-- The import section depends on the imported paths only. -/
theorem importSection_congr (transform : String → String)
    {cs cs' : List Contract}
    (h : cs.map Contract.importPaths = cs'.map Contract.importPaths) :
    importSection transform cs = importSection transform cs' := by
  have hpaths : ∀ l : List Contract,
      (l.flatMap fun c => c.importPaths.map transform)
      = (l.map Contract.importPaths).flatMap (List.map transform) := fun l =>
    (List.flatMap_map ..).symm
  unfold importSection imports
  rw [hpaths cs, hpaths cs', h]

/-- The comment that names a licence. -/
def licenseComment (license : String) : String :=
  "// SPDX-License-Identifier: " ++ license

/-- The header is the licence comment and fixed tokens. -/
theorem reads_header : ∃ ts, ∀ cs : List Contract, '\n' ∉ (license cs).toList →
    Fragment.Reads (header cs)
      (.comment (licenseComment (license cs)).toList :: ts) := by
  have hpragma : Plain ("pragma solidity ^" ++ compilerVersion ++ ";") := by
    decide
  obtain ⟨ts, hts⟩ := hpragma.settles
  refine ⟨ts, fun cs hcs => ?_⟩
  have hcomment : Fragment.Reads [.line (licenseComment (license cs))]
      [.comment (licenseComment (license cs)).toList] := by
    refine Fragment.Reads.comment
      (t := " SPDX-License-Identifier: ".toList ++ (license cs).toList) ?_ ?_
    · unfold licenseComment
      rw [String.toList_append]
      rfl
    · rw [List.mem_append, not_or]
      exact ⟨by decide, hcs⟩
  exact hcomment.append (.settled hts)

/-- The block of a contract all of whose ancestors are bases. -/
def blockOf (c : Contract) : List Fragment :=
  c.blockOf (Contract.exactlyMarked c.baseNames c.methods)

/-- Contracts of one name that print nothing of a record's strings. -/
structure Twins (c c' : Contract) : Prop where
  matched : c.Matches (fun _ _ => False) c'
  name : c.name = c'.name
  identifier : isIdentifier c.name = true

theorem Twins.reads {c c' : Contract} (h : Twins c c') :
    ∃ ts, Fragment.Reads (blockOf c) ts ∧ Fragment.Reads (blockOf c') ts := by
  obtain ⟨ts, us, hts, hus, hmatch⟩ :=
    h.matched.blockOf h.identifier (h.name ▸ h.identifier)
  have heq : ts = us := by
    rw [← List.forall₂_eq_eq_eq]
    refine hmatch.matched.imp fun t u htu => ?_
    rcases htu with htu | ⟨v, w, hvw, -⟩
    · exact htu
    · exact hvw.elim
  rw [← h.name, ← heq] at hus
  exact ⟨_, hts, hus⟩

/-- Twins read alike, one by one. -/
theorem reads_twins {cs cs' : List Contract} (h : List.Forall₂ Twins cs cs') :
    ∃ tss, List.Forall₂ Fragment.Reads (cs.map blockOf) tss
      ∧ List.Forall₂ Fragment.Reads (cs'.map blockOf) tss := by
  induction h with
  | nil => exact ⟨[], .nil, .nil⟩
  | cons hc _ ih =>
      obtain ⟨ts, hts, hts'⟩ := hc.reads
      obtain ⟨tss, htss, htss'⟩ := ih
      exact ⟨ts :: tss, .cons hts htss, .cons hts' htss'⟩

variable {A : String → String → Prop} {cs cs' : List Contract}
  {c c' : Contract}

/-- Files whose last contracts match, after twins, differ in the licence of
the comment and in the tokens of the last contract only. -/
theorem reads_of_matching {transform : String → String}
    (ht : KeepsQuotable transform) (hcs : List.Forall₂ Twins cs cs')
    (h : c.Matches A c') (hlicense : '\n' ∉ (license (cs ++ [c])).toList)
    (hlicense' : '\n' ∉ (license (cs' ++ [c'])).toList) {ts us : List Token}
    (hts : Fragment.Reads (blockOf c) ts)
    (hus : Fragment.Reads (blockOf c') us) :
    ∃ before,
      Fragment.Reads
          (fragments transform (cs ++ [c]) ((cs ++ [c]).map blockOf))
          (.comment (licenseComment (license (cs ++ [c]))).toList
            :: before ++ ts)
        ∧ Fragment.Reads
          (fragments transform (cs' ++ [c']) ((cs' ++ [c']).map blockOf))
          (.comment (licenseComment (license (cs' ++ [c']))).toList
            :: before ++ us) := by
  obtain ⟨hs, hheader⟩ := reads_header
  obtain ⟨tss, htss, htss'⟩ := reads_twins hcs
  -- both files have the same import section
  have hpaths : (cs ++ [c]).map Contract.importPaths
      = (cs' ++ [c']).map Contract.importPaths := by
    rw [← List.forall₂_eq_eq_eq, List.forall₂_map_left_iff,
      List.forall₂_map_right_iff]
    exact List.rel_append (hcs.imp fun _ _ hd => hd.matched.importPaths)
      (.cons h.importPaths .nil)
  have hquotable : ∀ d ∈ cs ++ [c], ∀ path ∈ d.importPaths, Quotable path := by
    refine mem_append_singleton (fun d hd => ?_) h.quotable
    obtain ⟨d', -, htwins⟩ := exists_of_forall₂_left hcs hd
    exact htwins.matched.quotable
  obtain ⟨is, himports⟩ := reads_importSection ht hquotable
  have himports' : Fragment.Reads
      (importSection transform (cs' ++ [c'])) is := by
    rw [← importSection_congr transform hpaths]
    exact himports
  have hfile : ∀ (ds : List Contract) (d : Contract) (vs : List Token),
      '\n' ∉ (license (ds ++ [d])).toList →
      Fragment.Reads (importSection transform (ds ++ [d])) is →
      List.Forall₂ Fragment.Reads (ds.map blockOf) tss →
      Fragment.Reads (blockOf d) vs →
      Fragment.Reads
        (fragments transform (ds ++ [d]) ((ds ++ [d]).map blockOf))
        (.comment (licenseComment (license (ds ++ [d]))).toList
          :: (hs ++ is ++ tss.flatten) ++ vs) := by
    intro ds d vs hds hsection hblocks hblock
    have hall := Fragment.Reads.joinSections (List.rel_append
      (.cons (hheader _ hds) (.cons hsection .nil))
      (List.rel_append hblocks (.cons hblock .nil)))
    unfold fragments
    rw [List.map_append]
    simpa only [List.cons_append, List.nil_append, List.flatten_cons,
      List.flatten_append, List.flatten_nil, List.append_nil,
      List.append_assoc, List.map_cons, List.map_nil] using hall
  exact ⟨_, hfile cs c ts hlicense himports htss hts,
    hfile cs' c' us hlicense' himports' htss' hus⟩

end SourceFile

end TokenForge
