/-
The names that a printed contract takes from elsewhere: those of its bases
after `is` and in override clauses, and those of libraries and types in
its `using` lines. They are kept apart in the contract, but printed after
they were renamed, and only then it shows that an upgradeable contract
puts some together: a name that stands beside its own counterpart is
printed twice (`printed_once_iff`).

Names are renamed whatever file they come from, while paths are only
rewritten inside the contracts package. So a file that is imported as it is
gives the name that is printed exactly if renaming leaves that name alone
(`provided_by_file_iff`).
-/
import TokenForge.Proofs.Package.Upgradeable
import TokenForge.Proofs.Source.MethodLayout

namespace TokenForge

open Fragment (textAt textOf)

namespace Contract

-- ======================================================== where names stand

/-- The `using` lines: one for each pair of a library and a type. -/
def usingLines (c : Contract) : List String :=
  c.attachedPairs.map fun p =>
    "using " ++ c.shownName p.1 ++ " for " ++ c.shownName p.2 ++ ";"

/-- Where a printed contract has the names of its bases and libraries. -/
structure ShownNames (c : Contract) (text : String) : Prop where
  /-- The contract is in the text. -/
  shown : Occurs c.blockText text
  /-- Its heading has the names of the bases. -/
  heading : c.bases ≠ [] → c.heading
    = "contract " ++ c.name ++ " is "
      ++ ", ".intercalate (c.baseNames.map c.shownName) ++ " \x7b"
  /-- The `using` lines stand below the heading, above everything else. -/
  block : c.blockText = c.heading ++ "\n"
    ++ "\n".intercalate
      ((if c.usingLines = [] then [] else [textAt (c.usingLines.map (1, ·))])
        ++ sectionTexts [c.constructorSection] ++ c.lowerTexts)
    ++ "\x7d\n"
  /-- A function of several bases has their names in its clause. -/
  clause : ∀ m ∈ c.redeclared, 2 ≤ m.ancestors.length →
    c.clauseWords m
        = ["override("
          ++ ", ".intercalate ((c.basesAmong m.ancestors).map c.shownName)
          ++ ")"]
      ∧ ∃ heading, c.LaidOut m heading

variable {c : Contract}

theorem sectionTexts_usingSection :
    sectionTexts [c.usingSection]
      = if c.usingLines = [] then []
        else [textAt (c.usingLines.map (1, ·))] := by
  have hlines : c.usingSection = c.usingLines.map .line := by
    unfold usingSection usingLines
    rw [List.map_map]
    rfl
  rw [hlines]
  by_cases hnone : c.usingLines = []
  · rw [hnone]
    rfl
  · rw [if_neg hnone, sectionTexts_singleton (mt List.map_eq_nil_iff.1 hnone),
      Fragment.textOf_map_line]

theorem clauseWords_of_several {m : Method} (h : 2 ≤ m.ancestors.length) :
    c.clauseWords m
      = ["override("
        ++ ", ".intercalate ((c.basesAmong m.ancestors).map c.shownName)
        ++ ")"] := by
  unfold clauseWords
  split
  next hnone => simp [hnone] at h
  next hone => simp [hone] at h
  next => rfl

/-- A printed contract that a history leaves. -/
theorem shownNames_of_print {name : String} {history : List Step}
    (hc : c = replay history { name }) {transform : String → String}
    {cs : List Contract} {text : String} (hmem : c ∈ cs)
    (h : SourceFile.print transform cs = .ok text) :
    c.ShownNames text := by
  obtain ⟨hresolved, hoccurs, hblock⟩ := sections_of_print hc hmem h
  rw [sectionTexts_usingSection] at hblock
  exact {
    shown := hoccurs
    heading := heading_of_bases
    block := hblock
    clause := fun m hm hseveral =>
      ⟨clauseWords_of_several hseveral, _,
        hresolved.laidOut m (List.mem_filter.1 hm).1⟩ }

-- ============================================================ printed twice

/-- An upgradeable contract prints two of some names as one: a name stands
beside its counterpart, which is another one. -/
def Doubles (c : Contract) (names : List String) : Prop :=
  c.upgradeable = true ∧ ∃ a ∈ names, Package.upgradeableName a ∈ names
    ∧ Package.upgradeableName a ≠ a

instance (c : Contract) (names : List String) : Decidable (c.Doubles names) :=
  inferInstanceAs (Decidable (_ ∧ ∃ a ∈ names, _))

/-- An upgradeable contract prints two attachments as one. -/
def DoublesAttachments (c : Contract) : Prop :=
  c.upgradeable = true ∧ ∃ p ∈ c.attachedPairs, ∃ q ∈ c.attachedPairs,
    p ≠ q ∧ Package.Joined p.1 q.1 ∧ Package.Joined p.2 q.2

instance (c : Contract) : Decidable c.DoublesAttachments :=
  inferInstanceAs (Decidable (_ ∧ ∃ p ∈ c.attachedPairs,
    ∃ q ∈ c.attachedPairs, _))

/-- Which names are printed as one. -/
theorem shownName_eq_iff {a b : String} :
    c.shownName a = c.shownName b
      ↔ a = b ∨ c.upgradeable = true ∧ Package.Joined a b := by
  unfold shownName
  cases c.upgradeable with
  | false => simp
  | true =>
      rw [if_pos rfl, if_pos rfl, Package.upgradeableName_eq_iff]
      refine ⟨fun h => .inr ⟨rfl, h⟩, ?_⟩
      rintro (h | ⟨-, h⟩)
      · exact .inl h
      · exact h

/-- Names that are apart are printed apart unless a name stands
beside its counterpart. -/
theorem nodup_map_shownName {names : List String} (hnames : names.Nodup) :
    (names.map c.shownName).Nodup ↔ ¬ c.Doubles names := by
  rw [List.nodup_map_iff_inj_on hnames]
  constructor
  · rintro hinj ⟨hup, a, ha, hcounterpart, hne⟩
    refine hne (hinj _ hcounterpart a ha ?_)
    exact shownName_eq_iff.2 (.inr ⟨hup, .inr (.inl rfl)⟩)
  · intro hapart a ha b hb hab
    by_contra hne
    rcases shownName_eq_iff.1 hab with hab | ⟨hup, hab | hab | hab⟩
    · exact hne hab
    · exact hne hab
    · exact hapart ⟨hup, b, hb, hab ▸ ha, fun hself => hne (hab.trans hself)⟩
    · exact hapart ⟨hup, a, ha, hab ▸ hb,
        fun hself => hne (hself.symm.trans hab)⟩

/-- Two `using` lines of libraries without spaces in their names are equal only
if the names of the libraries and of the types are. -/
theorem usingLine_inj {library library' type type' : String}
    (h : ' ' ∉ library.toList) (h' : ' ' ∉ library'.toList)
    (heq : "using " ++ library ++ " for " ++ type ++ ";"
      = "using " ++ library' ++ " for " ++ type' ++ ";") :
    library = library' ∧ type = type' := by
  have htail : library ++ " for " ++ type = library' ++ " for " ++ type' := by
    rw [String.append_left_inj, String.append_assoc, String.append_assoc,
      String.append_assoc, String.append_assoc, String.append_right_inj] at heq
    rw [String.append_assoc, String.append_assoc]
    exact heq
  -- the first space ends the name of the library
  have hcut : ∀ {l t : String}, ' ' ∉ l.toList →
      Text.cutFirst ' ' (l ++ " for " ++ t).toList
        = (l.toList, (" for " ++ t).toList) := by
    intro l t hl
    rw [String.append_assoc, String.toList_append]
    exact Text.cutFirst_append_of_not_mem hl (.inr ⟨_, String.toList_append⟩)
  have hparts := hcut (t := type) h
  rw [htail, hcut h'] at hparts
  obtain ⟨hlibrary, htype⟩ := Prod.mk.inj hparts
  exact ⟨(String.toList_inj.1 hlibrary).symm,
    (String.append_right_inj _).1 (String.toList_inj.1 htype).symm⟩

/-- Renaming puts no space into a name. -/
theorem not_mem_shownName {name : String} (h : ' ' ∉ name.toList) :
    ' ' ∉ (c.shownName name).toList := by
  intro hspace
  unfold shownName at hspace
  split at hspace
  · rw [Package.upgradeableName, String.toList_ofList] at hspace
    rcases Package.mem_renamed hspace with hname | hsuffix
    · exact h hname
    · exact absurd hsuffix (by decide)
  · exact h hspace

/-- Attachments of libraries without spaces in their names are printed apart
unless the contract prints two as one. -/
theorem nodup_usingLines
    (h : ∀ a ∈ c.attachments, ' ' ∉ a.library.name.toList) :
    c.usingLines.Nodup ↔ ¬ c.DoublesAttachments := by
  have hspace : ∀ p ∈ c.attachedPairs, ' ' ∉ (c.shownName p.1).toList := by
    intro p hp
    obtain ⟨a, ha, rfl⟩ := List.mem_map.1 (List.mem_eraseDups.1 hp)
    exact not_mem_shownName (h a ha)
  have hpairs : c.attachedPairs.Nodup := nodup_eraseDups _
  unfold usingLines
  rw [List.nodup_map_iff_inj_on hpairs]
  constructor
  · rintro hinj ⟨hup, p, hp, q, hq, hne, hlibrary, htype⟩
    refine hne (hinj p hp q hq ?_)
    rw [shownName_eq_iff.2 (.inr ⟨hup, hlibrary⟩),
      shownName_eq_iff.2 (.inr ⟨hup, htype⟩)]
  · intro hapart p hp q hq hpq
    obtain ⟨hlibrary, htype⟩ := usingLine_inj (hspace p hp) (hspace q hq) hpq
    by_contra hne
    rcases shownName_eq_iff.1 hlibrary with hl | ⟨hup, hl⟩
    · rcases shownName_eq_iff.1 htype with ht | ⟨hup, ht⟩
      · exact hne (Prod.ext hl ht)
      · exact hapart ⟨hup, p, hp, q, hq, hne, .inl hl, ht⟩
    · refine hapart ⟨hup, p, hp, q, hq, hne, hl, ?_⟩
      rcases shownName_eq_iff.1 htype with ht | ⟨-, ht⟩
      · exact .inl ht
      · exact ht

-- ================================================================== files

/-- The contracts and libraries that a contract takes from other files. -/
def dependencies (c : Contract) : List Dependency :=
  c.bases.map (·.dependency) ++ c.attachments.map (·.library)

/-- The file of every dependency is imported, under the path that
the contract needs. -/
theorem occurs_import {transform : String → String} {cs : List Contract}
    {text : String} (h : SourceFile.print transform cs = .ok text)
    (hc : c ∈ cs) {d : Dependency} (hd : d ∈ c.dependencies) :
    Occurs ("import \"" ++ transform (c.shownPath d.path) ++ "\";") text := by
  have hneeded : c.shownPath d.path ∈ c.importPaths := by
    refine List.mem_map_of_mem ?_
    rw [dependencies, List.mem_append, List.mem_map, List.mem_map] at hd
    rcases hd with ⟨b, hb, rfl⟩ | ⟨a, ha, rfl⟩
    · exact List.mem_append_left _ (List.mem_map_of_mem hb)
    · exact List.mem_append_right _ (List.mem_map_of_mem ha)
  have hpath : transform (c.shownPath d.path)
      ∈ (SourceFile.imports transform cs).paths := by
    unfold SourceFile.imports
    rw [Imports.paths_ofList, List.mem_eraseDups, List.mem_flatMap]
    exact ⟨c, hc, List.mem_map_of_mem hneeded⟩
  obtain ⟨blocks, -, rfl⟩ := SourceFile.print_eq_ok.1 h
  have hsection : SourceFile.importSection transform cs
      <:+: SourceFile.fragments transform cs blocks :=
    Fragment.infix_joinSections (by simp)
  refine Occurs.trans (Fragment.occurs_line 0 ?_)
    (Fragment.occurs_textOf 0 hsection)
  exact List.mem_map_of_mem (List.mem_map_of_mem hpath)

end Contract

-- ============================================================== the theorems

open Contract

/-- What is printed once. In a plain contract the names after `is` are
different ones, and so are those of each override clause. In an upgradeable one
they are exactly if none of them stands beside its own counterpart. The same
holds of the `using` lines, as long as the names of the libraries have no
spaces: two of them are equal exactly if the package makes one of the libraries
and one of the types. -/
theorem printed_once_iff (name : String) (history : List Step) :
    let c := replay history { name }
    ∀ (transform : String → String) (cs : List Contract) (text : String),
      c ∈ cs → SourceFile.print transform cs = .ok text →
        c.ShownNames text
          ∧ ((c.baseNames.map c.shownName).Nodup ↔ ¬ c.Doubles c.baseNames)
          ∧ (∀ m ∈ c.redeclared,
            ((c.basesAmong m.ancestors).map c.shownName).Nodup
            ↔ ¬ c.Doubles (c.basesAmong m.ancestors))
          ∧ ((∀ a ∈ c.attachments, ' ' ∉ a.library.name.toList) →
            (c.usingLines.Nodup ↔ ¬ c.DoublesAttachments)) := by
  intro c transform cs text hc hprint
  have hbases := (wellFormed_replay history name).bases_distinct
  exact ⟨shownNames_of_print rfl hc hprint, nodup_map_shownName hbases,
    fun m _ => nodup_map_shownName (hbases.filter _), nodup_usingLines⟩

/-- A function without arguments of two bases. -/
def sharedHook : Declaration := { name := "hook", visibility := .inside }

/-- An upgradeable contract with a base that has the suffix, one that gets it,
and an attachment made twice. -/
def apartNames : List Step :=
  [.upgradeable, .base ⟨⟨"Initializable", "./Initializable.sol"⟩, []⟩,
    .base ⟨⟨"Votes", "./Votes.sol"⟩, []⟩,
    .base ⟨⟨"PermitUpgradeable", "./PermitUpgradeable.sol"⟩, []⟩,
    .ancestor "PermitUpgradeable" sharedHook, .ancestor "Votes" sharedHook,
    .attachment ⟨⟨"Counters", "./Counters.sol"⟩, "Counters.Counter"⟩,
    .attachment ⟨⟨"Counters", "./Counters.sol"⟩, "Counters.Counter"⟩]

/-- Its names are apart, so each is printed once, and the attachment made
twice has one line. -/
theorem printed_once_of_apartNames :
    let c := replay apartNames { name := "Token" }
    ∃ text, SourceFile.printPlain [c] = .ok text ∧ c.ShownNames text
      ∧ (c.baseNames.map c.shownName).Nodup
      ∧ (∀ m ∈ c.redeclared,
        ((c.basesAmong m.ancestors).map c.shownName).Nodup)
      ∧ c.usingLines
        = ["using CountersUpgradeable for CountersUpgradeable.Counter;"]
      ∧ c.usingLines.Nodup := by
  intro c
  obtain ⟨text, hprint⟩ :
      ∃ text, SourceFile.printPlain [c] = .ok text := ⟨_, rfl⟩
  obtain ⟨hshown, hbases, hclauses, hlines⟩ :=
    printed_once_iff "Token" apartNames id [c] text
    (List.mem_singleton_self c) hprint
  have hclauseNames :
      ∀ m ∈ c.redeclared, ¬ c.Doubles (c.basesAmong m.ancestors) := by decide
  exact ⟨text, hprint, hshown, hbases.2 (by decide),
    fun m hm => (hclauses m hm).2 (hclauseNames m hm), by decide,
    (hlines (by decide)).2 (by decide)⟩

/-- An upgradeable contract with two bases, and two types of a library, that
the package makes one. -/
def doubledNames : List Step :=
  [.upgradeable, .base ⟨⟨"Votes", "./Votes.sol"⟩, []⟩,
    .base ⟨⟨"VotesUpgradeable", "./VotesUpgradeable.sol"⟩, []⟩,
    .ancestor "Votes" sharedHook, .ancestor "VotesUpgradeable" sharedHook,
    .attachment ⟨⟨"Counters", "./Counters.sol"⟩, "Counters.Counter"⟩,
    .attachment ⟨⟨"Counters", "./Counters.sol"⟩,
      "CountersUpgradeable.Counter"⟩]

/-- It lists the base twice, after `is` and in a clause, and has the same
`using` line twice. -/
theorem printed_twice_of_doubledNames :
    let c := replay doubledNames { name := "Token" }
    ∃ text, SourceFile.printPlain [c] = .ok text ∧ c.ShownNames text
      ∧ c.heading = "contract Token is VotesUpgradeable, VotesUpgradeable \x7b"
      ∧ ¬ (c.baseNames.map c.shownName).Nodup
      ∧ c.usingLines
        = ["using CountersUpgradeable for CountersUpgradeable.Counter;",
          "using CountersUpgradeable for CountersUpgradeable.Counter;"]
      ∧ ¬ c.usingLines.Nodup
      ∧ c.redeclared.map c.clauseWords
        = [["override(VotesUpgradeable, VotesUpgradeable)"]]
      ∧ ∃ m ∈ c.redeclared,
        ¬ ((c.basesAmong m.ancestors).map c.shownName).Nodup := by
  intro c
  obtain ⟨text, hprint⟩ :
      ∃ text, SourceFile.printPlain [c] = .ok text := ⟨_, rfl⟩
  exact ⟨text, hprint,
    shownNames_of_print rfl (List.mem_singleton_self c) hprint,
    by decide +kernel, by decide, by decide, by decide, by decide +kernel,
    by decide⟩

/-- The names of files that an upgradeable contract imports as they are. If
such a file is named after what the contract takes from it, this is also
the name that is printed, after `is`, in override clauses and in `using`
lines, exactly if it is `Initializable`, or has the form of an interface's
name, or has the suffix. -/
theorem provided_by_file_iff (name : String) (history : List Step) :
    let c := replay history { name }
    c.upgradeable = true →
      ∀ (transform : String → String) (cs : List Contract) (text : String),
        c ∈ cs → SourceFile.print transform cs = .ok text →
          c.ShownNames text
            ∧ ∀ d ∈ c.dependencies, Package.upgradeablePath d.path = d.path →
              Package.fileStem d.path = d.name →
                Occurs ("import \"" ++ transform d.path ++ "\";") text
                  ∧ (c.shownName d.name = Package.fileStem d.path
                    ↔ Package.Kept d.name) := by
  intro c hup transform cs text hc hprint
  refine ⟨shownNames_of_print rfl hc hprint, fun d hd hpath hstem => ⟨?_, ?_⟩⟩
  · have himport := occurs_import hprint hc hd
    unfold shownPath at himport
    rw [if_pos hup, hpath] at himport
    exact himport
  · rw [hstem, ← Package.upgradeableName_eq_self_iff]
    unfold shownName
    rw [if_pos hup]

/-- An upgradeable contract that takes three contracts
from files of its own. -/
def ownFiles : List Step :=
  [.upgradeable, .base ⟨⟨"Initializable", "./Initializable.sol"⟩, []⟩,
    .base ⟨⟨"IVotes", "./interfaces/IVotes.sol"⟩, []⟩,
    .base ⟨⟨"Local", "./Local.sol"⟩, []⟩]

/-- The first two are printed under the names of their
files, the third is not. -/
theorem provided_by_file_of_ownFiles :
    let c := replay ownFiles { name := "Token" }
    ∃ text, SourceFile.printPlain [c] = .ok text
      ∧ Occurs "import \"./interfaces/IVotes.sol\";" text
        ∧ c.shownName "IVotes" = "IVotes"
      ∧ Occurs "import \"./Local.sol\";" text
        ∧ c.shownName "Local" ≠ "Local" := by
  intro c
  obtain ⟨text, hprint⟩ :
      ∃ text, SourceFile.printPlain [c] = .ok text := ⟨_, rfl⟩
  obtain ⟨-, hfiles⟩ := provided_by_file_iff "Token" ownFiles rfl id [c] text
    (List.mem_singleton_self c) hprint
  obtain ⟨hvotes, hvotesName⟩ :=
    hfiles ⟨"IVotes", "./interfaces/IVotes.sol"⟩ (by decide) (by decide)
      (by decide)
  obtain ⟨hlocal, hlocalName⟩ :=
    hfiles ⟨"Local", "./Local.sol"⟩ (by decide) (by decide) (by decide)
  have hkept : Package.Kept "IVotes" :=
    .inr (.inl ⟨'V', "otes".toList, by decide, by decide⟩)
  have hrenamed : c.shownName "Local" ≠ "Local" := by decide
  exact ⟨text, hprint, hvotes, hvotesName.2 hkept, hlocal, hrenamed⟩

/-- The file of a base is imported as it is, but the name that is
printed is not the file's. -/
theorem local_base_renamed :
    SourceFile.printPlain
        [replay [.upgradeable,
          .base ⟨⟨"Local", "./Local.sol"⟩, []⟩] { name := "Token" }]
      = .ok (SourceFile.headerText "MIT" ++ "\nimport \"./Local.sol\";\n\n"
        ++ "contract Token is LocalUpgradeable \x7b\n"
        ++ "    /// @custom:oz-upgrades-unsafe-allow constructor\n"
        ++ "    constructor() initializer \x7b\x7d\n\n"
        ++ "    function initialize() initializer public \x7b\n"
        ++ "        __Local_init();\n    \x7d\n\x7d\n") := by
  decide +kernel

end TokenForge
