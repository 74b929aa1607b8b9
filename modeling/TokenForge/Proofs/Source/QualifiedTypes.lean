/-
The types of a library, such as `Counters.Counter`, stand in two places of a
contract: in the `using` line that attaches the library, and in front of the
variables that are declared with them. An upgradeable contract renames both, a
whole name in the one place and the leading word of a line in the other. They
agree for all leading segments but two kinds (`declared_type_agrees_iff`).

A line is cut where its leading word ends, and `$`, which may stand in an
identifier, ends the word. So nothing is renamed in a declaration of a type
whose leading segment has a `$`. And `Initializable` keeps its name as a word,
but not as a segment of a longer name, as only the whole name is compared.
-/
import TokenForge.Proofs.Package.Upgradeable
import TokenForge.Proofs.Source.Composition
import TokenForge.Solidity.Identifier

namespace TokenForge

namespace Package

open Solidity (isIdentifier isIdentifierPart)

-- ============================================================ declarations

/-- A character of an identifier belongs to a word unless it is `$`. -/
theorem isWordPart_of_isIdentifierPart {x : Char}
    (h : isIdentifierPart x = true) (hx : x ≠ '$') : isWordPart x = true := by
  unfold isIdentifierPart at h
  rw [Bool.or_eq_true] at h
  exact h.resolve_right fun hdollar => hx (beq_iff_eq.1 hdollar)

/-- The declaration of a qualified type: its leading segment is renamed,
unless it has a `$`. -/
theorem upgradeableVariable_qualified {head tail : List Char}
    (hparts : ∀ x ∈ head, isIdentifierPart x = true)
    (hcapital : head.head?.any Char.isUpper = true) :
    upgradeableVariable (String.ofList (head ++ '.' :: tail))
      = String.ofList ((if '$' ∈ head then head else renamed head)
        ++ '.' :: tail) := by
  by_cases hdollar : '$' ∈ head
  · obtain ⟨word, rest, rfl, hfirst⟩ := List.eq_append_cons_of_mem hdollar
    have hword : ∀ x ∈ word, isWordPart x = true := fun x hx =>
      isWordPart_of_isIdentifierPart (hparts x (List.mem_append_left _ hx))
        fun hx' => hfirst (hx' ▸ hx)
    have hplain : isQualified word ('$' :: (rest ++ '.' :: tail)) = false := by
      unfold isQualified
      exact Bool.and_eq_false_iff.2 (.inr (by simp))
    rw [if_pos hdollar, List.append_assoc, List.cons_append,
      upgradeableVariable_of_word hword (by decide), hplain]
    rfl
  · have hword : ∀ x ∈ head, isWordPart x = true := fun x hx =>
      isWordPart_of_isIdentifierPart (hparts x hx) fun hx' =>
        hdollar (hx' ▸ hx)
    have hqualified : isQualified head ('.' :: tail) = true := by
      unfold isQualified
      rw [hcapital]
      rfl
    rw [if_neg hdollar, upgradeableVariable_of_word hword (by decide),
      if_pos hqualified]

-- =============================================================== agreement

/-- A leading segment under which types are renamed alike wherever they stand:
it is not `Initializable`, and if it has a `$`, renaming leaves it alone. -/
def RenamedAlike (head : String) : Prop :=
  head ≠ "Initializable" ∧ ('$' ∈ head.toList → Kept head)

theorem upgradeableVariable_eq_iff {head : String}
    (hhead : isIdentifier head = true)
    (hcapital : head.toList.head?.any Char.isUpper = true)
    (member rest : String) :
    upgradeableVariable (head ++ "." ++ member ++ " " ++ rest)
        = upgradeableName (head ++ "." ++ member) ++ " " ++ rest
      ↔ RenamedAlike head := by
  have hparts : ∀ x ∈ head.toList, isIdentifierPart x = true :=
    List.all_eq_true.1 (Solidity.all_isIdentifierPart hhead).2
  have hdot : '.' ∉ head.toList := fun h => absurd (hparts '.' h) (by decide)
  have hinit : head.toList ≠ "Initializable".toList ↔ head ≠ "Initializable" :=
    not_congr String.toList_inj
  have hline : head ++ "." ++ member ++ " " ++ rest
      = String.ofList (head.toList
        ++ '.' :: (member.toList ++ ' ' :: rest.toList)) := by
    rw [← String.toList_inj]
    simp [String.toList_append]
  have htype : (head ++ "." ++ member).toList
      = head.toList ++ '.' :: member.toList := by
    simp [String.toList_append]
  have hshown : upgradeableName (head ++ "." ++ member) ++ " " ++ rest
      = String.ofList (renamed (head.toList ++ '.' :: member.toList)
        ++ ' ' :: rest.toList) := by
    unfold upgradeableName
    rw [htype, ← String.toList_inj]
    simp [String.toList_append]
  rw [hline, upgradeableVariable_qualified hparts hcapital, hshown,
    String.ofList_inj, ← List.cons_append, ← List.append_assoc,
    List.append_cancel_right_eq]
  unfold RenamedAlike
  by_cases hdollar : '$' ∈ head.toList
  · rw [if_pos hdollar, eq_comm, renamed_eq_self_iff, stays_qualified hdot,
      stays_toList_iff, hinit, and_comm]
    exact and_congr_right' ⟨fun h _ => h, fun h => h hdollar⟩
  · rw [if_neg hdollar, eq_comm, renamed_qualified hdot, hinit]
    exact ⟨fun h => ⟨h, fun h' => absurd h' hdollar⟩, And.left⟩

end Package

-- ================================================================ contracts

namespace Contract

variable {c : Contract} {transform : String → String} {cs : List Contract}
  {text : String}

/-- A line of a section that every body of a contract has is in the text. -/
theorem occurs_of_section (h : SourceFile.print transform cs = .ok text)
    (hc : c ∈ cs) (fs : List Fragment) (hfs : ∀ marked, fs <:+: c.body marked)
    {line : String} (hline : Fragment.line line ∈ fs) : Occurs line text := by
  obtain ⟨marked, -, hblock⟩ := SourceFile.occurs_print h hc
  rw [textOf_blockOf] at hblock
  have hbody : Occurs line (Fragment.textOf 1 (c.body marked)) :=
    (Fragment.occurs_line 1 hline).trans
      (Fragment.occurs_textOf 1 (hfs marked))
  exact hbody.trans (Occurs.trans ⟨c.heading ++ "\n", "\x7d\n", rfl⟩ hblock)

/-- Every attachment has its `using` line. -/
theorem occurs_using (h : SourceFile.print transform cs = .ok text)
    (hc : c ∈ cs) {a : Attachment} (ha : a ∈ c.attachments) :
    Occurs ("using " ++ c.shownName a.library.name ++ " for "
      ++ c.shownName a.type ++ ";")
      text := by
  have hpair : (a.library.name, a.type) ∈ c.attachedPairs :=
    List.mem_eraseDups.2 (List.mem_map_of_mem ha)
  refine occurs_of_section h hc c.usingSection (fun marked => ?_) ?_
  · exact Fragment.infix_joinSections (by simp)
  · exact List.mem_map.2 ⟨_, hpair, rfl⟩

/-- Every declaration has its line. -/
theorem occurs_variable (h : SourceFile.print transform cs = .ok text)
    (hc : c ∈ cs) {line : String} (hline : line ∈ c.stateVariables) :
    Occurs (c.shownVariable line) text := by
  refine occurs_of_section h hc c.variableSection (fun marked => ?_) ?_
  · exact Fragment.infix_joinSections (by simp)
  · exact List.mem_map.2 ⟨line, hline, rfl⟩

end Contract

-- ============================================================== the theorem

open Solidity (isIdentifier)

/-- The type in a declaration is renamed like the type as a whole exactly if
its leading segment is not `Initializable`, and has no `$` unless it keeps its
name. In a printed contract that attaches a library to the type and declares a
variable of it, these are the cases in which the two lines name the same type;
in a plain contract they always do. -/
theorem declared_type_agrees_iff (head member rest : String)
    (hhead : isIdentifier head = true)
    (hcapital : head.toList.head?.any Char.isUpper = true) :
    (Package.upgradeableVariable (head ++ "." ++ member ++ " " ++ rest)
          = Package.upgradeableName (head ++ "." ++ member) ++ " " ++ rest
        ↔ Package.RenamedAlike head)
      ∧ ∀ (transform : String → String) (cs : List Contract) (text : String),
        SourceFile.print transform cs = .ok text →
          ∀ c ∈ cs, ∀ a ∈ c.attachments, a.type = head ++ "." ++ member →
            head ++ "." ++ member ++ " " ++ rest ∈ c.stateVariables →
              Occurs ("using " ++ c.shownName a.library.name ++ " for "
                  ++ c.shownName (head ++ "." ++ member) ++ ";") text
                ∧ Occurs
                  (c.shownVariable (head ++ "." ++ member ++ " " ++ rest)) text
                ∧ (c.shownVariable (head ++ "." ++ member ++ " " ++ rest)
                    = c.shownName (head ++ "." ++ member) ++ " " ++ rest
                  ↔ (c.upgradeable = true → Package.RenamedAlike head)) := by
  have hagrees := Package.upgradeableVariable_eq_iff hhead hcapital member rest
  refine ⟨hagrees, fun transform cs text h c hc a ha htype hline =>
    ⟨?_, ?_, ?_⟩⟩
  · rw [← htype]
    exact Contract.occurs_using h hc ha
  · exact Contract.occurs_variable h hc hline
  · unfold Contract.shownVariable Contract.shownName
    cases c.upgradeable with
    | false => simp
    | true => simpa using hagrees

/-- A counter of an upgradeable contract has one type in both lines. -/
theorem declared_type_of_counter :
    let c : Contract :=
      { name := "Token", upgradeable := true,
        stateVariables := ["Counters.Counter private _ids;"],
        attachments := [⟨⟨"Counters", "./Counters.sol"⟩, "Counters.Counter"⟩] }
    ∃ text, SourceFile.printPlain [c] = .ok text
      ∧ Occurs "using CountersUpgradeable for CountersUpgradeable.Counter;"
        text
      ∧ Occurs "CountersUpgradeable.Counter private _ids;" text := by
  intro c
  obtain ⟨text, hprint⟩ :
      ∃ text, SourceFile.printPlain [c] = .ok text := ⟨_, rfl⟩
  have halike : Package.RenamedAlike "Counters" :=
    ⟨by decide, fun h => absurd h (by decide)⟩
  obtain ⟨-, hcontracts⟩ :=
    declared_type_agrees_iff "Counters" "Counter" "private _ids;" (by decide)
      (by decide)
  obtain ⟨husing, hvariable, hsame⟩ :=
    hcontracts id [c] text hprint c (List.mem_singleton_self c)
    ⟨⟨"Counters", "./Counters.sol"⟩, "Counters.Counter"⟩
      (List.mem_singleton_self _) rfl
    (List.mem_singleton_self _)
  rw [hsame.2 fun _ => halike] at hvariable
  exact ⟨text, hprint, husing, hvariable⟩

/-- The lines of an upgradeable contract do not agree on a type of
`Initializable`, and on one whose leading segment has a `$`. -/
theorem declared_type_differs :
    isIdentifier "Initializable" = true ∧ isIdentifier "Big$Map" = true
      ∧ Package.upgradeableVariable
        ("Initializable" ++ "." ++ "Phase" ++ " " ++ "private _phase;")
        ≠ Package.upgradeableName ("Initializable" ++ "." ++ "Phase") ++ " "
          ++ "private _phase;"
      ∧ Package.upgradeableVariable
        ("Big$Map" ++ "." ++ "Map" ++ " " ++ "private _map;")
        ≠ Package.upgradeableName ("Big$Map" ++ "." ++ "Map") ++ " "
          ++ "private _map;"
      ∧ SourceFile.printPlain
          [Contract.replay [.upgradeable,
            .attachment ⟨⟨"Phases", "./Phases.sol"⟩, "Initializable.Phase"⟩,
            .attachment ⟨⟨"Phases", "./Phases.sol"⟩, "Big$Map.Map"⟩,
            .declare "Initializable.Phase private _phase;",
            .declare "Big$Map.Map private _map;"] { name := "Token" }]
        = .ok (SourceFile.headerText "MIT" ++ "\nimport \"./Phases.sol\";\n\n"
          ++ "contract Token \x7b\n"
          ++ "    using PhasesUpgradeable for "
            ++ "InitializableUpgradeable.Phase;\n"
          ++ "    using PhasesUpgradeable for Big$MapUpgradeable.Map;\n\n"
          ++ "    Initializable.Phase private _phase;\n"
          ++ "    Big$Map.Map private _map;\n\x7d\n") := by
  decide +kernel

end TokenForge
