/-
Rewriting twice is rewriting once. Each of the four rewritings decides by the
form of a text whether the text stays as it is, and gives every other text a
form that stays: a name gets the suffix that it lacked, a path of the contracts
package leaves that package, and the release of a pinned path stands where only
a slash or the end may follow the name of a package.

So it is enough to know for each rewriting which texts stay, and that its
results are among them.
-/
import TokenForge.Proofs.Package.Pin
import TokenForge.Proofs.Package.Upgradeable

namespace TokenForge.Package

open Text

-- ================================================================== names

/-- One text is the other with the suffix put in at one point. -/
def Suffixed (plain text : String) : Prop :=
  ∃ before after, plain = before ++ after ∧ text = before ++ suffix ++ after

theorem Suffixed.append {plain text : String} (h : Suffixed plain text)
    (rest : String) :
    Suffixed (plain ++ rest) (text ++ rest) := by
  obtain ⟨before, after, rfl, rfl⟩ := h
  refine ⟨before, after ++ rest, ?_, ?_⟩
  · rw [String.append_assoc]
  · rw [String.append_assoc]

/-- A name that is not kept gets the suffix at the end of
its leading segment. -/
theorem suffixed_of_not_kept {name : String} (h : ¬ Kept name) :
    Suffixed name (upgradeableName name) := by
  refine ⟨String.ofList (cutFirst '.' name.toList).1,
    String.ofList (cutFirst '.' name.toList).2, ?_, ?_⟩
  · rw [← String.ofList_append, cutFirst_append, String.ofList_toList]
  · unfold upgradeableName
    rw [renamed_of_not_stays (mt stays_toList_iff.1 h), String.ofList_append,
      String.ofList_append, String.ofList_toList]

/-- A renamed name is kept. -/
theorem kept_upgradeableName (name : String) :
    Kept (upgradeableName name) := by
  rw [← stays_toList_iff]
  unfold upgradeableName
  rw [String.toList_ofList]
  exact stays_renamed name.toList

-- ============================================================ declarations

/-- A line that starts with a capitalised word and a dot after it. -/
def Qualifies (word rest line : String) : Prop :=
  (∀ x ∈ word.toList, isWordPart x = true)
    ∧ word.toList.head?.any Char.isUpper = true
    ∧ line = word ++ "." ++ rest

/-- A declaration of a qualified type whose leading word is not kept. -/
def DeclaresRenamed (line : String) : Prop :=
  ∃ word rest, Qualifies word rest line ∧ ¬ Kept word

variable {line : String}

/-- In such a line the leading word is renamed. -/
theorem upgradeableVariable_of_qualifies {word rest : String}
    (h : Qualifies word rest line) :
    upgradeableVariable line = upgradeableName word ++ "." ++ rest := by
  obtain ⟨hword, hcapital, rfl⟩ := h
  have hqualified : isQualified word.toList ('.' :: rest.toList) = true := by
    unfold isQualified
    rw [hcapital]
    rfl
  have hline : word ++ "." ++ rest
      = String.ofList (word.toList ++ '.' :: rest.toList) := by
    rw [← String.toList_inj]
    simp [String.toList_append]
  rw [hline, upgradeableVariable_of_word hword (by decide), if_pos hqualified,
    ← String.toList_inj]
  unfold upgradeableName
  simp [String.toList_append]

/-- Every line that is not of that form stays. -/
theorem upgradeableVariable_of_not_qualifies
    (h : ∀ word rest, ¬ Qualifies word rest line) :
    upgradeableVariable line = line := by
  have hplain : ¬ isQualified (line.toList.takeWhile isWordPart)
      (line.toList.dropWhile isWordPart) = true := by
    intro hqualified
    unfold isQualified at hqualified
    rw [Bool.and_eq_true, beq_iff_eq] at hqualified
    obtain ⟨hcapital, hdot⟩ := hqualified
    obtain ⟨rest, hrest⟩ := List.head?_eq_some_iff.1 hdot
    refine h (String.ofList (line.toList.takeWhile isWordPart))
      (String.ofList rest)
      ⟨fun x hx => ?_, ?_, ?_⟩
    · rw [String.toList_ofList] at hx
      exact List.mem_takeWhile_imp hx
    · rwa [String.toList_ofList]
    · have hline : line.toList
          = line.toList.takeWhile isWordPart ++ '.' :: rest := by
        rw [← hrest, List.takeWhile_append_dropWhile]
      rw [← String.toList_inj]
      simp only [String.toList_append, String.toList_ofList, List.append_assoc]
      exact hline
  unfold upgradeableVariable
  exact if_neg hplain

theorem upgradeableVariable_of_not_renamed (h : ¬ DeclaresRenamed line) :
    upgradeableVariable line = line := by
  by_cases hq : ∃ word rest, Qualifies word rest line
  · obtain ⟨word, rest, hq⟩ := hq
    have hkept : Kept word := by
      by_contra hnot
      exact h ⟨word, rest, hq, hnot⟩
    rw [upgradeableVariable_of_qualifies hq,
      upgradeableName_eq_self_iff.2 hkept]
    exact hq.2.2.symm
  · exact upgradeableVariable_of_not_qualifies fun word rest hq' =>
      hq ⟨word, rest, hq'⟩

/-- A declaration of a type that is renamed has the suffix once more. -/
theorem suffixed_of_declaresRenamed (h : DeclaresRenamed line) :
    Suffixed line (upgradeableVariable line) := by
  obtain ⟨word, rest, hq, hnot⟩ := h
  rw [upgradeableVariable_of_qualifies hq, hq.2.2]
  exact ((suffixed_of_not_kept hnot).append ".").append rest

/-- The word before the dot is the whole leading word of the line. -/
theorem takeWhile_isWordPart {word rest : String}
    (hword : ∀ x ∈ word.toList, isWordPart x = true) :
    (word ++ "." ++ rest).toList.takeWhile isWordPart = word.toList := by
  have hline : (word ++ "." ++ rest).toList
      = word.toList ++ '.' :: rest.toList := by
    simp [String.toList_append]
  rw [hline, List.takeWhile_append_of_pos hword,
    List.takeWhile_cons_of_neg (by decide), List.append_nil]

/-- The leading word of a line that was renamed is kept. -/
theorem not_declaresRenamed_upgradeableVariable (line : String) :
    ¬ DeclaresRenamed (upgradeableVariable line) := by
  by_cases h : DeclaresRenamed line
  · obtain ⟨word, rest, hq, -⟩ := h
    rw [upgradeableVariable_of_qualifies hq]
    intro h'
    obtain ⟨word', rest', ⟨hword', -, hline⟩, hnot⟩ := h'
    have hparts : ∀ x ∈ (upgradeableName word).toList,
        isWordPart x = true := by
      have hsuffix : suffix.toList.all isWordPart = true := by decide
      intro x hx
      rcases mem_upgradeableName hx with hx | hx
      · exact hq.1 x hx
      · exact List.all_eq_true.1 hsuffix x hx
    have hsame : word' = upgradeableName word := by
      rw [← String.toList_inj, ← takeWhile_isWordPart hword', ← hline,
        takeWhile_isWordPart hparts]
    exact hnot (hsame ▸ kept_upgradeableName word)
  · rwa [upgradeableVariable_of_not_renamed h]

-- ================================================================== paths

/-- A path in the directory of the contracts package. -/
def InContracts (path : String) : Prop := ∃ rest, path = contractsRoot ++ rest

variable {path : String}

theorem upgradeablePath_of_not_inContracts (h : ¬ InContracts path) :
    upgradeablePath path = path := by
  have hstrip : stripStart? contractsRoot.toList path.toList = none := by
    rw [Option.eq_none_iff_forall_not_mem]
    intro rest hrest
    refine h ⟨String.ofList rest, ?_⟩
    rw [← String.toList_inj, String.toList_append, String.toList_ofList]
    exact eq_of_stripStart? hrest
  unfold upgradeablePath
  rw [hstrip]

/-- A path of the contracts package becomes one of the upgradeable package. -/
theorem exists_upgradeablePath (h : InContracts path) :
    ∃ rest, upgradeablePath path = upgradeableRoot ++ rest := by
  obtain ⟨rest, rfl⟩ := h
  unfold upgradeablePath
  rw [String.toList_append, stripStart?_append]
  exact ⟨_, rfl⟩

theorem not_inContracts_upgradeableRoot (rest : String) :
    ¬ InContracts (upgradeableRoot ++ rest) := by
  intro h
  obtain ⟨rest', h⟩ := h
  have htoList := congrArg String.toList h
  rw [String.toList_append, String.toList_append] at htoList
  simp [upgradeableRoot, contractsRoot] at htoList

/-- A renamed path is not in the package any more. -/
theorem not_inContracts_upgradeablePath (path : String) :
    ¬ InContracts (upgradeablePath path) := by
  by_cases h : InContracts path
  · obtain ⟨rest, hrest⟩ := exists_upgradeablePath h
    rw [hrest]
    exact not_inContracts_upgradeableRoot rest
  · rwa [upgradeablePath_of_not_inContracts h]

-- ================================================================= pinning

/-- A path of one of the packages that names no release. -/
def Pinnable (path : String) : Prop :=
  ∃ package ∈ pinnable, ∃ rest, GoesInside rest ∧ path = package ++ rest

/-- A path that goes into neither package is left alone. -/
theorem pin_of_not_pinnable (version : Version) (h : ¬ Pinnable path) :
    pin version path = path :=
  pin_outside version fun package hpackage rest hrest hpath =>
    h ⟨package, hpackage, rest, hrest, hpath⟩

/-- Neither the end nor a slash follows the name of a package where
the release stands. -/
theorem not_pinnable_release (text : String) {package : String}
    (h : package ∈ pinnable) :
    ¬ Pinnable (package ++ "@" ++ text) := by
  intro hpinnable
  obtain ⟨package', h', rest, hrest, heq⟩ := hpinnable
  unfold pinnable at h h'
  simp only [List.mem_cons, List.not_mem_nil, or_false] at h h'
  have htoList := congrArg String.toList heq
  rw [String.toList_append, String.toList_append, String.toList_append]
    at htoList
  rcases h with rfl | rfl <;> rcases h' with rfl | rfl <;>
    rcases hrest with rfl | ⟨inner, rfl⟩ <;>
    simp at htoList

/-- A pinned path is not pinned again. -/
theorem not_pinnable_pin (version : Version) (path : String) :
    ¬ Pinnable (pin version path) := by
  by_cases h : Pinnable path
  · obtain ⟨package, hpackage, rest, hrest, rfl⟩ := h
    rw [pin_inside version hpackage hrest, String.append_assoc]
    exact not_pinnable_release _ hpackage
  · rwa [pin_of_not_pinnable version h]

-- ============================================================== the theorem

/-- A text and what becomes of it: the text itself, or the text with the suffix
put in at one point where it has to have it. -/
def SuffixedIf (lacking : Prop) (plain text : String) : Prop :=
  ¬ lacking ∧ text = plain ∨ lacking ∧ Suffixed plain text

/-- Every rewriting leaves its own results alone, whichever release the second
pinning puts in. A name that is not kept and a declaration with such a leading
word get the suffix, at one point and once; all other names and declarations
stay as they are, and so do exactly the paths outside the contracts package,
and outside both packages. -/
theorem rewriting_settles (s : String) (v w : Version) :
    upgradeableName (upgradeableName s) = upgradeableName s
      ∧ upgradeablePath (upgradeablePath s) = upgradeablePath s
      ∧ upgradeableVariable (upgradeableVariable s) = upgradeableVariable s
      ∧ pin w (pin v s) = pin v s
      ∧ SuffixedIf (¬ Kept s) s (upgradeableName s)
      ∧ SuffixedIf (DeclaresRenamed s) s (upgradeableVariable s)
      ∧ (upgradeablePath s = s ↔ ¬ InContracts s)
      ∧ (pin v s = s ↔ ¬ Pinnable s) := by
  have hpath := not_inContracts_upgradeablePath s
  have hpin := not_pinnable_pin v s
  refine ⟨?_, ?_, ?_, ?_, ?_, ?_, ?_, ?_⟩
  · exact upgradeableName_eq_self_iff.2 (kept_upgradeableName s)
  · exact upgradeablePath_of_not_inContracts hpath
  · exact upgradeableVariable_of_not_renamed
      (not_declaresRenamed_upgradeableVariable s)
  · exact pin_of_not_pinnable w hpin
  · by_cases h : Kept s
    · exact .inl ⟨not_not.2 h, upgradeableName_eq_self_iff.2 h⟩
    · exact .inr ⟨h, suffixed_of_not_kept h⟩
  · by_cases h : DeclaresRenamed s
    · exact .inr ⟨h, suffixed_of_declaresRenamed h⟩
    · exact .inl ⟨h, upgradeableVariable_of_not_renamed h⟩
  · exact ⟨fun h => h ▸ hpath, upgradeablePath_of_not_inContracts⟩
  · exact ⟨fun h => h ▸ hpin, pin_of_not_pinnable v⟩

end TokenForge.Package
