/-
Which names the upgradeable package puts together. A name that is not the same
in both packages gets the suffix at the end of its leading segment, and both
the segment and what follows it can be read off the result. Two names therefore
have the same counterpart only if they are equal or one of them is the
counterpart of the other (`upgradeableName_eq_iff`): the suffix is put on once,
and a name that has it is its own counterpart.

A qualified name is renamed like its leading segment, and the only exception is
`Initializable`, which is compared as a whole (`renamed_qualified`). The path
of a file is cut elsewhere, at its last slash and its last dot, but a file that
is named after a contract is cut around the name, so it gets the name of the
counterpart (`upgradeablePath_of_file`).
-/
import Mathlib.Data.List.TakeWhile
import TokenForge.Package.Upgradeable

namespace TokenForge

-- ============================================================ the segments

namespace Text

variable {sep : Char}

/-- A text that goes on with a separator, or ends, is cut there. -/
theorem cutFirst_append_of_not_mem {head tail : List Char} (hhead : sep ∉ head)
    (htail : tail = [] ∨ ∃ rest, tail = sep :: rest) :
    cutFirst sep (head ++ tail) = (head, tail) := by
  have hkeep : ∀ x ∈ head, (x != sep) = true := by
    intro x hx
    rw [bne_iff_ne]
    rintro rfl
    exact hhead hx
  unfold cutFirst
  rw [List.takeWhile_append_of_pos hkeep, List.dropWhile_append_of_pos hkeep]
  rcases htail with rfl | ⟨rest, rfl⟩
  · simp
  · simp

theorem cutFirst_of_not_mem {s : List Char} (h : sep ∉ s) :
    cutFirst sep s = (s, []) := by
  have hcut : cutFirst sep (s ++ []) = (s, []) :=
    cutFirst_append_of_not_mem h (.inl rfl)
  rwa [List.append_nil] at hcut

theorem not_mem_cutFirst_fst (s : List Char) : sep ∉ (cutFirst sep s).1 := by
  intro h
  have hne : (sep != sep) = true := List.mem_takeWhile_imp (p := (· != sep)) h
  simp at hne

theorem cutFirst_snd_cases (s : List Char) :
    (cutFirst sep s).2 = [] ∨ ∃ rest, (cutFirst sep s).2 = sep :: rest := by
  have hhead := List.head?_dropWhile_not (· != sep) s
  unfold cutFirst
  dsimp only
  cases hs : s.dropWhile (· != sep) with
  | nil => exact .inl rfl
  | cons x rest =>
      rw [hs] at hhead
      have hx : x = sep := by simpa using hhead
      exact .inr ⟨rest, by rw [hx]⟩

theorem cutLast?_of_not_mem {s : List Char} (h : sep ∉ s) :
    cutLast? sep s = none := by
  induction s with
  | nil => rfl
  | cons c s ih =>
      obtain ⟨hc, hs⟩ := not_or.1 (mt List.mem_cons.2 h)
      rw [cutLast?, ih hs]
      exact if_neg (Ne.symm hc)

/-- A text is cut at a separator after which there is no other. -/
theorem cutLast?_append_of_not_mem {before after : List Char}
    (h : sep ∉ after) :
    cutLast? sep (before ++ sep :: after) = some (before, after) := by
  induction before with
  | nil =>
      rw [List.nil_append, cutLast?, cutLast?_of_not_mem h]
      exact if_pos rfl
  | cons c before ih => rw [List.cons_append, cutLast?, ih]

end Text

namespace Package

open Text

-- ====================================================== the counterparts

/-- A name that is its own counterpart: it is the same in both packages, or its
leading segment has the suffix. -/
def Stays (name : List Char) : Prop :=
  isShared name = true ∨ suffix.toList <:+ (cutFirst '.' name).1

variable {name : List Char}

theorem renamed_of_stays (h : Stays name) : renamed name = name := by
  unfold renamed
  rcases h with hshared | hsuffix
  · rw [if_pos hshared]
  · dsimp only
    rw [if_pos (List.isSuffixOf_iff_suffix.2 hsuffix), ite_self]

/-- Every other name gets the suffix at the end of its leading segment. -/
theorem renamed_of_not_stays (h : ¬ Stays name) :
    renamed name
      = (cutFirst '.' name).1 ++ suffix.toList ++ (cutFirst '.' name).2 := by
  obtain ⟨hshared, hsuffix⟩ := not_or.1 h
  unfold renamed
  dsimp only
  rw [if_neg hshared, if_neg (mt List.isSuffixOf_iff_suffix.1 hsuffix)]

/-- Putting the suffix on a name adds letters only. -/
theorem mem_renamed {x : Char} (h : x ∈ renamed name) :
    x ∈ name ∨ x ∈ suffix.toList := by
  unfold renamed at h
  split at h
  · exact .inl h
  · have hcut := cutFirst_append '.' name
    dsimp only at h
    split at h
    · exact .inl h
    · rw [List.append_assoc, List.mem_append, List.mem_append] at h
      rcases h with h | h | h
      · exact .inl (hcut ▸ List.mem_append_left _ h)
      · exact .inr h
      · exact .inl (hcut ▸ List.mem_append_right _ h)

/-- The leading segment of a counterpart ends in the suffix, and what follows
it is what followed the segment of the name. -/
theorem cutFirst_renamed (h : ¬ Stays name) :
    cutFirst '.' (renamed name)
      = ((cutFirst '.' name).1 ++ suffix.toList, (cutFirst '.' name).2) := by
  rw [renamed_of_not_stays h]
  refine cutFirst_append_of_not_mem ?_ (cutFirst_snd_cases name)
  rw [List.mem_append, not_or]
  exact ⟨not_mem_cutFirst_fst name, by decide⟩

/-- A counterpart is its own counterpart. -/
theorem stays_renamed (name : List Char) : Stays (renamed name) := by
  by_cases h : Stays name
  · rw [renamed_of_stays h]
    exact h
  · right
    rw [cutFirst_renamed h]
    exact List.suffix_append _ _

theorem renamed_eq_self_iff : renamed name = name ↔ Stays name := by
  constructor
  · intro h
    rw [← h]
    exact stays_renamed name
  · exact renamed_of_stays

/-- Names that get the suffix keep apart. -/
theorem eq_of_renamed_eq {a b : List Char} (ha : ¬ Stays a) (hb : ¬ Stays b)
    (h : renamed a = renamed b) : a = b := by
  have hcut := cutFirst_renamed ha
  rw [h, cutFirst_renamed hb] at hcut
  obtain ⟨hhead, htail⟩ := Prod.mk.inj hcut
  rw [← cutFirst_append '.' a, ← cutFirst_append '.' b, ← htail,
    List.append_cancel_right hhead]

/-- Two names have the same counterpart exactly if they are equal or one is the
counterpart of the other. -/
theorem renamed_eq_iff {a b : List Char} :
    renamed a = renamed b ↔ a = b ∨ a = renamed b ∨ renamed a = b := by
  constructor
  · intro h
    by_cases ha : Stays a
    · exact .inr (.inl (by rw [← h, renamed_of_stays ha]))
    · by_cases hb : Stays b
      · exact .inr (.inr (by rw [h, renamed_of_stays hb]))
      · exact .inl (eq_of_renamed_eq ha hb h)
  · rintro (rfl | rfl | rfl)
    · rfl
    · exact renamed_of_stays (stays_renamed b)
    · exact (renamed_of_stays (stays_renamed a)).symm

-- ======================================================== qualified names

theorem isInterface_iff : isInterface name = true
    ↔ ∃ x rest, name = 'I' :: x :: rest ∧ x.isUpper = true := by
  unfold isInterface
  constructor
  · intro h
    split at h
    next x rest => exact ⟨x, rest, rfl, h⟩
    next => cases h
  · rintro ⟨x, rest, rfl, hx⟩
    exact hx

section Qualified

variable {head tail : List Char}

theorem cutFirst_qualified (h : '.' ∉ head) :
    cutFirst '.' (head ++ '.' :: tail) = (head, '.' :: tail) :=
  cutFirst_append_of_not_mem h (.inr ⟨tail, rfl⟩)

/-- Whether a name has the form of an interface's shows in
its leading segment. -/
theorem isInterface_qualified :
    isInterface (head ++ '.' :: tail) = isInterface head := by
  have hdot : '.'.isUpper = false := by decide
  rw [Bool.eq_iff_iff, isInterface_iff, isInterface_iff]
  match head with
  | [] => simp
  | [y] => simp [hdot]
  | y :: z :: rest => simp

/-- A qualified name stays exactly if its leading segment does, but for one:
`Initializable` stays on its own only. -/
theorem stays_qualified (h : '.' ∉ head) :
    Stays (head ++ '.' :: tail)
      ↔ Stays head ∧ head ≠ "Initializable".toList := by
  have hshared : isShared (head ++ '.' :: tail) = isInterface head := by
    have hne : head ++ '.' :: tail ≠ "Initializable".toList := by
      intro heq
      have hdot : '.' ∈ "Initializable".toList :=
        heq ▸ List.mem_append_right head (List.mem_cons_self ..)
      exact absurd hdot (by decide)
    unfold isShared
    rw [beq_false_of_ne hne, Bool.false_or, isInterface_qualified]
  unfold Stays
  rw [hshared, cutFirst_qualified h, cutFirst_of_not_mem h]
  unfold isShared
  rw [Bool.or_eq_true, beq_iff_eq]
  constructor
  · intro hstays
    refine ⟨hstays.imp_left .inr, fun hinit => ?_⟩
    have hneither : ¬ (isInterface "Initializable".toList = true
        ∨ suffix.toList <:+ "Initializable".toList) := by
      decide
    exact hneither (hinit ▸ hstays)
  · rintro ⟨(hinit | hinterface) | hsuffix, hne⟩
    · exact absurd hinit hne
    · exact .inl hinterface
    · exact .inr hsuffix

/-- A qualified name is renamed by its leading segment, unless that
is `Initializable`. -/
theorem renamed_qualified (h : '.' ∉ head) :
    renamed (head ++ '.' :: tail) = renamed head ++ '.' :: tail
      ↔ head ≠ "Initializable".toList := by
  by_cases hinit : head = "Initializable".toList
  · have hmoved : ¬ Stays (head ++ '.' :: tail) := fun hstays =>
      ((stays_qualified h).1 hstays).2 hinit
    have hkept : Stays head := by
      rw [hinit]
      exact .inl (by decide)
    rw [renamed_of_not_stays hmoved, cutFirst_qualified h,
      renamed_of_stays hkept, List.append_cancel_right_eq]
    simp [hinit, suffix]
  · refine iff_of_true ?_ hinit
    by_cases hstays : Stays head
    · rw [renamed_of_stays hstays,
        renamed_of_stays ((stays_qualified h).2 ⟨hstays, hinit⟩)]
    · have hmoved : ¬ Stays (head ++ '.' :: tail) := fun hq =>
        hstays ((stays_qualified h).1 hq).1
      rw [renamed_of_not_stays hstays, renamed_of_not_stays hmoved,
        cutFirst_qualified h, cutFirst_of_not_mem h, List.append_nil]

end Qualified

-- ================================================================ as texts

/-- A name that the upgradeable package has too, or a name of that package:
`Initializable`, a name of the form of an interface's, or one with the suffix
at the end of its leading segment. -/
def Kept (name : String) : Prop :=
  name = "Initializable"
    ∨ (∃ x rest, name.toList = 'I' :: x :: rest ∧ x.isUpper = true)
    ∨ suffix.toList <:+ name.toList.takeWhile (· != '.')

theorem stays_toList_iff {name : String} : Stays name.toList ↔ Kept name := by
  unfold Stays Kept isShared
  rw [Bool.or_eq_true, isInterface_iff, beq_iff_eq,
    String.toList_inj, or_assoc]
  rfl

/-- The names that are their own counterparts. -/
theorem upgradeableName_eq_self_iff {name : String} :
    upgradeableName name = name ↔ Kept name := by
  rw [← stays_toList_iff, ← renamed_eq_self_iff, ← String.toList_inj]
  unfold upgradeableName
  rw [String.toList_ofList]

/-- Two names of which the package makes one: they are equal, or one is the
counterpart of the other. -/
def Joined (a b : String) : Prop :=
  a = b ∨ a = upgradeableName b ∨ upgradeableName a = b

instance (a b : String) : Decidable (Joined a b) :=
  inferInstanceAs (Decidable (_ ∨ _ ∨ _))

theorem upgradeableName_eq_iff {a b : String} :
    upgradeableName a = upgradeableName b ↔ Joined a b := by
  unfold Joined
  simp only [← String.toList_inj]
  unfold upgradeableName
  simp only [String.toList_ofList]
  exact renamed_eq_iff

-- ============================================================ declarations

/-- A line is renamed by its leading word. -/
theorem upgradeableVariable_of_word {word rest : List Char} {c : Char}
    (hword : ∀ x ∈ word, isWordPart x = true) (hc : isWordPart c = false) :
    upgradeableVariable (String.ofList (word ++ c :: rest))
      = if isQualified word (c :: rest) then
        String.ofList (renamed word ++ c :: rest)
        else String.ofList (word ++ c :: rest) := by
  have hstop : ¬ isWordPart c = true := by simp [hc]
  unfold upgradeableVariable
  rw [String.toList_ofList, List.takeWhile_append_of_pos hword,
    List.dropWhile_append_of_pos hword, List.takeWhile_cons_of_neg hstop,
    List.dropWhile_cons_of_neg hstop, List.append_nil]

-- ============================================================== the letters

/-- A name gets the letters of the suffix and no others. -/
theorem mem_upgradeableName {name : String} {x : Char}
    (h : x ∈ (upgradeableName name).toList) :
    x ∈ name.toList ∨ x ∈ suffix.toList := by
  rw [upgradeableName, String.toList_ofList] at h
  exact mem_renamed h

/-- So does a declaration. -/
theorem mem_upgradeableVariable {line : String} {x : Char}
    (h : x ∈ (upgradeableVariable line).toList) :
    x ∈ line.toList ∨ x ∈ suffix.toList := by
  have hcut := List.takeWhile_append_dropWhile (p := isWordPart)
      (l := line.toList)
  unfold upgradeableVariable at h
  dsimp only at h
  split at h
  · rw [String.toList_ofList, List.mem_append] at h
    rcases h with h | h
    · exact (mem_renamed h).imp_left fun hx => hcut ▸ List.mem_append_left _ hx
    · exact .inl (hcut ▸ List.mem_append_right _ h)
  · exact .inl h

/-- The directory and the file's name are the path. -/
theorem cutDirectory_append (path : List Char) :
    (cutDirectory path).1 ++ (cutDirectory path).2 = path := by
  unfold cutDirectory
  split
  next directory file hlast =>
    rw [Text.eq_of_cutLast? hlast, List.append_assoc]
    rfl
  · rfl

/-- The stem and the extension are the file's name. -/
theorem cutExtension_append (file : List Char) :
    (cutExtension file).1 ++ (cutExtension file).2 = file := by
  unfold cutExtension
  split
  next stem extension hlast => rw [Text.eq_of_cutLast? hlast]
  · rw [List.append_nil]

/-- The file of the upgradeable package is named by the letters of the other
file and fixed ones. -/
theorem mem_upgradeablePath {path : String} {x : Char}
    (h : x ∈ (upgradeablePath path).toList) :
    x ∈ path.toList ∨ x ∈ upgradeableRoot.toList ∨ x ∈ suffix.toList := by
  unfold upgradeablePath at h
  split at h
  · exact .inl h
  next rest hrest =>
    have hpath : path.toList = contractsRoot.toList ++ ((cutDirectory rest).1
        ++ ((cutExtension (cutDirectory rest).2).1
          ++ (cutExtension (cutDirectory rest).2).2)) := by
      rw [cutExtension_append, cutDirectory_append]
      exact Text.eq_of_stripStart? hrest
    rw [hpath]
    simp only [String.toList_append, String.toList_ofList,
      List.mem_append] at h ⊢
    rcases h with h | (h | h) | h
    · exact .inr (.inl h)
    · exact .inl (.inr (.inl h))
    · rcases mem_renamed h with h | h
      · exact .inl (.inr (.inr (.inl h)))
      · exact .inr (.inr h)
    · exact .inl (.inr (.inr (.inr h)))

-- ================================================================== files

/-- The name of a path's file without its extension. -/
def fileStem (path : String) : String :=
  String.ofList (cutExtension (cutDirectory path.toList).2).1

/-- What may stand in a path before the name of a file: nothing, or a text
that ends in a slash. -/
def IsDirectory (directory : String) : Prop :=
  directory = "" ∨ ∃ path, directory = path ++ "/"

instance (directory : String) : Decidable (IsDirectory directory) :=
  decidable_of_iff (directory = ""
    ∨ directory.toList.getLast? = some '/') <| by
    refine or_congr_right ⟨fun h => ?_, ?_⟩
    · obtain ⟨path, hpath⟩ := List.getLast?_eq_some_iff.1 h
      refine ⟨String.ofList path, String.toList_inj.1 ?_⟩
      rw [hpath, String.toList_append, String.toList_ofList]
      rfl
    · rintro ⟨path, rfl⟩
      rw [String.toList_append]
      exact List.getLast?_concat

theorem cutDirectory_of_file {directory : String} (h : IsDirectory directory)
    {file : List Char} (hfile : '/' ∉ file) :
    cutDirectory (directory.toList ++ file) = (directory.toList, file) := by
  rcases h with rfl | ⟨path, rfl⟩
  · show cutDirectory file = ([], file)
    unfold cutDirectory
    rw [cutLast?_of_not_mem hfile]
  · have hslash : (path ++ "/").toList ++ file
        = path.toList ++ '/' :: file := by
      rw [String.toList_append, List.append_assoc]
      rfl
    unfold cutDirectory
    rw [hslash, cutLast?_append_of_not_mem hfile, String.toList_append]
    rfl

theorem cutExtension_of_stem {stem extension : List Char}
    (h : '.' ∉ extension) :
    cutExtension (stem ++ '.' :: extension) = (stem, '.' :: extension) := by
  unfold cutExtension
  rw [cutLast?_append_of_not_mem h]

/-- The file of a contract of the contracts package, wherever it lies, has the
name that the contract has in the upgradeable package. -/
theorem upgradeablePath_of_file {directory name : String}
    (hdirectory : IsDirectory directory) (hname : '/' ∉ name.toList) :
    upgradeablePath (contractsRoot ++ directory ++ name ++ ".sol")
      = upgradeableRoot ++ directory ++ upgradeableName name ++ ".sol" := by
  have hfile : '/' ∉ name.toList ++ ".sol".toList := by
    rw [List.mem_append, not_or]
    exact ⟨hname, by decide⟩
  have hpath : (contractsRoot ++ directory ++ name ++ ".sol").toList
      = contractsRoot.toList
        ++ (directory.toList ++ (name.toList ++ ".sol".toList)) := by
    simp only [String.toList_append, List.append_assoc]
  have hextension : cutExtension (name.toList ++ ".sol".toList)
      = (name.toList, ".sol".toList) :=
    cutExtension_of_stem (by decide)
  unfold upgradeablePath
  rw [hpath, stripStart?_append]
  dsimp only
  rw [cutDirectory_of_file hdirectory hfile]
  dsimp only
  rw [hextension, ← String.toList_inj]
  unfold upgradeableName
  simp only [String.toList_append, String.toList_ofList, List.append_assoc]

end Package

end TokenForge
