/-
Which paths are pinned. A path is in a package if it is the package's
name or goes on with a slash after it, and only then its release is put
in. One of the two names begins with the other, but what follows the
shorter name in the longer is no slash, so no path is in both packages
and their order does not matter.
-/
import TokenForge.Package.Pin

namespace TokenForge.Package

/-- What may follow a package's name in a path of the package: nothing,
or a path inside it. -/
def GoesInside (rest : String) : Prop :=
  rest = "" ∨ ∃ inner, rest = "/" ++ inner

theorem ofList_slash (s : List Char) :
    String.ofList ('/' :: s) = "/" ++ String.ofList s := by
  simp

/-- A path is inside a package exactly if it is the name of the package
and what may follow. -/
theorem insidePackage?_eq_some_iff {package path rest : String} :
    insidePackage? package path = some rest
      ↔ path = package ++ rest ∧ GoesInside rest := by
  have hpath : ∀ s : List Char,
      Text.stripStart? package.toList path.toList = some s
        ↔ path = package ++ String.ofList s := by
    intro s
    rw [Text.stripStart?_eq_some_iff, ← String.toList_inj,
      String.toList_append, String.toList_ofList]
  unfold insidePackage? GoesInside
  constructor
  · intro h
    split at h
    next hs =>
        cases h
        exact ⟨(hpath _).1 hs, .inl rfl⟩
    next inner hs =>
        cases h
        exact ⟨(hpath _).1 hs, .inr ⟨String.ofList inner, ofList_slash inner⟩⟩
    next => cases h
  · rintro ⟨hrest, rfl | ⟨inner, rfl⟩⟩
    · rw [(hpath []).2 hrest]
    · have hs : Text.stripStart? package.toList path.toList
          = some ('/' :: inner.toList) := by
        rw [hpath, hrest, ofList_slash, String.ofList_toList]
      rw [hs]
      show some (String.ofList ('/' :: inner.toList)) = _
      rw [ofList_slash, String.ofList_toList]

/-- No path is in both packages. -/
theorem upgradeable_ne_contracts {rest rest' : String} (h : GoesInside rest) :
    "@openzeppelin/contracts" ++ rest
      ≠ "@openzeppelin/contracts-upgradeable" ++ rest' := by
  intro heq
  have hlong : "@openzeppelin/contracts-upgradeable"
      = "@openzeppelin/contracts" ++ "-upgradeable" :=
    rfl
  rw [hlong, String.append_assoc, String.append_right_inj] at heq
  subst heq
  rcases h with h | ⟨inner, h⟩
  · have hhead := congrArg (·.toList.head?) h
    simp at hhead
  · have hhead := congrArg (·.toList.head?) h
    simp at hhead

/-- A path of one of the packages gets the release after the package's name. -/
theorem pin_inside (version : Version) {package : String}
    (hpackage : package ∈ pinnable) {rest : String} (h : GoesInside rest) :
    pin version (package ++ rest)
      = package ++ "@" ++ version.text ++ rest := by
  have hinside : insidePackage? package (package ++ rest) = some rest :=
    insidePackage?_eq_some_iff.2 ⟨rfl, h⟩
  unfold pin
  unfold pinnable at hpackage ⊢
  simp only [List.mem_cons, List.not_mem_nil, or_false] at hpackage
  rcases hpackage with rfl | rfl
  · rw [List.findSome?_cons, hinside]
    rfl
  · have hlong : insidePackage? "@openzeppelin/contracts-upgradeable"
        ("@openzeppelin/contracts" ++ rest) = none := by
      rw [Option.eq_none_iff_forall_not_mem]
      intro rest' hrest'
      exact upgradeable_ne_contracts h (insidePackage?_eq_some_iff.1 hrest').1
    rw [List.findSome?_cons, hlong, Option.map_none,
      List.findSome?_cons, hinside]
    rfl

/-- Every other path stays as it is. -/
theorem pin_outside (version : Version) {path : String}
    (h : ∀ package ∈ pinnable, ∀ rest, GoesInside rest →
      path ≠ package ++ rest) :
    pin version path = path := by
  have hnone : (pinnable.findSome? fun package =>
      (insidePackage? package path).map fun rest =>
        package ++ "@" ++ version.text ++ rest)
        = none := by
    rw [List.findSome?_eq_none_iff]
    intro package hpackage
    rw [Option.map_eq_none_iff, Option.eq_none_iff_forall_not_mem]
    intro rest hrest
    obtain ⟨hpath, hinside⟩ := insidePackage?_eq_some_iff.1 hrest
    exact h package hpackage rest hinside hpath
  unfold pin
  rw [hnone]
  rfl

end TokenForge.Package
