/-
The upgradeable variant of the contracts package. It has the same contracts
under names with the suffix `Upgradeable`, in files of those names; the
interfaces and `Initializable` are shared and keep theirs. Every renaming here
leaves a name of the variant as it is, so renaming twice is renaming once.
-/
import TokenForge.Text.Split

namespace TokenForge.Package

open Text

/-- The directory of the contracts package. -/
def contractsRoot : String := "@openzeppelin/contracts/"

/-- The directory of the upgradeable package. -/
def upgradeableRoot : String := "@openzeppelin/contracts-upgradeable/"

/-- The suffix of upgradeable names. -/
def suffix : String := "Upgradeable"

-- ================================================================= names

/-- Whether a name is an interface's by its form: an `I` and another capital
letter. -/
def isInterface : List Char → Bool
  | 'I' :: c :: _ => c.isUpper
  | _ => false

/-- Whether a name is the same in both packages. -/
def isShared (name : List Char) : Bool :=
  name == "Initializable".toList || isInterface name

/-- Puts the suffix on the leading segment of a qualified name, unless the
name is shared or the segment has it. -/
def renamed (name : List Char) : List Char :=
  if isShared name then name
  else
    let (head, tail) := cutFirst '.' name
    if suffix.toList.isSuffixOf head then name
    else head ++ suffix.toList ++ tail

/-- The upgradeable counterpart of a contract, library or qualified type. -/
def upgradeableName (name : String) : String :=
  String.ofList (renamed name.toList)

-- ================================================================= paths

/-- The directory of a path with its final slash, and the file's name. -/
def cutDirectory (path : List Char) : List Char × List Char :=
  match cutLast? '/' path with
  | some (directory, file) => (directory ++ ['/'], file)
  | none => ([], path)

/-- The stem of a file's name and its extension with the dot. -/
def cutExtension (file : List Char) : List Char × List Char :=
  match cutLast? '.' file with
  | some (stem, extension) => (stem, '.' :: extension)
  | none => (file, [])

/-- The file of the upgradeable package for a file of the contracts package;
other paths stay as they are. -/
def upgradeablePath (path : String) : String :=
  match stripStart? contractsRoot.toList path.toList with
  | none => path
  | some rest =>
    let (directory, file) := cutDirectory rest
    let (stem, extension) := cutExtension file
    upgradeableRoot ++ String.ofList (directory ++ renamed stem ++ extension)

-- ============================================================= variables

/-- Whether a character may stand in the leading word of a declaration. -/
def isWordPart (c : Char) : Bool := c.isAlphanum || c == '_'

/-- Whether a declaration starts with a capitalised word that a dot
qualifies. -/
def isQualified (word rest : List Char) : Bool :=
  (word.head?.any Char.isUpper) && rest.head? == some '.'

/-- A declaration line with its qualified type renamed; comments and
elementary types stay as they are. -/
def upgradeableVariable (line : String) : String :=
  let word := line.toList.takeWhile isWordPart
  let rest := line.toList.dropWhile isWordPart
  if isQualified word rest then String.ofList (renamed word ++ rest) else line

end TokenForge.Package
