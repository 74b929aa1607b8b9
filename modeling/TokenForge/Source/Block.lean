/-
One contract as printed: the heading with its bases, and inside it, with a
blank line between sections, the attached libraries, the constructor, the
functions the contract introduces, those that override its bases, and the
variables.
-/
import TokenForge.Source.Constructor
import TokenForge.Source.Method

namespace TokenForge.Contract

/-- The comment above the overriding functions. -/
def overridesComment : String :=
  "// The following functions are overrides required by Solidity."

-- ============================================================== sections

/-- The heading line. -/
def heading (c : Contract) : String :=
  let names := c.baseNames.map c.shownName
  "contract " ++ c.name
    ++ (if names.isEmpty then "" else " is " ++ ", ".intercalate names)
    ++ " \x7b"

/-- The attachments by library name and type, each pair once. -/
def attachedPairs (c : Contract) : List (String × String) :=
  (c.attachments.map fun a => (a.library.name, a.type)).eraseDups

/-- The `using` lines. -/
def usingSection (c : Contract) : List Fragment :=
  c.attachedPairs.map fun (library, type) =>
    .line ("using " ++ c.shownName library ++ " for "
      ++ c.shownName type ++ ";")

/-- The variable lines. -/
def variableSection (c : Contract) : List Fragment :=
  c.stateVariables.map fun line => .line (c.shownVariable line)

/-- The printed functions, one section each. -/
def methodSections (c : Contract) (marked : List (Method × OverrideMark)) :
    List (List Fragment) :=
  marked.map fun (m, mark) => m.fragments c mark

/-- The functions that are printed. -/
def printedMethods (marked : List (Method × OverrideMark)) :
    List (Method × OverrideMark) :=
  marked.filter fun (m, _) => !m.isOmitted

/-- The printed functions that the contract introduces. -/
def newMethods (marked : List (Method × OverrideMark)) :
    List (Method × OverrideMark) :=
  (printedMethods marked).filter fun (_, mark) => mark == .new

/-- The printed functions that override bases. -/
def overridingMethods (marked : List (Method × OverrideMark)) :
    List (Method × OverrideMark) :=
  (printedMethods marked).filter fun (_, mark) => mark != .new

/-- The comment, if anything follows it. -/
def commentSection (marked : List (Method × OverrideMark)) : List Fragment :=
  if (overridingMethods marked).isEmpty then [] else [.line overridesComment]

-- ============================================================== together

/-- What stands between the braces of the contract. -/
def body (c : Contract) (marked : List (Method × OverrideMark)) :
    List Fragment :=
  Fragment.joinSections (
    [c.usingSection, c.constructorSection]
      ++ c.methodSections (newMethods marked)
      ++ [commentSection marked] ++ c.methodSections (overridingMethods marked)
      ++ [c.variableSection])

/-- The contract, once the marks of its functions are known. -/
def blockOf (c : Contract) (marked : List (Method × OverrideMark)) :
    List Fragment :=
  [.line c.heading, .block (c.body marked), .line "\x7d"]

/-- The contract as printed. -/
def block (c : Contract) : Except ContractError (List Fragment) := do
  let marked ← c.marked
  .ok (c.blockOf marked)

end TokenForge.Contract
