/-
How the names, paths and declarations of a contract appear in its source: as
they are, or in their upgradeable form when the contract is upgradeable.
Also the written form of the values that are passed to bases.
-/
import TokenForge.Contract.Basic
import TokenForge.Package.Upgradeable
import TokenForge.Solidity.Literal

namespace TokenForge

namespace Contract

/-- A contract or library name as printed in the contract. -/
def shownName (c : Contract) (name : String) : String :=
  if c.upgradeable then Package.upgradeableName name else name

/-- An import path as the contract needs it. -/
def shownPath (c : Contract) (path : String) : String :=
  if c.upgradeable then Package.upgradeablePath path else path

/-- A declaration line as printed in the contract. -/
def shownVariable (c : Contract) (line : String) : String :=
  if c.upgradeable then Package.upgradeableVariable line else line

end Contract

/-- An argument of a base as printed. -/
def Value.render : Value → String
  | .text s => Solidity.Literal.ofString s
  | .integer n => toString n.toInt
  | .verbatim expr => expr

end TokenForge
