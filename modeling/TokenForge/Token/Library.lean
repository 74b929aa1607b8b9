/-
What the features take from the contracts package: its contracts as bases,
and its functions, which they look up in catalogs by their logical names.
-/
import TokenForge.Contract.Assembly
import TokenForge.Contract.Catalog

namespace TokenForge.Token

/-- A contract or library of the contracts package. -/
def openzeppelin (name path : String) : Dependency :=
  ⟨name, "@openzeppelin/contracts/" ++ path⟩

/-- Adds a contract of the package as a base. -/
def inherit (name path : String) (args : List Value) : Assembly Unit :=
  Assembly.addBase ⟨openzeppelin name path, args⟩

/-- An assembly for each declaration in a list. -/
def forEach (ds : List Declaration) (f : Declaration → Assembly Unit) :
    Assembly Unit :=
  ds.forM f

/-- Runs an assembly if an option is set. -/
def whenSet (option : Bool) (a : Assembly Unit) : Assembly Unit :=
  if option then a else pure ()

/-- The declaration under a logical name; a name that the catalog does not have
is a conflict. -/
def lookUp (catalog : Catalog) (name : String) : Assembly Declaration :=
  match catalog.get name with
  | .ok d => pure d
  | .error e => throw e

-- =========================================================== declarations

/-- Interface detection, which every token and the role registry declare. -/
def supportsInterface : Declaration where
  name := "supportsInterface"
  visibility := .everywhere
  args := [⟨"interfaceId", "bytes4"⟩]
  returns := ["bool"]
  mutability := .view

/-- The functions that do not belong to one feature. -/
def sharedCatalog : Catalog :=
  .ofList [("supportsInterface", supportsInterface)]

end TokenForge.Token
