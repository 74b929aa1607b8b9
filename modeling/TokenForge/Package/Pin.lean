/-
Pinned imports: a path into either package names the release right after the
package's name, as in `@openzeppelin/contracts@4.3.2/access/Ownable.sol`.
Paths of other packages, whose names may begin alike, stay as they are, and
so do paths that name a release already.
-/
import TokenForge.Package.Upgradeable
import TokenForge.Version

namespace TokenForge.Package

open Text

/-- The packages whose releases are pinned. The longer name stands first: it
begins with the shorter. -/
def pinnable : List String :=
  ["@openzeppelin/contracts-upgradeable", "@openzeppelin/contracts"]

/-- What follows a package's name in a path, if the path is that package or
inside it. -/
def insidePackage? (package path : String) : Option String :=
  match stripStart? package.toList path.toList with
  | some [] => some ""
  | some ('/' :: rest) => some (String.ofList ('/' :: rest))
  | _ => none

/-- The path with the release of its package. -/
def pin (version : Version) (path : String) : String :=
  (pinnable.findSome? fun package =>
    (insidePackage? package path).map fun rest =>
      package ++ "@" ++ version.text ++ rest).getD path

end TokenForge.Package
