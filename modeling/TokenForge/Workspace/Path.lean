/-
Paths as text, and their segments. An empty segment and `.` stand for the
directory they are in, `..` for the one above it.
-/
import TokenForge.Text.Split

namespace TokenForge

/-- The pieces of a path between its slashes. -/
abbrev Segments := List String

namespace Path

/-- The segments of a path, empty ones included. -/
def segments (path : String) : Segments :=
  (Text.splitAt '/' path.toList).map String.ofList

/-- Whether a path starts at the root. -/
def isAbsolute (path : String) : Bool := path.toList.head? == some '/'

/-- Whether a segment stays in the directory it is in. -/
def isStill (segment : String) : Bool := segment == "" || segment == "."

/-- Segments without those at their end that stay where they are. -/
def dropStill (ss : Segments) : Segments :=
  (ss.reverse.dropWhile isStill).reverse

/-- The path of the directory that a path's last name stands in; it is empty
for the directory where the path starts. -/
def parent (path : String) : String :=
  "/".intercalate (dropStill (dropStill (segments path)).dropLast)

/-- The greatest number of bytes of a name. -/
def maxName : Nat := 255

/-- The greatest number of bytes of a path. -/
def maxPath : Nat := 4095

/-- Whether the file system looks a path up at all: it is not empty, has no
zero character, and is not too long. -/
def isUsable (path : String) : Bool :=
  path != "" && !path.toList.contains '\x00' && path.utf8ByteSize ≤ maxPath

/-- Whether a name is short enough to be created. -/
def isUsableName (name : String) : Bool := name.utf8ByteSize ≤ maxName

end Path

end TokenForge
