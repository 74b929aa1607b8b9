/-
The shared layout of functions and constructors: a heading and a body in
braces. A short heading stands on one line; a long one gives each modifier a
line of its own. What counts is the number of UTF-8 bytes of the heading's
words, without the punctuation between them.
-/
import TokenForge.Fragment.Basic

namespace TokenForge

/-- A function or constructor ready to be laid out. -/
structure Callable where
  /-- The keyword and the name, as in `function mint`, or `constructor`. -/
  title : String
  /-- The arguments, each with its type. -/
  args : List String
  /-- What follows the arguments, in order. -/
  modifiers : List String
  body : List Fragment

namespace Callable

/-- The longest heading that stays on one line. -/
def maxHeading : Nat := 72

/-- The number of bytes of all texts together. -/
def totalBytes : List String → Nat
  | [] => 0
  | text :: texts => text.utf8ByteSize + totalBytes texts

/-- The length of the heading. -/
def headingLength (f : Callable) : Nat :=
  f.title.utf8ByteSize + totalBytes f.args + totalBytes f.modifiers

/-- The title with its arguments. -/
def signature (f : Callable) : String :=
  f.title ++ "(" ++ ", ".intercalate f.args ++ ")"

/-- The brace that opens the body, or both braces of an empty one. -/
def braces (f : Callable) : String :=
  if f.body.isEmpty then "\x7b\x7d" else "\x7b"

/-- The words of the heading in order. -/
def headingParts (f : Callable) : List String :=
  f.signature :: f.modifiers ++ [f.braces]

/-- The heading in the layout that its length asks for. -/
def heading (f : Callable) : List Fragment :=
  if f.headingLength ≤ maxHeading then [.line (" ".intercalate f.headingParts)]
  else [.line f.signature, .block (f.modifiers.map .line), .line f.braces]

/-- The body and the closing brace; nothing for an empty body. -/
def closing (f : Callable) : List Fragment :=
  if f.body.isEmpty then [] else [.block f.body, .line "\x7d"]

/-- The whole function. -/
def fragments (f : Callable) : List Fragment := f.heading ++ f.closing

end Callable

end TokenForge
