/-
Where a document assigns a key. The search goes line by line over the text
and knows nothing of the document's grammar, so it finds a place also in
documents that do not read: the first line of the form `key = value`. Blanks
before the value, a comment after it and the line's end are left out.
-/
import TokenForge.Text.Blank
import TokenForge.Text.Split

namespace TokenForge

/-- A stretch of a text, in bytes. -/
structure Span where
  offset : Nat
  length : Nat
  deriving DecidableEq, Repr

namespace Span

open Text

/-- What follows `key =` and the blanks after it in a line that assigns the
key. -/
def assigned? (key line : List Char) : Option (List Char) := do
  let rest ← stripStart? key (trimStart line)
  let rest ← stripStart? ['='] (trimStart rest)
  some (trimStart rest)

/-- A value without the comment and the blanks that follow it. -/
def withoutComment (value : List Char) : List Char :=
  trimEnd (takeUntil [' ', '#'] value)

/-- The value of a key in the first line that assigns it, where `offset` bytes
stand before the lines. An assignment without a value has no place. -/
def inLines? (key : List Char) : Nat → List (List Char) → Option Span
  | _, [] => none
  | offset, line :: more =>
    match assigned? key line with
    | none => inLines? key (offset + byteLength line) more
    | some rest =>
      if withoutComment rest = [] then none
      else some ⟨offset + (byteLength line - byteLength rest),
        byteLength (withoutComment rest)⟩

/-- Where a text assigns a value to a key. -/
def ofKey? (text key : String) : Option Span :=
  inLines? key.toList 0 (lines text.toList)

end Span

end TokenForge
