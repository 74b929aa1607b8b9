/-
The parts of a document that say nothing: spaces, comments and line ends, and
the characters that text of a document may hold.
-/
namespace TokenForge.Toml

/-- Whether a character separates words on a line. -/
def isSpace (c : Char) : Bool := c == ' ' || c == '\t'

/-- Whether a character may stand in comments and strings: anything but the
control characters, the tab excepted. -/
def isPlain (c : Char) : Bool :=
  c == '\t' || (0x20 ≤ c.toNat && c.toNat != 0x7F)

/-- What follows the spaces. -/
def skipSpaces (s : List Char) : List Char := s.dropWhile isSpace

/-- What follows a line end, if one starts here. -/
def newline? : List Char → Option (List Char)
  | '\n' :: rest => some rest
  | '\r' :: '\n' :: rest => some rest
  | _ => none

/-- What follows spaces and line ends; each turn takes at
least one character. -/
def skipBlanksFrom : Nat → List Char → List Char
  | 0, s => s
  | turns + 1, s =>
    match newline? (skipSpaces s) with
    | some rest => skipBlanksFrom turns rest
    | none => skipSpaces s

/-- What follows spaces and line ends. -/
def skipBlanks (s : List Char) : List Char := skipBlanksFrom (s.length + 1) s

/-- What follows the text of a comment; a carriage return belongs to the line
end or to nothing. -/
def skipCommentText (s : List Char) : List Char := s.dropWhile isPlain

/-- What follows a comment, if one starts here. -/
def skipComment : List Char → List Char
  | '#' :: rest => skipCommentText rest
  | s => s

/-- What follows spaces, comments and line ends; each turn takes at least one
character. -/
def skipTriviaFrom : Nat → List Char → List Char
  | 0, s => s
  | turns + 1, s =>
    let s := skipSpaces s
    match newline? s with
    | some rest => skipTriviaFrom turns rest
    | none =>
      match s with
      | '#' :: rest => skipTriviaFrom turns (skipCommentText rest)
      | _ => s

/-- What follows spaces, comments and line ends. -/
def skipTrivia (s : List Char) : List Char := skipTriviaFrom (s.length + 1) s

/-- What follows the end of a statement: spaces, a comment, and a line end or
the end of the document. -/
def endOfLine? (s : List Char) : Option (List Char) :=
  match skipComment (skipSpaces s) with
  | [] => some []
  | rest => newline? rest

end TokenForge.Toml
