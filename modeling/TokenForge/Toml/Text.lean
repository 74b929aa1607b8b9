/-
The four forms of strings: quoted with escapes or literal, and each of them
on one line or on several. A line end right after the opening marks of a
string of several lines does not belong to it.
-/
import TokenForge.Text.Hex
import TokenForge.Toml.Trivia

namespace TokenForge.Toml

-- =============================================================== escapes

/-- The character of a code point, if it is one. -/
def scalar? (n : Nat) : Option Char :=
  if n.isValidChar then some (Char.ofNat n) else none

/-- The character of the escape whose letter starts a text. -/
def readEscape : List Char → Option (Char × List Char)
  | [] => none
  | c :: s =>
    if c = '"' ∨ c = '\\' then some (c, s)
    else if c = 'b' then some ('\x08', s)
    else if c = 't' then some ('\t', s)
    else if c = 'n' then some ('\n', s)
    else if c = 'f' then some ('\x0c', s)
    else if c = 'r' then some ('\r', s)
    else if c = 'e' then some ('\x1b', s)
    else if c = 'x' then code 2 s
    else if c = 'u' then code 4 s
    else if c = 'U' then code 8 s
    else none
where
  /-- The character of a code point with `width` digits. -/
  code (width : Nat) (s : List Char) : Option (Char × List Char) := do
    let (n, rest) ← Text.readHex width s
    some (← scalar? n, rest)

-- ======================================================== on one line

/-- The text up to the closing double quote; each turn takes at least one
character. -/
def readQuotedFrom : Nat → List Char → Option (List Char × List Char)
  | 0, _ => none
  | _ + 1, [] => none
  | turns + 1, c :: s =>
    if c = '"' then some ([], s)
    else if c = '\\' then do
      let (e, s) ← readEscape s
      let (text, rest) ← readQuotedFrom turns s
      some (e :: text, rest)
    else if isPlain c then do
      let (text, rest) ← readQuotedFrom turns s
      some (c :: text, rest)
    else none

/-- The text up to the closing double quote. -/
def readQuoted (s : List Char) : Option (List Char × List Char) :=
  readQuotedFrom (s.length + 1) s

/-- The text up to the closing single quote. -/
def readLiteral : List Char → Option (List Char × List Char)
  | [] => none
  | c :: s =>
    if c = '\'' then some ([], s)
    else if isPlain c then do
      let (text, rest) ← readLiteral s
      some (c :: text, rest)
    else none

-- ==================================================== on several lines

/-- A text without the line end at its start. -/
def dropNewline (s : List Char) : List Char := (newline? s).getD s

/-- The closing marks of a string of several lines: three marks, and up to two
more before them that belong to the string. Gives the marks that belong to
it and what follows. -/
def closing? (mark : Char) : List Char → Option (List Char × List Char)
  | a :: b :: c :: s =>
    if a = mark ∧ b = mark ∧ c = mark then
      match s with
      | d :: e :: rest =>
        if d = mark then if e = mark then some ([mark, mark], rest)
        else some ([mark], e :: rest)
        else some ([], s)
      | [d] => if d = mark then some ([mark], []) else some ([], s)
      | [] => some ([], [])
    else none
  | _ => none

/-- What follows a backslash at a line's end: the next character that is
neither space nor line end. -/
def joinLines? (s : List Char) : Option (List Char) :=
  (newline? (skipSpaces s)).map skipBlanks

/-- The line end that starts a text, as it is written. -/
def lineEnd? : List Char → Option (List Char × List Char)
  | '\n' :: rest => some (['\n'], rest)
  | '\r' :: '\n' :: rest => some (['\r', '\n'], rest)
  | _ => none

/-- The text up to the closing double quotes; each turn takes at least one
character. -/
def readQuotedLinesFrom : Nat → List Char → Option (List Char × List Char)
  | 0, _ => none
  | turns + 1, s =>
    match closing? '"' s with
    | some done => some done
    | none =>
      match lineEnd? s with
      | some (nl, s) => do
        let (text, rest) ← readQuotedLinesFrom turns s
        some (nl ++ text, rest)
      | none =>
        match s with
        | [] => none
        | c :: s =>
          if c = '\\' then
            match joinLines? s with
            | some s => readQuotedLinesFrom turns s
            | none => do
              let (e, s) ← readEscape s
              let (text, rest) ← readQuotedLinesFrom turns s
              some (e :: text, rest)
          else if isPlain c then do
            let (text, rest) ← readQuotedLinesFrom turns s
            some (c :: text, rest)
          else none

/-- The text up to the closing double quotes. -/
def readQuotedLines (s : List Char) : Option (List Char × List Char) :=
  readQuotedLinesFrom (s.length + 1) (dropNewline s)

/-- The text up to the closing single quotes; each turn takes at least one
character. -/
def readLiteralLinesFrom : Nat → List Char → Option (List Char × List Char)
  | 0, _ => none
  | turns + 1, s =>
    match closing? '\'' s with
    | some done => some done
    | none =>
      match lineEnd? s with
      | some (nl, s) => do
        let (text, rest) ← readLiteralLinesFrom turns s
        some (nl ++ text, rest)
      | none =>
        match s with
        | [] => none
        | c :: s =>
          if isPlain c then do
            let (text, rest) ← readLiteralLinesFrom turns s
            some (c :: text, rest)
          else none

/-- The text up to the closing single quotes. -/
def readLiteralLines (s : List Char) : Option (List Char × List Char) :=
  readLiteralLinesFrom (s.length + 1) (dropNewline s)

-- ============================================================== together

/-- The string that starts a text, if one does. -/
def readString : List Char → Option (List Char × List Char)
  | '"' :: '"' :: '"' :: s => readQuotedLines s
  | '"' :: s => readQuoted s
  | '\'' :: '\'' :: '\'' :: s => readLiteralLines s
  | '\'' :: s => readLiteral s
  | _ => none

end TokenForge.Toml
