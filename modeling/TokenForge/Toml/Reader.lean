/-
Reading values: strings, bare words, arrays and inline tables. Arrays and
inline tables may spread over lines, except within a key, and end in a comma;
they nest at most eighty deep.

The three readers of nested values call each other on shorter and shorter
rests of the document. They take a count of turns that the length of the
rest always suffices for.
-/
import TokenForge.Toml.Moment
import TokenForge.Toml.Number
import TokenForge.Toml.Table
import TokenForge.Toml.Text

namespace TokenForge.Toml

-- ================================================================== keys

/-- Whether a character may stand in a bare key. -/
def isBareKeyPart (c : Char) : Bool := c.isAlphanum || c == '_' || c == '-'

/-- One key: bare, or a string on one line. -/
def readKey (s : List Char) : Option (String × List Char) := do
  let (text, rest) ← match s with
    | '"' :: s => readQuoted s
    | '\'' :: s => readLiteral s
    | _ =>
      match s.span isBareKeyPart with
      | ([], _) => none
      | (key, rest) => some (key, rest)
  some (String.ofList text, rest)

/-- Keys joined by dots, with spaces around the dots; each turn reads a key. -/
def readPathFrom : Nat → List Char → Option (List String × List Char)
  | 0, _ => none
  | turns + 1, s => do
    let (key, rest) ← readKey (skipSpaces s)
    match skipSpaces rest with
    | '.' :: rest =>
      let (path, rest) ← readPathFrom turns rest
      some (key :: path, rest)
    | rest => some ([key], rest)

/-- How many keys may be joined. -/
def maxKeys : Nat := 80

/-- Keys joined by dots; spaces after the last one are skipped. -/
def readPath (s : List Char) : Option (List String × List Char) := do
  let (path, rest) ← readPathFrom (s.length + 1) s
  if path.length ≤ maxKeys then some (path, rest) else none

-- ================================================================== words

/-- Whether a character may stand in a value that is a bare word. -/
def isWordPart (c : Char) : Bool :=
  c.isAlphanum || c == '_' || c == '+' || c == '-' || c == '.' || c == ':'

/-- The bare word that starts a text. After a date, a space and a digit it goes
on with the time. -/
def cutWord (s : List Char) : List Char × List Char :=
  match s.span isWordPart with
  | (word, ' ' :: d :: rest) =>
    if isDate word && d.isDigit then
      let (time, rest) := (d :: rest).span isWordPart
      (word ++ ' ' :: time, rest)
    else (word, ' ' :: d :: rest)
  | cut => cut

/-- The value of a bare word. -/
def wordValue? (word : List Char) : Option Value :=
  if word = "true".toList then some (.boolean true)
  else if word = "false".toList then some (.boolean false)
  else if isMoment word then some .moment
  else
    match integer? word with
    | some n => some (.integer n)
    | none => (float? word).map .float

/-- The value that is a bare word. -/
def readWord (s : List Char) : Option (Value × List Char) :=
  let (word, rest) := cutWord s
  (wordValue? word).map (·, rest)

-- ================================================================= values

/-- The string that starts a text, as a value. -/
def readText (s : List Char) : Option (Value × List Char) := do
  let (text, rest) ← readString s
  some (.string (String.ofList text), rest)

/-- How deep arrays and inline tables nest. -/
def maxDepth : Nat := 80

mutual

/-- The value that starts a text; `depth` levels of nesting are left. -/
def readValueFrom : Nat → Nat → List Char → Option (Value × List Char)
  | 0, _, _ => none
  | turns + 1, depth, s =>
    match s with
    | '[' :: inner =>
      match depth with
      | 0 => none
      | depth + 1 => do
        let (items, rest) ← readItems turns depth (skipTrivia inner)
        some (.array items, rest)
    | '\x7b' :: inner =>
      match depth with
      | 0 => none
      | depth + 1 => do
        let (entries, rest) ← readFields turns depth (skipTrivia inner) []
        some (.table entries.complete, rest)
    | '"' :: _ => readText s
    | '\'' :: _ => readText s
    | _ => readWord s

/-- The items of an array and what follows its closing bracket. -/
def readItems : Nat → Nat → List Char → Option (List Value × List Char)
  | 0, _, _ => none
  | turns + 1, depth, s =>
    match s with
    | ']' :: rest => some ([], rest)
    | _ => do
      let (item, rest) ← readValueFrom turns depth s
      match skipTrivia rest with
      | ',' :: rest =>
        let (items, rest) ← readItems turns depth (skipTrivia rest)
        some (item :: items, rest)
      | ']' :: rest => some ([item], rest)
      | _ => none

/-- The entries of an inline table, after those in `es`, and what follows its
closing brace. -/
def readFields : Nat → Nat → List Char → Entries → Option (Entries × List Char)
  | 0, _, _, _ => none
  | turns + 1, depth, s, es =>
    match s with
    | '\x7d' :: rest => some (es, rest)
    | _ => do
      let (path, rest) ← readPath s
      let rest ← afterChar '=' (skipTrivia rest)
      let (value, rest) ← readValueFrom turns depth (skipTrivia rest)
      let es ← es.assign value path
      match skipTrivia rest with
      | ',' :: rest => readFields turns depth (skipTrivia rest) es
      | '\x7d' :: rest => some (es, rest)
      | _ => none

end

/-- The value that starts a text. -/
def readValue (s : List Char) : Option (Value × List Char) :=
  readValueFrom (2 * s.length + 2) maxDepth s

end TokenForge.Toml
