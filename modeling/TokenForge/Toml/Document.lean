/-
Documents: a sequence of assignments and headers, one on a line, and the
table they build together. A document that breaks a rule anywhere has no
table at all.
-/
import TokenForge.Toml.Reader

namespace TokenForge.Toml

-- ============================================================= statements

/-- What a line of a document does. -/
inductive Statement where
  /-- Puts a value under a dotted key of the table at hand. -/
  | assign (path : List String) (value : Value)
  /-- Opens a table. -/
  | table (path : List String)
  /-- Opens one more table of a list. -/
  | element (path : List String)

/-- A statement with the place of what it puts under the first of its keys. -/
structure Line where
  statement : Statement
  place : Extent

/-- The keys that a statement starts from. -/
def Statement.path : Statement → List String
  | .assign path _ => path
  | .table path => path
  | .element path => path

/-- The place of what a statement puts under the first of its keys: that of the
whole if there is no other key, and else that of the first key, which starts a
text after some spaces. -/
def placeOf (path : List String) (whole : Extent) (s : List Char) : Extent :=
  match path, readKey (skipSpaces s) with
  | _ :: _ :: _, some (_, afterKey) => .between (skipSpaces s) afterKey
  | _, _ => whole

/-- The statement that starts a text. -/
def readLine (s : List Char) : Option (Line × List Char) :=
  match s with
  | '[' :: '[' :: inner => do
    let (path, rest) ← readPath inner
    let rest ← afterChar ']' rest
    let rest ← afterChar ']' rest
    some (⟨.element path, placeOf path (.between s rest) inner⟩, rest)
  | '[' :: inner => do
    let (path, rest) ← readPath inner
    let rest ← afterChar ']' rest
    some (⟨.table path, placeOf path (.between s rest) inner⟩, rest)
  | _ => do
    let (path, rest) ← readPath s
    let start := skipSpaces (← afterChar '=' rest)
    let (value, rest) ← readValue start
    some (⟨.assign path value, placeOf path (.between start rest) s⟩, rest)

/-- The lines of a document that say something; each turn takes at least one
character. -/
def readLinesFrom : Nat → List Char → Option (List Line)
  | 0, _ => none
  | turns + 1, s =>
    match skipTrivia s with
    | [] => some []
    | s => do
      let (line, rest) ← readLine s
      let rest ← endOfLine? rest
      let lines ← readLinesFrom turns rest
      some (line :: lines)

/-- The lines of a document that say something. -/
def readLines (s : List Char) : Option (List Line) :=
  readLinesFrom (s.length + 1) s

-- ============================================================= the table

/-- A document as far as it was read: the entries, and the path of the last
header. -/
structure Draft where
  entries : Entries
  here : List String

/-- A document before its first line. -/
def Draft.empty : Draft := ⟨[], []⟩

/-- The last key of a path and the way to it. -/
def cutPath? (path : List String) : Option (List String × String) :=
  path.getLast?.map fun k => (path.dropLast, k)

/-- A document after one more statement. -/
def Draft.add (d : Draft) : Statement → Option Draft
  | .assign path value => do
    let entries ← Entries.descend (Entries.assign value path) d.here d.entries
    some { d with entries }
  | .table path => do
    let (way, k) ← cutPath? path
    let entries ← Entries.descend (Entries.openTable k) way d.entries
    some ⟨entries, path⟩
  | .element path => do
    let (way, k) ← cutPath? path
    let entries ← Entries.descend (Entries.openElement k) way d.entries
    some ⟨entries, path⟩

/-- The table that statements build. -/
def build (statements : List Statement) : Option (List (String × Value)) :=
  (statements.foldlM Draft.add .empty).map (·.entries.complete)

/-- What a document holds. -/
structure Document where
  /-- The entries in the order of their keys. -/
  entries : List (String × Value)
  /-- The lines they come from. -/
  lines : List Line

/-- A document without the mark that some editors put at its start. -/
def dropMark : List Char → List Char
  | '\ufeff' :: s => s
  | s => s

/-- What a text holds; none if it is no TOML. -/
def read (text : List Char) : Option Document := do
  let lines ← readLines (dropMark text)
  let entries ← build (lines.map (·.statement))
  some ⟨entries, lines⟩

/-- The place of what stands under a key of the outermost table, after some
lines: it is where the document first speaks of the key, or the table's own
header if that comes later. Keys after a header are not those of the outermost
table. -/
def placeAfter (key : String) :
    List Line → Option Extent → Bool → Option Extent
  | [], found, _ => found
  | l :: rest, found, outermost =>
    let here := if l.statement.path.head?
        = some key then some l.place else none
    match l.statement with
    | .assign _ _ => placeAfter key rest
      (if outermost then found <|> here else found) outermost
    | .table path => placeAfter key rest
      (if path = [key] then here else found <|> here) false
    | .element _ => placeAfter key rest (found <|> here) false

/-- The place of what stands under a key of the outermost table. -/
def Document.place? (d : Document) (key : String) : Option Extent :=
  placeAfter key d.lines none true

end TokenForge.Toml
