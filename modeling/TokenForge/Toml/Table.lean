/-
Tables under construction. A table may be spoken of several times, and how it
came to be decides what may still be said about it: a table that only stands
on the way to another may be opened by a header of its own once; a table made
by dotted keys has no header, and only such a table gets values by dotted
keys; a value, an inline table included, is complete where it stands.
-/
import TokenForge.Toml.Value

namespace TokenForge.Toml

/-- How a table came to be. -/
inductive Origin where
  /-- It stands on the way to a table with a header. -/
  | implied
  /-- It stands on the way of a dotted key. -/
  | dotted
  /-- It has a header. -/
  | opened
  deriving DecidableEq, Repr

/-- What stands under a key. -/
inductive Node where
  /-- A complete value. -/
  | leaf (value : Value)
  /-- A table that may grow. -/
  | table (origin : Origin) (entries : List (String × Node))
  /-- A list of tables, each opened by a header; the last one may grow. -/
  | tables (done : List (List (String × Node))) (last : List (String × Node))

/-- The entries of a table under construction. -/
abbrev Entries := List (String × Node)

namespace Entries

-- =============================================================== one entry

/-- The entries with one of them replaced. -/
def replace (key : String) (node : Node) (es : Entries) : Entries :=
  es.map fun e => if e.1 = key then (key, node) else e

-- ============================================================ assignments

/-- Puts a value under a dotted key. Nothing may stand there yet, and the way
there leads through tables without a header of their own and through the last
tables of lists. The table at its end must be one that dotted keys made, or
the one where the way starts; `grows` tells whether the table at hand is. -/
def assignFrom (value : Value) (grows : Bool) :
    List String → Entries → Option Entries
  | [], _ => none
  | [k], es =>
    match es.lookup k with
    | some _ => none
    | none => if grows then some (es ++ [(k, .leaf value)]) else none
  | k :: path, es =>
    match es.lookup k with
    | none => do
      let sub ← assignFrom value true path []
      some (es ++ [(k, .table .dotted sub)])
    | some (.table origin sub) =>
      if origin = .opened then none
      else do
        let sub ← assignFrom value (origin = .dotted) path sub
        some (replace k (.table origin sub) es)
    | some (.tables done last) => do
      let last ← assignFrom value false path last
      some (replace k (.tables done last) es)
    | some (.leaf _) => none

/-- Puts a value under a dotted key, from the table where
the key is written. -/
def assign (value : Value) (path : List String) (es : Entries) :
    Option Entries :=
  assignFrom value true path es

-- ================================================================ headers

/-- Applies a change to the entries that a path of headers leads to. Missing
tables are implied on the way, and a list of tables is entered at its last. -/
def descend (change : Entries → Option Entries) :
    List String → Entries → Option Entries
  | [], es => change es
  | k :: path, es =>
    match es.lookup k with
    | none => do
      let sub ← descend change path []
      some (es ++ [(k, .table .implied sub)])
    | some (.table origin sub) => do
      let sub ← descend change path sub
      some (replace k (.table origin sub) es)
    | some (.tables done last) => do
      let last ← descend change path last
      some (replace k (.tables done last) es)
    | some (.leaf _) => none

/-- Opens a table by its header: it is new, or was only implied so far. -/
def openTable (k : String) (es : Entries) : Option Entries :=
  match es.lookup k with
  | none => some (es ++ [(k, .table .opened [])])
  | some (.table .implied sub) => some (replace k (.table .opened sub) es)
  | some _ => none

/-- Opens one more table of a list of tables. -/
def openElement (k : String) (es : Entries) : Option Entries :=
  match es.lookup k with
  | none => some (es ++ [(k, .tables [] [])])
  | some (.tables done last) =>
      some (replace k (.tables (done ++ [last]) []) es)
  | some _ => none

end Entries

-- ============================================================== completion

/-- Entries in the order of their keys. -/
def sortEntries (es : List (String × Value)) : List (String × Value) :=
  es.mergeSort fun a b => a.1 ≤ b.1

mutual

/-- The value of what stands under a key. -/
def Node.toValue : Node → Value
  | .leaf v => v
  | .table _ es => .table (sortEntries (valuesOf es))
  | .tables done last =>
      .array (elementsOf done ++ [.table (sortEntries (valuesOf last))])

/-- The values of the entries of a table. -/
def valuesOf : List (String × Node) → List (String × Value)
  | [] => []
  | (k, n) :: rest => (k, n.toValue) :: valuesOf rest

/-- The values of the tables of a list. -/
def elementsOf : List (List (String × Node)) → List Value
  | [] => []
  | es :: rest => .table (sortEntries (valuesOf es)) :: elementsOf rest

end

/-- The entries of a complete table in the order of their keys. -/
def Entries.complete (es : Entries) : List (String × Value) :=
  sortEntries (valuesOf es)

end TokenForge.Toml
