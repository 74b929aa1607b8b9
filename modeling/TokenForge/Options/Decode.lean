/-
Option records out of TOML tables. First comes the standard, then the
standard's own fields in the order of their keys, then the common ones; the
first fault is reported. Keys that no field has are passed over, but a number
that 64 bits do not hold ends the reading wherever it stands. Only a fault of
the standard is tied to a place in the document.
-/
import TokenForge.Options.Fault
import TokenForge.Options.Record
import TokenForge.Options.Span
import TokenForge.Toml.Document
import TokenForge.Toml.Readable

namespace TokenForge

namespace Decode

/-- The entries of a table, in the order of their keys. -/
abbrev Entries := List (String × Toml.Value)

-- ============================================================ the standard

/-- The spellings of the standards, and what each stands for. -/
def standardNames : List (String × Standard) :=
  [("ERC721", .erc721), ("Erc721", .erc721), ("erc721", .erc721),
    ("ERC1155", .erc1155), ("Erc1155", .erc1155), ("erc1155", .erc1155)]

/-- The choice that a name stands for. -/
def choice {α : Type} (known : List (String × α)) (name : String) :
    Except Fault α :=
  match known.lookup name with
  | some a => .ok a
  | none => .error (.unknownName name (known.map (·.1)))

/-- The standard that a value names; a list or a table is not looked into. -/
def standardOf : Toml.Value → Except Fault Standard
  | .string name => choice standardNames name
  | .integer n =>
    if Toml.fitsSigned n then
      .error (.wrongType (Toml.Value.integer n).describe .standardName)
    else .error (.wrongPlace n 2)
  | v => .error (.wrongType v.describe .standardName)

-- ================================================================== fields

/-- The text of a field, if the field is there. -/
def text? (es : Entries) (key : String) : Except Fault (Option String) :=
  match es.lookup key with
  | none => .ok none
  | some (.string s) => .ok (some s)
  | some v => .error (.wrongType v.describe .text)

/-- The value of a yes-or-no field, or its default. -/
def flag (es : Entries) (key : String) (default : Bool) : Except Fault Bool :=
  match es.lookup key with
  | none => .ok default
  | some (.boolean b) => .ok b
  | some v => .error (.wrongType v.describe .boolean)

/-- The value of a field that must be there. -/
def required (field : String) : Option String → Except Fault String
  | some s => .ok s
  | none => .error (.missingField field)

/-- The choice in a table with one key: the key names it, and there is nothing
to say about it, so the key's value is an empty table. -/
def choiceInTable {α : Type} (known : List (String × α)) :
    Entries → Except Fault α
  | [(name, v)] => do
    let a ← choice known name
    match v with
    | .table [] => .ok a
    | v => .error (.wrongType v.describe .emptyTable)
  | _ => .error .severalKeys

/-- The key under which a date or a time presents itself in a table. -/
def dateKey : String := "$__toml_private_datetime"

/-- The choice of a field, if the field is there: its name, or a table with
the name as its key. -/
def choice? {α : Type} (es : Entries) (key : String)
    (known : List (String × α)) : Except Fault (Option α) :=
  match es.lookup key with
  | none => .ok none
  | some (.string name) => (choice known name).map some
  | some (.table entries) => (choiceInTable known entries).map some
  | some .moment => (choice known dateKey).map some
  | some v => .error (.wrongType v.describe .nameOrTable)

/-- The spellings of the access options. -/
def accessNames : List (String × Access) :=
  [("ownable", .ownable), ("roles", .roles)]

/-- The spellings of the proxies. -/
def proxyNames : List (String × Proxy) :=
  [("uups", .uups), ("transparent", .transparent)]

-- ================================================================= records

/-- The last round: the common options, in the order of their keys. -/
def common (es : Entries) : Except Fault CommonOptions := do
  let access ← choice? es "access" accessNames
  let license ← text? es "license"
  let proxy? ← choice? es "upgradeable" proxyNames
  .ok { access := access.getD .ownable, proxy?, license := license.getD "MIT" }

/-- The options of a non-fungible token, in the order of their keys. -/
def erc721 (es : Entries) : Except Fault Erc721Options := do
  let baseUri? ← text? es "base-uri"
  let burnable ← flag es "burnable" false
  let enumerable ← flag es "enumerable" false
  let incremental ← flag es "incremental" false
  let mintable ← flag es "mintable" false
  let name ← text? es "name"
  let openSea ← flag es "open-sea" false
  let pausable ← flag es "pausable" false
  let symbol ← text? es "symbol"
  let uriStorage ← flag es "uri-storage" false
  let name ← required "name" name
  let symbol ← required "symbol" symbol
  let common ← common es
  .ok { name, symbol, baseUri?, enumerable, uriStorage, burnable,
        pausable, mintable, incremental, openSea, common }

/-- The options of a multi token, in the order of their keys. -/
def erc1155 (es : Entries) : Except Fault Erc1155Options := do
  let burnable ← flag es "burnable" false
  let mintable ← flag es "mintable" false
  let name ← text? es "name"
  let pausable ← flag es "pausable" false
  let supply ← flag es "supply" false
  let updatableUri ← flag es "updatable-uri" true
  let uri ← text? es "uri"
  let name ← required "name" name
  let common ← common es
  .ok { name, uri := uri.getD "", burnable, pausable, mintable, supply,
        updatableUri, common }

/-- The record of a standard. -/
def options (es : Entries) : Standard → Except Fault OptionRecord
  | .erc721 => (erc721 es).map .erc721
  | .erc1155 => (erc1155 es).map .erc1155

-- =============================================================== documents

/-- What a fault is tied to. -/
inductive Spot where
  /-- The start of the document. -/
  | start
  /-- The value of a key. -/
  | key (name : String)
  /-- No place. -/
  | nowhere
  deriving DecidableEq, Repr

/-- Why the entries of a table make no record. -/
inductive Refusal where
  /-- 64 bits do not hold a number, and reading ends there. -/
  | unreadable
  /-- There is a fault, and what it is tied to. -/
  | fault (fault : Fault) (spot : Spot)
  deriving DecidableEq, Repr

/-- The record of a table. The entries are read in the order of their keys up
to the standard, then the others, and only then the fields are looked at. -/
def ofEntries (es : Entries) : Except Refusal OptionRecord :=
  if !Toml.entriesReadable (es.takeWhile (·.1 != "kind")) then
    .error .unreadable
  else
    match es.lookup "kind" with
    | none => .error (.fault (.missingField "kind") .start)
    | some v =>
      if !v.isHeld then .error .unreadable
      else
        match standardOf v with
        | .error fault => .error (.fault fault (.key "kind"))
        | .ok standard =>
          if !Toml.entriesReadable es then .error .unreadable
          else
            match options es standard with
            | .error fault => .error (.fault fault .nowhere)
            | .ok r => .ok r

/-- The stretch of a text that a fault is tied to. -/
def Spot.span? (text : List Char) (d : Toml.Document) : Spot → Option Span
  | .start => some ⟨0, 0⟩
  | .key name =>
    (d.place? name).map fun place =>
      ⟨place.offset (Text.byteLength text), place.length⟩
  | .nowhere => none

/-- Why a text is no option record. -/
inductive Failure where
  /-- It is no TOML that can be read. -/
  | notToml
  /-- It is, but with a fault, whose place may be known. -/
  | notRecord (fault : Fault) (place? : Option Span)
  deriving DecidableEq, Repr

/-- Why a text is no option record, if its entries make none. -/
def Refusal.failure (text : List Char) (d : Toml.Document) : Refusal → Failure
  | .unreadable => .notToml
  | .fault found spot => .notRecord found (spot.span? text d)

end Decode

/-- The record that a text holds; it is not validated yet. -/
def OptionRecord.ofToml (text : String) : Except Decode.Failure OptionRecord :=
  match Toml.read text.toList with
  | none => .error .notToml
  | some d => (Decode.ofEntries d.entries).mapError
    (Decode.Refusal.failure text.toList d)

end TokenForge
