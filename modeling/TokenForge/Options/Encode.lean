/-
Option records as TOML: one `key = value` line for each field, the standard
first, then its own fields, then the common ones. Fields that are not set
have no line. Strings are quoted on one line.
-/
import TokenForge.Options.Record
import TokenForge.Text.Hex

namespace TokenForge

namespace Encode

/-- One character inside the quotes. -/
def stringChar (c : Char) : List Char :=
  if c = '"' then ['\\', '"']
  else if c = '\\' then ['\\', '\\']
  else if c.toNat < 0x20 ∨ c.toNat = 0x7F then
    ['\\', 'u'] ++ Text.hexFixed 4 c.toNat
  else [c]

/-- A string between quotes. -/
def string (s : String) : String :=
  String.ofList ('"' :: s.toList.flatMap stringChar ++ ['"'])

/-- A yes-or-no value. -/
def boolean (b : Bool) : String := if b then "true" else "false"

/-- The fields of the common options with their values. -/
def commonFields (o : CommonOptions) : List (String × String) :=
  [("access", string o.access.name)]
    ++ (o.proxy?.toList.map fun p => ("upgradeable", string p.name))
    ++ [("license", string o.license)]

/-- The fields of a record with their values. -/
def fields : OptionRecord → List (String × String)
  | .erc721 o =>
    [("kind", string Standard.erc721.name), ("name", string o.name),
      ("symbol", string o.symbol)]
      ++ (o.baseUri?.toList.map fun uri => ("base-uri", string uri))
      ++ [("enumerable", boolean o.enumerable),
        ("uri-storage", boolean o.uriStorage),
        ("burnable", boolean o.burnable), ("pausable", boolean o.pausable),
        ("mintable", boolean o.mintable),
        ("incremental", boolean o.incremental),
        ("open-sea", boolean o.openSea)]
      ++ commonFields o.common
  | .erc1155 o =>
    [("kind", string Standard.erc1155.name), ("name", string o.name),
      ("uri", string o.uri), ("burnable", boolean o.burnable),
      ("pausable", boolean o.pausable), ("mintable", boolean o.mintable),
      ("supply", boolean o.supply), ("updatable-uri", boolean o.updatableUri)]
      ++ commonFields o.common

/-- One line of a document. -/
def line (field : String × String) : String :=
  field.1 ++ " = " ++ field.2 ++ "\n"

end Encode

/-- The document of a record. -/
def OptionRecord.toToml (r : OptionRecord) : String :=
  String.join ((Encode.fields r).map Encode.line)

end TokenForge
