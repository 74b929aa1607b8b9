/-
Text between double quotes as error messages show it: quotes, backslashes
and the common controls are escaped by letter, and whatever else would not be
seen is shown by its code point in braces.
-/
import TokenForge.Text.Hex
import TokenForge.Text.Hidden

namespace TokenForge.Text

/-- One character between the quotes. -/
def quoteChar (c : Char) : List Char :=
  if c = '"' then ['\\', '"']
  else if c = '\\' then ['\\', '\\']
  else if c = '\n' then ['\\', 'n']
  else if c = '\r' then ['\\', 'r']
  else if c = '\t' then ['\\', 't']
  else if c = '\x00' then ['\\', '0']
  else if isHidden c then ['\\', 'u', '\x7b'] ++ hex c.toNat ++ ['\x7d']
  else [c]

/-- A text between quotes. -/
def quote (s : String) : String :=
  String.ofList ('"' :: s.toList.flatMap quoteChar ++ ['"'])

end TokenForge.Text
