/-
The token standards, and how a user may spell them: in any case and with
blanks around.
-/
import TokenForge.Text.Blank

namespace TokenForge

/-- A token standard. -/
inductive Standard where
  | erc721
  | erc1155
  deriving DecidableEq, Repr

namespace Standard

/-- The name of the standard. -/
def name : Standard → String
  | .erc721 => "ERC721"
  | .erc1155 => "ERC1155"

/-- The standard of an exact name. -/
def ofName? (name : String) : Option Standard :=
  if name = "ERC721" then some .erc721
  else if name = "ERC1155" then some .erc1155 else none

/-- The standard a user means. Only ASCII letters have capitals that occur in
the names, so raising those is enough. -/
def parse? (text : String) : Option Standard :=
  ofName? (String.ofList ((Text.trim text.toList).map Char.toUpper))

/-- The wording for a text that means no standard. -/
def unknownMessage (text : String) : String :=
  "unknown contract kind '" ++ text ++ "', expected 'ERC721' or 'ERC1155'"

/-- The standard a user means, and ERC721 for anything else. -/
def sanitize (text : String) : Standard := (parse? text).getD .erc721

theorem ofName?_name (s : Standard) : ofName? s.name = some s := by
  cases s <;> rfl

end Standard

end TokenForge
