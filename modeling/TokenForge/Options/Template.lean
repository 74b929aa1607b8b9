/-
The option records that a user starts from, one for each standard.
-/
import TokenForge.Options.Standard

namespace TokenForge.Standard

/-- The lines at the end of every starting record. -/
def commonTemplate : List String :=
  ["access = \"ownable\"          # or \"roles\"",
    "# upgradeable = \"uups\"      # or \"transparent\"",
    "license = \"MIT\""]

/-- The lines of a starting record. -/
def templateLines : Standard → List String
  | .erc721 =>
    ["# Options for `solwiz generate`.",
      "kind = \"ERC721\"",
      "name = \"MyToken\"",
      "symbol = \"MTK\"",
      "# base-uri = \"https://example.com/\"",
      "",
      "enumerable = false",
      "uri-storage = false",
      "burnable = false",
      "pausable = false",
      "mintable = true",
      "incremental = true",
      "open-sea = false",
      ""] ++ commonTemplate
  | .erc1155 =>
    ["# Options for `solwiz generate`.",
      "kind = \"ERC1155\"",
      "name = \"MyToken\"",
      "uri = \"https://example.com/\x7bid\x7d.json\"",
      "",
      "burnable = false",
      "pausable = false",
      "mintable = true",
      "supply = false",
      "updatable-uri = true",
      ""] ++ commonTemplate

/-- The starting record. -/
def template (s : Standard) : String :=
  String.join (s.templateLines.map (· ++ "\n"))

end TokenForge.Standard
