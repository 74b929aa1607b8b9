/-
Multi tokens: the base contract and one assembly for each optional feature,
run in a fixed order.
-/
import TokenForge.Token.Pausable
import TokenForge.Token.Proxy

namespace TokenForge.Token.Erc1155

-- =========================================================== declarations

/-- Changes the metadata URI. -/
def setUri : Declaration where
  name := "setURI"
  visibility := .everywhere
  args := [⟨"newuri", "string memory"⟩]

/-- Mints an amount of one token. -/
def mint : Declaration where
  name := "mint"
  visibility := .everywhere
  args := [⟨"account", "address"⟩, ⟨"id", "uint256"⟩, ⟨"amount", "uint256"⟩,
    ⟨"data", "bytes memory"⟩]

/-- Mints amounts of several tokens. -/
def mintBatch : Declaration where
  name := "mintBatch"
  visibility := .everywhere
  args := [⟨"to", "address"⟩, ⟨"ids", "uint256[] memory"⟩,
    ⟨"amounts", "uint256[] memory"⟩, ⟨"data", "bytes memory"⟩]

/-- The hook that runs before every transfer. -/
def beforeTransfer : Declaration where
  name := "_beforeTokenTransfer"
  visibility := .inside
  args := [⟨"operator", "address"⟩, ⟨"from", "address"⟩, ⟨"to", "address"⟩,
    ⟨"ids", "uint256[] memory"⟩, ⟨"amounts", "uint256[] memory"⟩,
    ⟨"data", "bytes memory"⟩]

/-- The functions of multi tokens. -/
def catalog : Catalog :=
  .ofList [("setURI", setUri), ("mint", mint), ("mintBatch", mintBatch),
    ("_beforeTokenTransfer", beforeTransfer)]

-- ============================================================== features

/-- The base contract. -/
def addBaseContract (uri : String) : Assembly Unit := do
  inherit "ERC1155" "token/ERC1155/ERC1155.sol" [.text uri]
  Assembly.addAncestor "ERC1155" (← lookUp catalog "_beforeTokenTransfer")
  Assembly.addAncestor "ERC1155" (← lookUp sharedCatalog "supportsInterface")

/-- A privileged function changes the metadata URI. -/
def addSetUri (access : Access) : Assembly Unit := do
  let setUri ← lookUp catalog "setURI"
  restrict access "URI_SETTER" [setUri]
  Assembly.appendLine "_setURI(newuri);" setUri

/-- Owners may destroy their tokens. -/
def addBurnable : Assembly Unit :=
  inherit "ERC1155Burnable" "token/ERC1155/extensions/ERC1155Burnable.sol" []

/-- Privileged functions mint tokens. -/
def addMint (access : Access) : Assembly Unit := do
  let mint ← lookUp catalog "mint"
  let mintBatch ← lookUp catalog "mintBatch"
  restrict access "MINTER" [mint, mintBatch]
  Assembly.appendLine "_mint(account, id, amount, data);" mint
  Assembly.appendLine "_mintBatch(to, ids, amounts, data);" mintBatch

/-- The total supply of each token is tracked. -/
def addSupply : Assembly Unit := do
  inherit "ERC1155Supply" "token/ERC1155/extensions/ERC1155Supply.sol" []
  Assembly.addAncestor "ERC1155Supply"
    (← lookUp catalog "_beforeTokenTransfer")

/-- Transfers depend on a pause. -/
def addPause (access : Access) : Assembly Unit := do
  addPausable access [← lookUp catalog "_beforeTokenTransfer"]

-- ============================================================== together

/-- Everything the options ask of the token contract. -/
def assemble (o : Erc1155Options) : Assembly Unit := do
  Assembly.setLicense o.common.license
  setProxy o.common.proxy?
  addBaseContract o.uri
  whenSet o.updatableUri (addSetUri o.common.access)
  whenSet o.pausable (addPause o.common.access)
  whenSet o.burnable addBurnable
  whenSet o.mintable (addMint o.common.access)
  whenSet o.supply addSupply
  addUpgradeCheck o.common.proxy? o.common.access

/-- All contracts of the token. -/
def contracts (o : Erc1155Options) : Except ContractError (List Contract) := do
  let token ← Assembly.build o.name (assemble o)
  .ok [token]

end TokenForge.Token.Erc1155
