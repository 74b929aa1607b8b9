/-
Non-fungible tokens: the base contract and one assembly for each optional
feature, run in a fixed order. With marketplace approval two small contracts
that the token refers to are declared ahead of it.
-/
import TokenForge.Token.Pausable
import TokenForge.Token.Proxy
import TokenForge.Solidity.Literal

namespace TokenForge.Token.Erc721

-- =========================================================== declarations

/-- The hook that runs before every transfer. -/
def beforeTransfer : Declaration where
  name := "_beforeTokenTransfer"
  visibility := .inside
  args := [⟨"from", "address"⟩, ⟨"to", "address"⟩, ⟨"tokenId", "uint256"⟩]

/-- Destroys a token. -/
def burn : Declaration where
  name := "_burn"
  visibility := .inside
  args := [⟨"tokenId", "uint256"⟩]

/-- The metadata URI of a token. -/
def tokenUri : Declaration where
  name := "tokenURI"
  visibility := .everywhere
  args := [⟨"tokenId", "uint256"⟩]
  returns := ["string memory"]
  mutability := .view

/-- The common beginning of all metadata URIs. -/
def baseUri : Declaration where
  name := "_baseURI"
  visibility := .inside
  returns := ["string memory"]
  mutability := .pure

/-- Whether an operator may handle all tokens of an owner. -/
def isApprovedForAll : Declaration where
  name := "isApprovedForAll"
  visibility := .everywhere
  args := [⟨"owner", "address"⟩, ⟨"operator", "address"⟩]
  returns := ["bool"]
  mutability := .view

/-- Mints a token of a given number. -/
def safeMint : Declaration where
  name := "safeMint"
  visibility := .everywhere
  args := [⟨"to", "address"⟩, ⟨"tokenId", "uint256"⟩]

/-- Mints the next token. -/
def safeMintNext : Declaration where
  name := "safeMint"
  visibility := .everywhere
  args := [⟨"to", "address"⟩]

/-- The functions of non-fungible tokens. Both ways to mint are called
`safeMint`, and only their logical names tell them apart. -/
def catalog : Catalog :=
  .ofList [("_beforeTokenTransfer", beforeTransfer), ("_burn", burn),
    ("tokenURI", tokenUri), ("_baseURI", baseUri),
    ("isApprovedForAll", isApprovedForAll), ("safeMint", safeMint),
    ("safeMintIncremental", safeMintNext)]

-- ============================================================== features

/-- The base contract. -/
def addBaseContract (name symbol : String) : Assembly Unit := do
  inherit "ERC721" "token/ERC721/ERC721.sol" [.text name, .text symbol]
  ["_beforeTokenTransfer", "_burn", "tokenURI"].forM fun function => do
    Assembly.addAncestor "ERC721" (← lookUp catalog function)
  Assembly.addAncestor "ERC721" (← lookUp sharedCatalog "supportsInterface")

/-- A fixed beginning of all metadata URIs. -/
def addBaseUri (uri : String) : Assembly Unit := do
  let baseUri ← lookUp catalog "_baseURI"
  Assembly.addAncestor "ERC721" baseUri
  Assembly.replaceBody
    ["return " ++ Solidity.Literal.ofString uri ++ ";"] baseUri

/-- Enumeration of all tokens on chain. -/
def addEnumerable : Assembly Unit := do
  inherit "ERC721Enumerable" "token/ERC721/extensions/ERC721Enumerable.sol" []
  Assembly.addAncestor "ERC721Enumerable"
    (← lookUp catalog "_beforeTokenTransfer")
  Assembly.addAncestor "ERC721Enumerable"
    (← lookUp sharedCatalog "supportsInterface")

/-- A metadata URI for each token. -/
def addUriStorage : Assembly Unit := do
  inherit "ERC721URIStorage" "token/ERC721/extensions/ERC721URIStorage.sol" []
  Assembly.addAncestor "ERC721URIStorage" (← lookUp catalog "_burn")
  Assembly.addAncestor "ERC721URIStorage" (← lookUp catalog "tokenURI")

/-- Owners may destroy their tokens. -/
def addBurnable : Assembly Unit :=
  inherit "ERC721Burnable" "token/ERC721/extensions/ERC721Burnable.sol" []

/-- A privileged function mints tokens of given numbers. -/
def addMint (access : Access) : Assembly Unit := do
  let safeMint ← lookUp catalog "safeMint"
  restrict access "MINTER" [safeMint]
  Assembly.appendLine "_safeMint(to, tokenId);" safeMint

/-- A privileged function mints tokens of counted numbers. -/
def addCountedMint (access : Access) : Assembly Unit := do
  let safeMintNext ← lookUp catalog "safeMintIncremental"
  restrict access "MINTER" [safeMintNext]
  Assembly.attach ⟨openzeppelin "Counters" "utils/Counters.sol",
    "Counters.Counter"⟩
  Assembly.addVariable "Counters.Counter private _tokenIdCounter;"
  Assembly.appendLine "_safeMint(to, _tokenIdCounter.current());" safeMintNext
  Assembly.appendLine "_tokenIdCounter.increment();" safeMintNext

/-- The lines that approve the owner's marketplace proxy. -/
def proxyApproval : List String :=
  ["ProxyRegistry proxyRegistry = ProxyRegistry(proxyRegistryAddress);",
    "if (address(proxyRegistry.proxies(owner)) == operator) \x7b",
    "    return true;",
    "\x7d"]

/-- Approves the owner's marketplace proxy as an operator, so that listing a
token takes no transaction of its own. -/
def addOpenSea : Assembly Unit := do
  Assembly.addConstructorArg ⟨"_proxyRegistryAddress", "address"⟩
  Assembly.addConstructorLine "proxyRegistryAddress = _proxyRegistryAddress;"
  Assembly.addVariable "address proxyRegistryAddress;"
  let isApprovedForAll ← lookUp catalog "isApprovedForAll"
  Assembly.addAncestor "ERC721" isApprovedForAll
  proxyApproval.forM fun line => Assembly.appendLine line isApprovedForAll

/-- Transfers depend on a pause. -/
def addPause (access : Access) : Assembly Unit := do
  addPausable access [← lookUp catalog "_beforeTokenTransfer"]

-- ============================================================== together

/-- The base URI feature; an empty URI is no URI. -/
def addBaseUri? : Option String → Assembly Unit
  | none => pure ()
  | some uri => whenSet (!uri.isEmpty) (addBaseUri uri)

/-- Everything the options ask of the token contract. -/
def assemble (o : Erc721Options) : Assembly Unit := do
  Assembly.setLicense o.common.license
  setProxy o.common.proxy?
  addBaseContract o.name o.symbol
  addBaseUri? o.baseUri?
  whenSet o.enumerable addEnumerable
  whenSet o.uriStorage addUriStorage
  whenSet o.pausable (addPause o.common.access)
  whenSet o.burnable addBurnable
  whenSet o.mintable
    (if o.incremental then addCountedMint o.common.access
     else addMint o.common.access)
  whenSet o.openSea addOpenSea
  addUpgradeCheck o.common.proxy? o.common.access

/-- The stand-in for a user's marketplace proxy. -/
def ownableDelegateProxy (license : String) : Contract where
  name := "OwnableDelegateProxy"
  license := license
  stateVariables :=
    ["// Per-user proxy deployed through the OpenSea proxy registry."]

/-- The stand-in for the registry of marketplace proxies. -/
def proxyRegistry (license : String) : Contract where
  name := "ProxyRegistry"
  license := license
  stateVariables :=
    ["mapping(address => OwnableDelegateProxy) public proxies;"]

/-- The contracts declared ahead of the token. -/
def auxiliaries (o : Erc721Options) : List Contract :=
  if o.openSea then [ownableDelegateProxy o.common.license,
    proxyRegistry o.common.license]
  else []

/-- All contracts of the token, in output order. -/
def contracts (o : Erc721Options) : Except ContractError (List Contract) := do
  let token ← Assembly.build o.name (assemble o)
  .ok (auxiliaries o ++ [token])

end TokenForge.Token.Erc721
