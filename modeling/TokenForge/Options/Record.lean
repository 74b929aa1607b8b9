/-
Option records: what a user asks for. A record names the token standard and
has that standard's own options beside the ones all standards share.
-/
import TokenForge.Options.Standard

namespace TokenForge

/-- Who may call privileged functions. -/
inductive Access where
  /-- A single owner. -/
  | ownable
  /-- One role for each capability. -/
  | roles
  deriving DecidableEq, Repr

/-- The spelling in a record. -/
def Access.name : Access → String
  | .ownable => "ownable"
  | .roles => "roles"

/-- How an upgradeable contract is upgraded. -/
inductive Proxy where
  /-- The upgrade logic lives in the implementation. -/
  | uups
  /-- The upgrade logic lives in the proxy. -/
  | transparent
  deriving DecidableEq, Repr

/-- The spelling in a record. -/
def Proxy.name : Proxy → String
  | .uups => "uups"
  | .transparent => "transparent"

/-- The options of every standard. -/
structure CommonOptions where
  access : Access := .ownable
  /-- Without a proxy the contract is not upgradeable. -/
  proxy? : Option Proxy := none
  /-- The SPDX licence expression. -/
  license : String := "MIT"
  deriving DecidableEq, Repr

/-- The options of a non-fungible token. -/
structure Erc721Options where
  name : String
  symbol : String
  baseUri? : Option String := none
  enumerable : Bool := false
  uriStorage : Bool := false
  burnable : Bool := false
  pausable : Bool := false
  mintable : Bool := false
  /-- Token numbers are counted up; needs `mintable`. -/
  incremental : Bool := false
  /-- The owner's marketplace proxy is approved for every owner. -/
  openSea : Bool := false
  common : CommonOptions := {}
  deriving DecidableEq, Repr

/-- The options of a multi token. -/
structure Erc1155Options where
  name : String
  uri : String := ""
  burnable : Bool := false
  pausable : Bool := false
  mintable : Bool := false
  /-- The total supply of each token is tracked. -/
  supply : Bool := false
  /-- The URI can be changed by a privileged call. -/
  updatableUri : Bool := true
  common : CommonOptions := {}
  deriving DecidableEq, Repr

/-- An option record. -/
inductive OptionRecord where
  | erc721 (options : Erc721Options)
  | erc1155 (options : Erc1155Options)
  deriving DecidableEq, Repr

namespace OptionRecord

/-- The token standard. -/
def standard : OptionRecord → Standard
  | .erc721 _ => .erc721
  | .erc1155 _ => .erc1155

/-- The name of the main contract. -/
def name : OptionRecord → String
  | .erc721 o => o.name
  | .erc1155 o => o.name

/-- The options of every standard. -/
def common : OptionRecord → CommonOptions
  | .erc721 o => o.common
  | .erc1155 o => o.common

end OptionRecord

end TokenForge
