/-
Upgradeable contracts: any proxy needs initializers in place of constructors;
with the upgrade logic in the implementation, the contract also says who may
upgrade it.
-/
import TokenForge.Token.Access

namespace TokenForge.Token

/-- Decides whether an upgrade is allowed. -/
def authorizeUpgrade : Declaration where
  name := "_authorizeUpgrade"
  visibility := .inside
  args := [⟨"newImplementation", "address"⟩]

/-- The functions of the feature. -/
def proxyCatalog : Catalog := .ofList [("_authorizeUpgrade", authorizeUpgrade)]

/-- Makes the contract upgradeable, if a proxy is asked for. -/
def setProxy (proxy? : Option Proxy) : Assembly Unit :=
  match proxy? with
  | none => pure ()
  | some _ => do
    Assembly.markUpgradeable
    inherit "Initializable" "proxy/utils/Initializable.sol" []

/-- Adds the privileged check of upgrades, if the implementation makes it. -/
def addUpgradeCheck (proxy? : Option Proxy) (access : Access) :
    Assembly Unit :=
  match proxy? with
  | none => pure ()
  | some .transparent => pure ()
  | some .uups => do
    let authorizeUpgrade ← lookUp proxyCatalog "_authorizeUpgrade"
    restrict access "UPGRADER" [authorizeUpgrade]
    inherit "UUPSUpgradeable" "proxy/utils/UUPSUpgradeable.sol" []
    Assembly.addAncestor "UUPSUpgradeable" authorizeUpgrade
    Assembly.replaceBody [] authorizeUpgrade

end TokenForge.Token
