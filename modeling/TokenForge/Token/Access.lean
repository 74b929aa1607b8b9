/-
Access control: functions are restricted to the owner, or to the holders of
a role. The base, the grant of the administrator role, and the constant and
grant of each role are added once, however often a role is asked for.
-/
import TokenForge.Options.Record
import TokenForge.Token.Library

namespace TokenForge.Token

-- ================================================================= roles

/-- The constant that identifies a role. -/
def roleId (role : String) : String := role ++ "_ROLE"

/-- The declaration of a role's constant. -/
def roleDeclaration (role : String) : String :=
  "bytes32 public constant " ++ roleId role ++ " = keccak256(\""
    ++ roleId role ++ "\");"

/-- The constructor line that grants a role to the deployer. -/
def roleGrant (role : String) : String :=
  "_setupRole(" ++ roleId role ++ ", msg.sender);"

/-- The modifier for holders of a role. -/
def onlyRole (role : String) : String := "onlyRole(" ++ roleId role ++ ")"

/-- The constructor line that makes the deployer administrator. -/
def adminGrant : String := "_setupRole(DEFAULT_ADMIN_ROLE, msg.sender);"

-- ========================================================== restrictions

/-- Adds a modifier to each function. -/
def guard (modifier : String) (functions : List Declaration) : Assembly Unit :=
  forEach functions (Assembly.addModifier modifier)

/-- Restricts functions to the owner. -/
def restrictToOwner (functions : List Declaration) : Assembly Unit := do
  unless (← get).hasBase "Ownable" do
    inherit "Ownable" "access/Ownable.sol" []
  guard "onlyOwner" functions

/-- Restricts functions to the holders of a role. -/
def restrictToRole (role : String) (functions : List Declaration) :
    Assembly Unit := do
  unless (← get).hasBase "AccessControl" do
    inherit "AccessControl" "access/AccessControl.sol" []
    Assembly.addConstructorLine adminGrant
  Assembly.addAncestor "AccessControl"
    (← lookUp sharedCatalog "supportsInterface")
  unless (← get).stateVariables.contains (roleDeclaration role) do
    Assembly.addVariable (roleDeclaration role)
    Assembly.addConstructorLine (roleGrant role)
  guard (onlyRole role) functions

/-- Restricts functions in the way the access option says. -/
def restrict (access : Access) (role : String) (functions : List Declaration) :
    Assembly Unit :=
  match access with
  | .ownable => restrictToOwner functions
  | .roles => restrictToRole role functions

end TokenForge.Token
