/-
What can go wrong while a contract is assembled or printed. Each case names
the culprits; the wording is in one place.
-/
namespace TokenForge

/-- A conflict between the parts of a contract. -/
inductive ContractError where
  /-- The contract has a base of that name already. -/
  | duplicateBase (contract base : String)
  /-- A line was to be appended to a body that was set as a whole. -/
  | bodyReplaced (function : String)
  /-- A body was to be set as a whole after lines were appended to it. -/
  | bodyAppended (function : String)
  /-- A catalog has no function under that name. -/
  | unknownFunction (name : String)
  /-- A function overrides a contract that is no base. -/
  | unknownAncestor (contract function ancestor : String)
  deriving DecidableEq, Repr

/-- The wording of the conflict. -/
def ContractError.message : ContractError → String
  | .duplicateBase contract base =>
    "parent contract '" ++ base ++ "' is already part of '" ++ contract ++ "'"
  | .bodyReplaced function =>
      "cannot append code to '" ++ function ++ "': its body was replaced"
  | .bodyAppended function =>
    "cannot replace the body of '" ++ function
      ++ "': code was already appended"
  | .unknownFunction name => "unknown function '" ++ name ++ "'"
  | .unknownAncestor contract function ancestor =>
    "'" ++ function ++ "' overrides '" ++ ancestor
      ++ "', which is not a parent of '" ++ contract
      ++ "'"

end TokenForge
