/-
Which `override` mark a function carries. A function that one base declares
is marked plainly; with several, the mark lists them in the order of the
contract's bases, which is the order Solidity linearises them in. Naming an
ancestor that is no base is a conflict, reported for the first such name.
-/
import TokenForge.Contract.Basic

namespace TokenForge

/-- The override mark of a function. -/
inductive OverrideMark where
  /-- The contract introduces the function. -/
  | new
  /-- One base declares it. -/
  | single
  /-- Several bases declare it, listed in the order of the bases. -/
  | several (ancestors : List String)
  deriving DecidableEq, Repr

namespace OverrideMark

/-- An ancestor with its place among the bases. -/
def place (c : Contract) (m : Method) (ancestor : String) :
    Except ContractError (Nat × String) :=
  match c.basePosition? ancestor with
  | some n => .ok (n, ancestor)
  | none => .error (.unknownAncestor c.name m.signature.text ancestor)

/-- The mark for ancestors whose places are known. -/
def ofPlaced : List (Nat × String) → OverrideMark
  | [] => .new
  | [_] => .single
  | placed => .several ((placed.mergeSort fun a b => a.1 ≤ b.1).map (·.2))

/-- The mark of a function within a contract. -/
def resolve (c : Contract) (m : Method) : Except ContractError OverrideMark :=
  do
  let placed ← m.ancestors.mapM (place c m)
  .ok (ofPlaced placed)

/-- The ancestors a mark stands for. -/
def ancestors (m : Method) : OverrideMark → List String
  | .new => []
  | .single => m.ancestors
  | .several names => names

end OverrideMark

/-- The functions of a contract with their marks. -/
def Contract.marked (c : Contract) :
    Except ContractError (List (Method × OverrideMark)) :=
  c.methods.mapM fun m => do
    let mark ← OverrideMark.resolve c m
    .ok (m, mark)

end TokenForge
