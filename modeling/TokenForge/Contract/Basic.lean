/-
One contract under construction: its bases with their constructor arguments,
its functions, its variables, the libraries attached to types, and its
constructor. Every list is in the order of the steps that filled it.
-/
import TokenForge.Contract.Method

namespace TokenForge

-- =========================================================== the pieces

/-- A contract or library of another file. -/
structure Dependency where
  name : String
  /-- The import path of its file. -/
  path : String
  deriving DecidableEq, Repr

/-- An argument of a base's constructor. -/
inductive Value where
  /-- Written as a string literal. -/
  | text (s : String)
  /-- Written in decimal. -/
  | integer (n : Int64)
  /-- Written as it is. -/
  | verbatim (expr : String)
  deriving DecidableEq, Repr

/-- A contract inherited from, with the arguments of its constructor. -/
structure Base where
  dependency : Dependency
  args : List Value
  deriving DecidableEq, Repr

/-- The name of a base. -/
def Base.name (b : Base) : String := b.dependency.name

/-- A library whose functions are attached to a type. -/
structure Attachment where
  library : Dependency
  type : String
  deriving DecidableEq, Repr

-- ============================================================= contracts

/-- A contract under construction. -/
structure Contract where
  name : String
  /-- The SPDX licence expression. -/
  license : String := "MIT"
  /-- Whether it is written against the upgradeable package. -/
  upgradeable : Bool := false
  bases : List Base := []
  /-- The functions, in the order they were first spoken of. -/
  methods : List Method := []
  /-- Declarations and comments, line by line. -/
  stateVariables : List String := []
  attachments : List Attachment := []
  constructorArgs : List Argument := []
  constructorCode : List String := []
  deriving DecidableEq, Repr

namespace Contract

/-- The names of the bases, in order. -/
def baseNames (c : Contract) : List String := c.bases.map (·.name)

/-- The place of a base among the bases. -/
def basePosition? (c : Contract) (name : String) : Option Nat :=
  c.baseNames.idxOf? name

/-- Whether the contract has a base of that name. -/
def hasBase (c : Contract) (name : String) : Bool := c.baseNames.contains name

/-- The function of a signature, if it was spoken of. -/
def method? (c : Contract) (s : Signature) : Option Method :=
  c.methods.find? fun m => m.signature = s

/-- The function of a declaration: as far as it has grown, or fresh. -/
def methodFor (c : Contract) (d : Declaration) : Method :=
  (c.method? d.signature).getD (.fresh d)

/-- The contract after a function was spoken of: the first declaration of a
signature enters the table, later ones change nothing. -/
def touch (c : Contract) (d : Declaration) : Contract :=
  if (c.method? d.signature).isSome then c
  else { c with methods := c.methods ++ [.fresh d] }

/-- The contract with the function of that signature replaced. -/
def setMethod (c : Contract) (m : Method) : Contract :=
  { c with methods :=
      c.methods.map fun n => if n.signature = m.signature then m else n }

end Contract

end TokenForge
