/-
The steps that assemble a contract. An assembly runs on a contract and either
goes on or stops with a conflict; the contract as it stands is kept in both
cases, so what a feature did before it stopped can be seen.

A `Step` is one operation as a value: histories are lists of steps, and
`replay` is what a history makes of a contract when every conflict is
reported and passed over.
-/
import TokenForge.Contract.Basic

namespace TokenForge

/-- A computation on a contract that a conflict stops. -/
abbrev Assembly := EStateM ContractError Contract

namespace Assembly

-- =========================================================== operations

/-- Changes the contract. -/
def edit (f : Contract → Contract) : Assembly Unit := modify f

/-- Sets the licence expression. -/
def setLicense (license : String) : Assembly Unit :=
  edit fun c => { c with license }

/-- Writes the contract against the upgradeable package. -/
def markUpgradeable : Assembly Unit :=
  edit fun c => { c with upgradeable := true }

/-- Adds a base after those there are. -/
def addBase (b : Base) : Assembly Unit := do
  let c ← get
  if c.hasBase b.name then throw (.duplicateBase c.name b.name)
  else edit fun c => { c with bases := c.bases ++ [b] }

/-- Attaches a library to a type. -/
def attach (a : Attachment) : Assembly Unit :=
  edit fun c => { c with attachments := c.attachments ++ [a] }

/-- Adds a declaration or comment line. -/
def addVariable (line : String) : Assembly Unit :=
  edit fun c => { c with stateVariables := c.stateVariables ++ [line] }

/-- Adds an argument of the constructor. -/
def addConstructorArg (a : Argument) : Assembly Unit :=
  edit fun c => { c with constructorArgs := c.constructorArgs ++ [a] }

/-- Adds a line to the constructor. -/
def addConstructorLine (line : String) : Assembly Unit :=
  edit fun c => { c with constructorCode := c.constructorCode ++ [line] }

/-- Changes the function of a declaration, which enters the table first if it
was not spoken of yet. -/
def editMethod (d : Declaration) (f : Method → Except ContractError Method) :
    Assembly Unit := do
  edit fun c => c.touch d
  let c ← get
  match f (c.methodFor d) with
  | .ok m => edit fun c => c.setMethod m
  | .error e => throw e

/-- Records that a contract declares the function. -/
def addAncestor (ancestor : String) (d : Declaration) : Assembly Unit :=
  editMethod d fun m => .ok (m.addAncestor ancestor)

/-- Adds a modifier to the function. -/
def addModifier (modifier : String) (d : Declaration) : Assembly Unit :=
  editMethod d fun m => .ok (m.addModifier modifier)

/-- Appends a line to the function's body. -/
def appendLine (line : String) (d : Declaration) : Assembly Unit :=
  editMethod d (·.appendLine line)

/-- Sets the function's body as a whole. -/
def replaceBody (lines : List String) (d : Declaration) : Assembly Unit :=
  editMethod d (·.replaceBody lines)

-- =============================================================== running

/-- The contract an assembly leaves, and the conflict that stopped it. -/
def runOn (a : Assembly Unit) (c : Contract) :
    Contract × Option ContractError :=
  match a c with
  | .ok _ c => (c, none)
  | .error e c => (c, some e)

/-- The contract an assembly makes from a name. -/
def build (name : String) (a : Assembly Unit) :
    Except ContractError Contract :=
  match a { name } with
  | .ok _ c => .ok c
  | .error e _ => .error e

end Assembly

-- ================================================================ steps

/-- One operation on a contract. -/
inductive Step where
  | license (text : String)
  | upgradeable
  | base (b : Base)
  | attachment (a : Attachment)
  | ancestor (name : String) (d : Declaration)
  | modifier (text : String) (d : Declaration)
  | line (text : String) (d : Declaration)
  | body (lines : List String) (d : Declaration)
  | declare (text : String)
  | constructorArg (a : Argument)
  | constructorLine (text : String)
  deriving DecidableEq, Repr

namespace Step

/-- What a step does. -/
def perform : Step → Assembly Unit
  | .license text => Assembly.setLicense text
  | .upgradeable => Assembly.markUpgradeable
  | .base b => Assembly.addBase b
  | .attachment a => Assembly.attach a
  | .ancestor name d => Assembly.addAncestor name d
  | .modifier text d => Assembly.addModifier text d
  | .line text d => Assembly.appendLine text d
  | .body lines d => Assembly.replaceBody lines d
  | .declare text => Assembly.addVariable text
  | .constructorArg a => Assembly.addConstructorArg a
  | .constructorLine text => Assembly.addConstructorLine text

/-- The contract after a step, whether it succeeded or not. -/
def next (s : Step) (c : Contract) : Contract := (s.perform.runOn c).1

/-- The conflict a step runs into, if any. -/
def conflict? (s : Step) (c : Contract) : Option ContractError :=
  (s.perform.runOn c).2

end Step

/-- The contract after a history. -/
def Contract.replay (history : List Step) (c : Contract) : Contract :=
  history.foldl (fun c s => s.next c) c

end TokenForge
