/-
A function as it grows inside a contract: the declaration of the first step
that spoke of it, the bases that declare it, its modifiers and its body.

A body is grown or set, never both: lines are appended one by one, or the
whole body is replaced, as often as one likes. An empty replacement is a
body too, and differs from no body at all.
-/
import TokenForge.Contract.Declaration
import TokenForge.Contract.Error

namespace TokenForge

-- ================================================================ bodies

/-- The body of a function under construction. -/
inductive Body where
  /-- Nothing was said about the body. -/
  | untouched
  /-- The lines appended so far. -/
  | grown (lines : List String)
  /-- The lines it was last replaced by. -/
  | replaced (lines : List String)
  deriving DecidableEq, Repr

namespace Body

/-- The lines of a body. -/
def lines : Body → List String
  | .untouched => []
  | .grown ls => ls
  | .replaced ls => ls

/-- Whether the body was set as a whole. -/
def isReplaced : Body → Bool
  | .replaced _ => true
  | _ => false

/-- The body with one more line, unless it was set as a whole. -/
def append? (line : String) : Body → Option Body
  | .untouched => some (.grown [line])
  | .grown ls => some (.grown (ls ++ [line]))
  | .replaced _ => none

/-- The body set as a whole, unless lines were appended. -/
def replace? (ls : List String) : Body → Option Body
  | .grown _ => none
  | _ => some (.replaced ls)

end Body

-- =============================================================== methods

/-- A function as it grows inside a contract. -/
structure Method where
  decl : Declaration
  /-- The contracts that declare it, without repetition, in the order they
  were first named. -/
  ancestors : List String
  modifiers : List String
  body : Body
  deriving DecidableEq, Repr

namespace Method

/-- A function of which nothing is known but its declaration. -/
def fresh (d : Declaration) : Method := ⟨d, [], [], .untouched⟩

/-- The signature of the function. -/
def signature (m : Method) : Signature := m.decl.signature

/-- The lines of the body. -/
def code (m : Method) : List String := m.body.lines

/-- Whether the body was set as a whole. -/
def isReplaced (m : Method) : Bool := m.body.isReplaced

/-- Records that a contract declares the function. -/
def addAncestor (ancestor : String) (m : Method) : Method :=
  if ancestor ∈ m.ancestors then m
  else { m with ancestors := m.ancestors ++ [ancestor] }

/-- Adds a modifier after those it has. -/
def addModifier (modifier : String) (m : Method) : Method :=
  { m with modifiers := m.modifiers ++ [modifier] }

/-- Appends a line to the body. -/
def appendLine (line : String) (m : Method) : Except ContractError Method :=
  match m.body.append? line with
  | some body => .ok { m with body }
  | none => .error (.bodyReplaced m.signature.text)

/-- Sets the body as a whole. -/
def replaceBody (lines : List String) (m : Method) :
    Except ContractError Method :=
  match m.body.replace? lines with
  | some body => .ok { m with body }
  | none => .error (.bodyAppended m.signature.text)

end Method

end TokenForge
