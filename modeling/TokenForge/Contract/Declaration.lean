/-
What a Solidity function is apart from its body: its name, who may call it,
its arguments and results, and whether it reads or writes state. Two
declarations with the same signature speak of the same function, whatever
the names of their arguments.
-/
namespace TokenForge

-- =========================================================== the pieces

/-- Who may call a function. -/
inductive Visibility where
  /-- The contract and its heirs. -/
  | inside
  /-- Everybody. -/
  | everywhere
  /-- Everybody but the contract. -/
  | outside
  deriving DecidableEq, Repr

/-- The keyword of a visibility. -/
def Visibility.keyword : Visibility → String
  | .inside => "internal"
  | .everywhere => "public"
  | .outside => "external"

/-- What a function does with the contract's state and with ether. -/
inductive Mutability where
  /-- Writes state, takes no ether: the default, which has no keyword. -/
  | nonPayable
  /-- Reads state. -/
  | view
  /-- Neither reads nor writes state. -/
  | pure
  /-- Writes state, takes ether. -/
  | payable
  deriving DecidableEq, Repr

/-- The keyword of a mutability, if it has one. -/
def Mutability.keyword? : Mutability → Option String
  | .nonPayable => none
  | .view => some "view"
  | .pure => some "pure"
  | .payable => some "payable"

/-- A named argument; the type has its data location, as in `string memory`. -/
structure Argument where
  name : String
  type : String
  deriving DecidableEq, Repr

/-- An argument as written in a heading. -/
def Argument.text (a : Argument) : String := a.type ++ " " ++ a.name

-- ========================================================= declarations

/-- Everything about a function but its body. -/
structure Declaration where
  name : String
  visibility : Visibility
  args : List Argument := []
  /-- The result types. -/
  returns : List String := []
  mutability : Mutability := .nonPayable
  /-- The documentation line above the function. -/
  doc? : Option String := none
  deriving DecidableEq, Repr

/-- What tells functions of one contract apart: the name and the types. -/
structure Signature where
  name : String
  types : List String
  deriving DecidableEq, Repr

/-- The written form `name(type,type)`. -/
def Signature.text (s : Signature) : String :=
  s.name ++ "(" ++ ",".intercalate s.types ++ ")"

/-- The signature of the declared function. -/
def Declaration.signature (d : Declaration) : Signature :=
  ⟨d.name, d.args.map (·.type)⟩

end TokenForge
