/-
How a function of a contract is printed. A function that one base declares
and to which nothing was added needs no declaration of its own and is left
out. An overriding function whose body was not set as a whole ends in a call
of the same function of its bases.
-/
import TokenForge.Contract.Override
import TokenForge.Source.Heading
import TokenForge.Source.Naming

namespace TokenForge.Method

-- ============================================================ selection

/-- Whether nothing was added to the function itself. -/
def isBare (m : Method) : Bool :=
  m.modifiers.isEmpty && m.code.isEmpty && !m.isReplaced

/-- Whether the function is left out: it is as its only base has it. -/
def isOmitted (m : Method) : Bool := m.ancestors.length ≤ 1 && m.isBare

-- ============================================================== heading

/-- The word of an override mark, with the names the contract prints. -/
def overrideWord (c : Contract) : OverrideMark → List String
  | .new => []
  | .single => ["override"]
  | .several names =>
      ["override(" ++ ", ".intercalate (names.map c.shownName) ++ ")"]

/-- The word for the results. -/
def returnsWord (d : Declaration) : List String :=
  if d.returns.isEmpty then []
  else ["returns (" ++ ", ".intercalate d.returns ++ ")"]

/-- What follows the arguments in the heading. -/
def headingWords (c : Contract) (m : Method) (mark : OverrideMark) :
    List String :=
  m.decl.visibility.keyword :: m.decl.mutability.keyword?.toList ++ m.modifiers
    ++ overrideWord c mark ++ returnsWord m.decl

-- ================================================================= body

/-- The call of the same function of the bases. -/
def superCall (d : Declaration) : String :=
  let call := "super." ++ d.name ++ "("
      ++ ", ".intercalate (d.args.map (·.name)) ++ ");"
  if d.returns.isEmpty then call else "return " ++ call

/-- Whether the body ends in the call of the bases. -/
def callsSuper (m : Method) (mark : OverrideMark) : Bool :=
  mark != .new && !m.isReplaced

/-- The lines of the printed body. -/
def bodyLines (m : Method) (mark : OverrideMark) : List String :=
  m.code ++ if m.callsSuper mark then [superCall m.decl] else []

-- ============================================================== together

/-- The function ready to be laid out. -/
def callable (c : Contract) (m : Method) (mark : OverrideMark) : Callable where
  title := "function " ++ m.decl.name
  args := m.decl.args.map Argument.text
  modifiers := headingWords c m mark
  body := (m.bodyLines mark).map .line

/-- The documentation line. -/
def docLine (d : Declaration) : List Fragment :=
  d.doc?.toList.map fun doc => .line ("/// " ++ doc)

/-- The function as printed in a contract. -/
def fragments (c : Contract) (m : Method) (mark : OverrideMark) :
    List Fragment :=
  docLine m.decl ++ (m.callable c mark).fragments

end TokenForge.Method
