/-
The constructor of a contract. A plain contract calls the constructors of
its bases in the heading. An upgradeable one locks its constructor and moves
everything into a function `initialize`, which calls the initializers of all
bases but `Initializable` itself, also those without arguments.
-/
import TokenForge.Source.Heading
import TokenForge.Source.Naming

namespace TokenForge

-- ============================================================ base calls

/-- Whether a base has an initializer of its own to call. -/
def Base.isInitialized (b : Base) : Bool := b.name != "Initializable"

/-- The arguments passed to a base, in parentheses. -/
def Base.argsText (b : Base) : String :=
  "(" ++ ", ".intercalate (b.args.map Value.render) ++ ")"

/-- The call of a base's constructor. -/
def Base.constructorCall (b : Base) : String := b.name ++ b.argsText

/-- The call of a base's initializer. -/
def Base.initializerCall (b : Base) : String :=
  "__" ++ b.name ++ "_init" ++ b.argsText

namespace Contract

/-- The bases that have something to initialize. -/
def initializedBases (c : Contract) : List Base :=
  c.bases.filter Base.isInitialized

-- ============================================================ the section

/-- Whether the contract needs a constructor at all. -/
def needsConstructor (c : Contract) : Bool :=
  c.bases.any (fun b => !b.args.isEmpty) || !c.constructorArgs.isEmpty
    || !c.constructorCode.isEmpty
      || (c.upgradeable && !c.initializedBases.isEmpty)

/-- The constructor of a plain contract. -/
def plainConstructor (c : Contract) : List Fragment :=
  Callable.fragments {
    title := "constructor"
    args := c.constructorArgs.map Argument.text
    modifiers := (c.initializedBases.filter
      fun b => !b.args.isEmpty).map Base.constructorCall
    body := c.constructorCode.map .line }

/-- The locked constructor of an upgradeable contract. -/
def lockedConstructor : List Fragment :=
  [.line "/// @custom:oz-upgrades-unsafe-allow constructor",
    .line "constructor() initializer \x7b\x7d"]

/-- The function that initializes an upgradeable contract. -/
def initializeFunction (c : Contract) : List Fragment :=
  Callable.fragments {
    title := "function initialize"
    args := c.constructorArgs.map Argument.text
    modifiers := ["initializer public"]
    body := Fragment.joinSections [
      c.initializedBases.map fun b => .line (b.initializerCall ++ ";"),
      c.constructorCode.map .line] }

/-- Everything that sets a new contract up. -/
def constructorSection (c : Contract) : List Fragment :=
  if !c.needsConstructor then []
  else if c.upgradeable then
    Fragment.joinSections [lockedConstructor, c.initializeFunction]
  else c.plainConstructor

end Contract

end TokenForge
