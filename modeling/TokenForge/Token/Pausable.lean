/-
Pausing: while the contract is paused the given functions refuse to run, and
two privileged functions start and end the pause.
-/
import TokenForge.Token.Access

namespace TokenForge.Token

/-- Starts a pause. -/
def pause : Declaration where
  name := "pause"
  visibility := .everywhere

/-- Ends a pause. -/
def unpause : Declaration where
  name := "unpause"
  visibility := .everywhere

/-- The functions of the feature. -/
def pausableCatalog : Catalog :=
  .ofList [("pause", pause), ("unpause", unpause)]

/-- Makes functions depend on the pause and adds the two privileged ones. -/
def addPausable (access : Access) (functions : List Declaration) :
    Assembly Unit := do
  inherit "Pausable" "security/Pausable.sol" []
  guard "whenNotPaused" functions
  let pause ← lookUp pausableCatalog "pause"
  let unpause ← lookUp pausableCatalog "unpause"
  restrict access "PAUSER" [pause, unpause]
  Assembly.appendLine "_pause();" pause
  Assembly.appendLine "_unpause();" unpause

end TokenForge.Token
