/-
The commands a user can give, and what an invocation of the program can ask
for.
-/
namespace TokenForge

/-- A shell that completions can be made for. -/
inductive Shell where
  | bash
  | elvish
  | fish
  | powershell
  | zsh
  deriving DecidableEq, Repr

/-- All shells. -/
def Shell.all : List Shell := [.bash, .elvish, .fish, .powershell, .zsh]

/-- The name of a shell. -/
def Shell.name : Shell → String
  | .bash => "bash"
  | .elvish => "elvish"
  | .fish => "fish"
  | .powershell => "powershell"
  | .zsh => "zsh"

/-- The shell of an exact name. -/
def Shell.ofName? (name : String) : Option Shell :=
  Shell.all.find? fun s => s.name = name

/-- A command with its options. -/
inductive Command where
  /-- Writes a starting record for the standard that `kind` means. -/
  | start (kind output : String) (force : Bool)
  /-- Validates a record and shows its contracts. -/
  | check (config : String)
  /-- Writes the source of a record. -/
  | generate (config : String) (output? : Option String)
      (versioned dryRun : Bool)
  /-- Shows the completions for a shell. -/
  | completions (shell : Shell)
  deriving DecidableEq, Repr

/-- The record that commands read and write unless told otherwise. -/
def Command.defaultRecord : String := "solwiz.toml"

/-- What an invocation asks for. -/
inductive Request where
  | run (command : Command)
  /-- The release of the program. -/
  | version
  /-- An explanation of the program or of one of its commands. -/
  | help (topic? : Option String)
  deriving DecidableEq, Repr

end TokenForge
