/-
What an invocation does: it shows a text, writes a file and reports it, or
fails. What a command does depends on the files only through the text of the
record it reads, so it is decided before anything is changed.
-/
import TokenForge.Command.Arguments
import TokenForge.Options.Template
import TokenForge.Options.Validation
import TokenForge.Token.Generate
import TokenForge.Workspace.OutputFile

namespace TokenForge

-- ================================================================= actions

/-- What an invocation does. -/
inductive Action where
  /-- Shows a text. -/
  | show (text : String)
  /-- Writes a file and shows what came of it. -/
  | write (file : OutputFile) (report : WriteResult → String)
  /-- Fails with a message. -/
  | fail (message : String)
  /-- Explains what was wrong with the invocation. -/
  | misuse (message : String)

/-- A document from a file, if the file can be read as text. -/
def Document.load (read : String → Option String) (path : String) :
    Except Diagnostic Document :=
  match read path with
  | some text => .ok ⟨text, path⟩
  | none => .error (.unreadable path)

/-- The valid record in a file, with its document. -/
def Document.open (read : String → Option String) (path : String) :
    Except Diagnostic (Document × OptionRecord) := do
  let d ← Document.load read path
  let r ← d.read
  .ok (d, r)

-- ================================================================= reports

/-- The line about a function that overrides its bases. -/
def Method.overrideLine (m : Method) (mark : OverrideMark) : String :=
  "    " ++ m.decl.name ++ " (" ++ ", ".intercalate (mark.ancestors m) ++ ")\n"

/-- The line about the bases. -/
def Contract.basesLine (c : Contract) : String :=
  if c.bases.isEmpty then ""
  else "  parents: " ++ ", ".intercalate c.baseNames ++ "\n"

/-- The lines about the overriding functions. -/
def Contract.overridesText (marked : List (Method × OverrideMark)) : String :=
  let overriding := marked.filter fun (_, mark) => mark != .new
  if overriding.isEmpty then ""
  else "  overrides:\n"
    ++ String.join (overriding.map fun (m, mark) => m.overrideLine mark)

/-- The paragraph about a contract. -/
def Contract.summary (c : Contract) : Except ContractError String := do
  let marked ← c.marked
  .ok ("contract " ++ c.name
    ++ (if c.upgradeable then " [upgradeable]" else "") ++ "\n"
    ++ c.basesLine ++ overridesText marked ++ "\n")

/-- What the validation of a record shows. -/
def OptionRecord.report (r : OptionRecord) (config : String) :
    Except ContractError String := do
  let contracts ← r.contracts
  let summaries ← contracts.mapM Contract.summary
  .ok (r.name ++ " (" ++ r.standard.name ++ ")\n\n" ++ String.join summaries
    ++ "✓ " ++ config ++ " is valid\n")

/-- What is shown after a starting record was written, or was not. -/
def Standard.startReport (s : Standard) (output : String) :
    WriteResult → String
  | .written =>
    "Created " ++ s.name ++ " option record in " ++ output
      ++ "\n\nNext steps:\n"
      ++ "  solwiz check -c " ++ output ++ "\n  solwiz generate -c "
        ++ output ++ "\n"
  | .skipped => output ++ " already exists, use --force to replace it\n"

-- ================================================================ commands

namespace Command

/-- The file that a command reads. -/
def recordPath? : Command → Option String
  | .check config => some config
  | .generate config _ _ _ => some config
  | _ => none

/-- The words that complete a command line. -/
def completionWords : String := "init check generate completions help"

/-- The completions for a shell. -/
def completionScript : Shell → String
  | .bash => "complete -W \"" ++ completionWords ++ "\" solwiz\n"
  | .elvish =>
    "set edit:completion:arg-completer[solwiz] = \x7b|@words| put "
      ++ completionWords ++ " \x7d\n"
  | .fish => "complete -c solwiz -f -a \"" ++ completionWords ++ "\"\n"
  | .powershell =>
    "Register-ArgumentCompleter -Native -CommandName solwiz "
      ++ "-ScriptBlock \x7b \"" ++ completionWords ++ "\" -split \" \" \x7d\n"
  | .zsh => "#compdef solwiz\ncompadd " ++ completionWords ++ "\n"

/-- The action that shows a text, or fails as its computation did. -/
def showing : Except ContractError String → Action
  | .ok text => .show text
  | .error e => .fail e.message

/-- The action on a record whose source was printed. -/
def generating (r : OptionRecord) (output? : Option String) (dryRun : Bool) :
    Except ContractError String → Action
  | .error e => .fail e.message
  | .ok source =>
    if dryRun then .show source
    else
      let output := output?.getD (r.name ++ ".sol")
      .write ⟨output, source, .always⟩ fun _ => "Generated: " ++ output ++ "\n"

/-- What a command does, given the texts of files. -/
def action (read : String → Option String) : Command → Action
  | .start kind output force =>
    let standard := Standard.sanitize kind
    .write ⟨output, standard.template, if force then .always else .ifMissing⟩
      (standard.startReport output)
  | .check config =>
    match Document.open read config with
    | .error e => .fail e.message
    | .ok (_, r) => showing (r.report config)
  | .generate config output? versioned dryRun =>
    match Document.open read config with
    | .error e => .fail e.message
    | .ok (_, r) => generating r output? dryRun (r.source versioned)
  | .completions shell => .show (completionScript shell)

end Command

-- ============================================================= invocations

namespace Request

/-- The release of the program. -/
def versionText : String := "solwiz 0.5.0\n"

/-- How the program is used. -/
def helpText : String :=
  "Generate Solidity token contracts from TOML option records\n\n"
    ++ "Usage: solwiz <COMMAND>\n\n"
    ++ "Commands:\n"
    ++ "  init         Write a starter option record "
      ++ "[-k KIND] [-o PATH] [--force]\n"
    ++ "  check        Validate an option record and show its contracts "
      ++ "[-c PATH]\n"
    ++ "  generate     Render Solidity source "
      ++ "[-c PATH] [-o PATH] [--versioned] [--dry-run]\n"
    ++ "  completions  Generate shell completions <SHELL>\n"
    ++ "  help         Print this message\n"

/-- What a request does, given the texts of files. -/
def action (read : String → Option String) : Request → Action
  | .run command => command.action read
  | .version => .show versionText
  | .help _ => .show helpText

/-- What arguments do, given the texts of files. -/
def actionOf (read : String → Option String) (args : List String) : Action :=
  match parse args with
  | .ok request => request.action read
  | .error e => .misuse e.message

end Request

-- ================================================================ outcomes

/-- What the caller of the program sees. -/
structure Outcome where
  /-- Zero for success, one for a failure, two for a wrong invocation. -/
  code : Nat
  output : String
  /-- What is said about a failure. -/
  complaint : String
  deriving DecidableEq, Repr

namespace Outcome

/-- A success. -/
def success (output : String) : Outcome := ⟨0, output, ""⟩

/-- A failure. -/
def failure (message : String) : Outcome := ⟨1, "", message⟩

/-- A wrong invocation. -/
def misuse (message : String) : Outcome := ⟨2, "", message⟩

/-- The outcome of writing a file. -/
def ofWrite (file : OutputFile) (report : WriteResult → String) :
    Option WriteResult → Outcome
  | some result => .success (report result)
  | none => .failure ("Failed to write " ++ file.path)

end Outcome

/-- Does an action in a workspace. -/
def Workspace.perform (w : Workspace) : Action → Outcome × Workspace
  | .show text => (.success text, w)
  | .fail message => (.failure message, w)
  | .misuse message => (.misuse message, w)
  | .write file report =>
    match w.save file with
    | (w, result) => (.ofWrite file report result, w)

/-- Invokes the program in a workspace. -/
def Workspace.invoke (w : Workspace) (args : List String) :
    Outcome × Workspace :=
  w.perform (Request.actionOf w.readText? args)

end TokenForge
