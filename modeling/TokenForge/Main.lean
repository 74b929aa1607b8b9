/-
The program on the real file system. It decides what to do exactly as
`Workspace.invoke` does, and only then reads, writes and prints.
-/
import TokenForge.Command.Outcome

namespace TokenForge

/-- The text of a file, if it can be read and is UTF-8. -/
def readFileText? (path : String) : IO (Option String) := do
  try
    let bytes ← IO.FS.readBinFile path
    return String.fromUTF8? bytes
  catch _ => return none

/-- Whether a path leads to something. -/
def fileExists (path : String) : IO Bool := do
  try
    let _ ← IO.FS.realPath path
    return true
  catch _ => return false

/-- Writes a file as its rule says; none if it cannot be written. -/
def saveFile (f : OutputFile) : IO (Option WriteResult) := do
  if f.overwrite = .ifMissing then
    if ← fileExists f.path then return some .skipped
  try
    let parent := Path.parent f.path
    unless parent = "" do IO.FS.createDirAll parent
    IO.FS.writeFile f.path f.content
    return some .written
  catch _ => return none

/-- The file that arguments make the program read. -/
def recordPath? (args : List String) : Option String :=
  match Request.parse args with
  | .ok (.run command) => command.recordPath?
  | _ => none

/-- Does an action. -/
def performAction : Action → IO Outcome
  | .show text => return .success text
  | .fail message => return .failure message
  | .misuse message => return .misuse message
  | .write file report => return .ofWrite file report (← saveFile file)

end TokenForge

open TokenForge

/-- Runs the program. -/
def main (args : List String) : IO UInt32 := do
  let text? ← match recordPath? args with
    | some path => readFileText? path
    | none => pure none
  let outcome ← performAction (Request.actionOf (fun _ => text?) args)
  IO.print outcome.output
  unless outcome.complaint = "" do IO.eprintln outcome.complaint
  return outcome.code.toUInt32
