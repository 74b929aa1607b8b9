/-
Directories and files with a working directory, as far as a command can see
them. Places are lists of names from the root; everything that exists has an
entry, and the root is a directory without one.

A path is followed segment by segment, and each segment is taken in a
directory that exists: `a/../b` leads nowhere unless there is an `a`.
-/
import TokenForge.Workspace.Path

namespace TokenForge

/-- Names from the root. -/
abbrev Place := List String

/-- What stands at a place. -/
inductive Entry where
  | directory
  | file (bytes : ByteArray)

/-- Directories and files, and the directory where relative paths start. -/
structure Workspace where
  entries : List (Place × Entry)
  here : Place

namespace Workspace

-- ================================================================ looking

/-- What stands at a place. -/
def entry? (w : Workspace) (p : Place) : Option Entry :=
  if p = [] then some .directory else w.entries.lookup p

/-- Whether a place is a directory. -/
def isDirectory (w : Workspace) (p : Place) : Bool :=
  match w.entry? p with
  | some .directory => true
  | _ => false

/-- The place a segment leads to from a place, if it exists. -/
def follow? (w : Workspace) (p : Place) (segment : String) : Option Place :=
  if !w.isDirectory p then none
  else if Path.isStill segment then some p
  else if segment = ".." then some p.dropLast
  else if (w.entry? (p ++ [segment])).isSome then some (p ++ [segment])
  else none

/-- Where a path starts. -/
def startOf (w : Workspace) (path : String) : Place :=
  if Path.isAbsolute path then [] else w.here

/-- The existing place that a path leads to. -/
def place? (w : Workspace) (path : String) : Option Place :=
  if Path.isUsable path then
    (Path.segments path).foldlM w.follow? (w.startOf path) else none

/-- Whether a path leads to something. -/
def pathExists (w : Workspace) (path : String) : Bool := (w.place? path).isSome

/-- The bytes of the file that a path leads to. -/
def readBytes? (w : Workspace) (path : String) : Option ByteArray :=
  match (w.place? path).bind w.entry? with
  | some (.file bytes) => some bytes
  | _ => none

/-- The text of the file that a path leads to, if it is UTF-8. -/
def readText? (w : Workspace) (path : String) : Option String :=
  (w.readBytes? path).bind String.fromUTF8?

/-- The files below the working directory, by their names from it. -/
def filesHere (w : Workspace) : List (Place × ByteArray) :=
  w.entries.filterMap fun (p, e) =>
    match e with
    | .file bytes =>
        if w.here.isPrefixOf p then some (p.drop w.here.length, bytes)
        else none
    | .directory => none

-- =============================================================== changing

/-- The workspace with an entry at a place. -/
def put (w : Workspace) (p : Place) (e : Entry) : Workspace :=
  if (w.entries.lookup p).isSome then
    { w with entries := w.entries.map fun x => if x.1 = p then (p, e) else x }
  else { w with entries := w.entries ++ [(p, e)] }

/-- The place a segment leads to, made a directory if nothing is there. -/
def enter (w : Workspace) (p : Place) (segment : String) :
    Workspace × Option Place :=
  if !w.isDirectory p then (w, none)
  else if Path.isStill segment then (w, some p)
  else if segment = ".." then (w, some p.dropLast)
  else
    let q := p ++ [segment]
    match w.entry? q with
    | some .directory => (w, some q)
    | some (.file _) => (w, none)
    | none =>
        if Path.isUsableName segment then (w.put q .directory, some q)
        else (w, none)

/-- The place that segments lead to, missing directories made on the way. What
was made stays when a later segment fails. -/
def enterAll (w : Workspace) (p : Place) : Segments → Workspace × Option Place
  | [] => (w, some p)
  | s :: rest =>
    match w.enter p s with
    | (w, some q) => w.enterAll q rest
    | (w, none) => (w, none)

/-- The place of the file that a path names: its last segment is a name, and
the others lead to a directory. -/
def target? (w : Workspace) (path : String) : Option Place :=
  if !Path.isUsable path then none
  else
    match (Path.segments path).getLast? with
    | none => none
    | some name =>
      if Path.isStill name || name = ".." || !Path.isUsableName name then none
      else
        match (Path.segments path).dropLast.foldlM w.follow?
          (w.startOf path) with
        | some p => if w.isDirectory p then some (p ++ [name]) else none
        | none => none

/-- Writes a file into a directory that exists. -/
def writeExisting (w : Workspace) (path content : String) : Workspace × Bool :=
  match w.target? path with
  | none => (w, false)
  | some p =>
      if w.isDirectory p then (w, false)
      else (w.put p (.file content.toUTF8), true)

/-- Makes a directory and the directories on the way to it, and tells whether
it is there. The empty path is the directory where paths start. -/
def makeDirectories (w : Workspace) (path : String) : Workspace × Bool :=
  if path = "" then (w, true)
  else if !Path.isUsable path then (w, false)
  else
    let (w, place) := w.enterAll (w.startOf path) (Path.segments path)
    (w, place.isSome)

/-- Writes a file; missing directories on the way are made first. -/
def write (w : Workspace) (path content : String) : Workspace × Bool :=
  match w.makeDirectories (Path.parent path) with
  | (w, true) => w.writeExisting path content
  | (w, false) => (w, false)

end Workspace

end TokenForge
