import RobotPuzzle.CommandLine.Console

/-!
# The program

Reads the files an invocation may need into a disk, performs the invocation on it, and carries out
what it says: pauses, output, files and exit code.
-/

namespace RobotPuzzle.CommandLine

/-- The code of the system's error about a directory that is read like a file. -/
def isDirectoryCode : UInt32 := 21

/-- Take over from the file system what one path leads to. -/
def takeOverAt (d : Disk) (path : String) : IO Disk := do
  try
    let contents ← IO.FS.readBinFile path
    return d.put (Place.ofPath path) contents
  catch
    | .inappropriateType _ code _ =>
      return if code = isDirectoryCode then d.addDirectory (Place.ofPath path) else d
    | _ => return d

/-- Take over what a path leads to, and everything on the way there. -/
def takeOver (d : Disk) (path : String) : IO Disk :=
  (Path.ancestors path).reverse.foldlM takeOverAt d

/-- Take over what an invocation may read or replace: the settings, the file that is written before
them, and the catalog that they name. -/
def takeOverFor : Invocation → IO Disk
  | .version => return .empty
  | .request path _ => do
    let d ← takeOver (← takeOver .empty path) (Path.temporary path)
    match Settings.load d path with
    | .ok { catalog := some catalog, .. } => takeOver d catalog
    | _ => return d

/-- Make the directories and write the files that are new after an invocation. -/
def giveBack (before after : Disk) : Invocation → IO Unit
  | .version => return
  | .request path _ => do
    for p in after.directories do
      if p ∉ before.directories then IO.FS.createDirAll p.text
    for f in after.files do
      if f ∉ before.files then
        if f.place = Place.ofPath path then
          IO.FS.writeBinFile (Path.temporary path) f.contents
          IO.FS.rename (Path.temporary path) path
        else IO.FS.writeBinFile f.place.text f.contents

/-- Make the pauses of a run. -/
def pause (count delay : Nat) : IO Unit := do
  if 0 < delay then
    for _ in [0:count] do
      IO.sleep (UInt32.ofNat (min delay (Nat.pow 2 32 - 1)))

end RobotPuzzle.CommandLine

open RobotPuzzle RobotPuzzle.CommandLine in
/-- The program with its arguments. -/
def main (arguments : List String) : IO UInt32 := do
  match Invocation.read arguments with
  | .error e =>
    IO.eprintln s!"error: {e.message}"
    return UInt32.ofNat exitUsage
  | .ok invocation =>
    let before ← takeOverFor invocation
    let ending := perform before invocation
    pause ending.pauses ending.delay
    giveBack before ending.disk invocation
    IO.print (String.ofList ending.output)
    IO.eprint (String.ofList ending.complaint)
    return UInt32.ofNat ending.code
