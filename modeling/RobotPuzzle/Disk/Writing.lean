import RobotPuzzle.Disk.Walk

/-!
# Writing files

A file is written by way of a temporary one that takes its place, so that no reader ever finds half a
file.

## Main definitions

- `Disk.makeDirectory`, `Disk.makeDirectories` — make a directory, and those it lies in
- `Disk.writeFile` — write a file that may be there already
- `Disk.rename` — move a file to another place
- `Disk.replaceFile` — all of them in turn
-/

namespace RobotPuzzle.Disk

/-- Make a directory. -/
def makeDirectory (d : Disk) (path : String) : Except SystemError Disk := do
  match ← d.target? path with
  | none => .error .alreadyExists
  | some p => if d.isThere p then .error .alreadyExists else .ok (d.addDirectory p)

/-- Make a directory unless it is there. -/
def ensureDirectory (d : Disk) (path : String) : Except SystemError Disk :=
  match d.makeDirectory path with
  | .error .alreadyExists => if d.leadsToDirectory path then .ok d else .error .alreadyExists
  | result => result

/-- Make the first of some directories, each of which lies in the next. Those that are missing are made
before it, and they stay if it cannot be made. -/
def makeDirectories (d : Disk) : List String → Except SystemError Unit × Disk
  | [] => (.ok (), d)
  | path :: outer =>
    match d.ensureDirectory path with
    | .ok d => (.ok (), d)
    | .error .notFound =>
      match d.makeDirectories outer with
      | (.error e, d) => (.error e, d)
      | (.ok (), d) =>
        match d.ensureDirectory path with
        | .ok d => (.ok (), d)
        | .error e => (.error e, d)
    | .error e => (.error e, d)

/-- Write a file, in the place of any other file there. -/
def writeFile (d : Disk) (path : String) (contents : ByteArray) : Except SystemError Disk := do
  match ← d.target? path with
  | none => .error .isDirectory
  | some p =>
    if d.isDirectory p || Path.endsInSlash path then .error .isDirectory
    else .ok (d.put p contents)

/-- Move a file to another place, where it takes the place of any other file. -/
def rename (d : Disk) (source path : String) : Except SystemError Disk := do
  match ← d.target? source, ← d.target? path with
  | some p, some q =>
    match d.file? p with
    | none => .error .notFound
    | some f =>
      if Path.endsInSlash path then .error .notDirectory
      else if d.isDirectory q then .error .isDirectory
      else .ok ((d.erase p).put q f.contents)
  | _, _ => .error .busy

/-- Why a file cannot be written, with the path of the directory or file that could not be made. -/
inductive WriteError
  | directory (path : String) (e : SystemError)
  | temporary (path : String) (e : SystemError)
  | target (path : String) (e : SystemError)
deriving DecidableEq, Repr

/-- The message about a file that cannot be written. -/
def WriteError.message : WriteError → String
  | directory path e => s!"create directory {path}: {e.message}"
  | temporary path e => s!"write temp config {path}: {e.message}"
  | target path e => s!"replace config {path}: {e.message}"

/-- Write a file by way of a temporary one. The directories it lies in are made. The result comes with
the disk as it is left. -/
def replaceFile (d : Disk) (path text : String) : Except WriteError Unit × Disk :=
  let temporary := Path.temporary path
  match d.makeDirectories (Path.directories path) with
  | (.error e, d) => (.error (.directory (Path.parentText path) e), d)
  | (.ok (), d) =>
    match d.writeFile temporary text.toUTF8 with
    | .error e => (.error (.temporary temporary e), d)
    | .ok d =>
      match d.rename temporary path with
      | .error e => (.error (.target path e), d)
      | .ok d => (.ok (), d)

end RobotPuzzle.Disk
