import RobotPuzzle.Disk.Basic

/-!
# Walks along paths

The system walks along a path part by part. Each part but the first needs a directory before it, even
if it is a part that leads nowhere else.

## Main definitions

- `Disk.step`, `Disk.walk` — walk along parts of paths
- `Disk.resolve` — the place at the end of a path
- `Disk.target?` — the place that a path gives a name to, which need not be there
- `Disk.contains`, `Disk.read` — what a path leads to
-/

namespace RobotPuzzle

namespace Disk

/-- The longest name, in bytes. -/
def nameLimit : Nat := 255

/-- The length of the shortest path that is too long, in bytes. -/
def pathLimit : Nat := 4096

/-- The name is too long. -/
def isLong (name : List Char) : Bool := nameLimit < (String.ofList name).utf8ByteSize

/-- Why the system does not walk along a path at all. -/
def refusal? (path : String) : Option SystemError :=
  if '\x00' ∈ path.toList then some .endMark
  else if path = "" then some .notFound
  else if pathLimit ≤ path.utf8ByteSize then some .nameTooLong
  else none

/-- Walk along one part of a path. -/
def step (d : Disk) (p : Place) (part : List Char) : Except SystemError Place :=
  let next := p.follow part
  if d.isFile p then .error .notDirectory
  else if isLong part then .error .nameTooLong
  else if d.isThere next then .ok next
  else .error .notFound

/-- Walk along the first parts of a path. -/
def walk (d : Disk) (path : String) (parts : List (List Char)) : Except SystemError Place :=
  parts.foldlM d.step (Place.start path)

/-- The place at the end of a path. -/
def resolve (d : Disk) (path : String) : Except SystemError Place :=
  match refusal? path with
  | some e => .error e
  | none => d.walk path (Path.parts path.toList)

/-- The place that a path gives a name to. It need not be there, but the directory it lies in must be.
There is none if the path ends in points or at the root. -/
def target? (d : Disk) (path : String) : Except SystemError (Option Place) :=
  match refusal? path with
  | some e => .error e
  | none =>
    match Path.ending? path with
    | none => .ok none
    | some ending => do
      -- the empty part makes sure that the front leads to a directory
      let directory ← d.walk path (ending.front ++ [[]])
      if ending.last = ['.'] ∨ ending.last = Path.above then .ok none
      else if isLong ending.last then .error .nameTooLong
      else .ok (some (directory.down (String.ofList ending.last)))

/-- The path leads to a file or a directory. -/
def contains (d : Disk) (path : String) : Bool := (d.resolve path).isOk

/-- The path leads to a directory. -/
def leadsToDirectory (d : Disk) (path : String) : Bool :=
  match d.resolve path with
  | .ok p => d.isDirectory p
  | .error _ => false

/-- Why a file cannot be read as text. -/
inductive ReadError
  | system (e : SystemError)
  | notText
deriving DecidableEq, Repr

/-- The message about a file that cannot be read. -/
def ReadError.message : ReadError → String
  | system e => e.message
  | notText => "stream did not contain valid UTF-8"

/-- The text of a file. -/
def read (d : Disk) (path : String) : Except ReadError String :=
  match d.resolve path with
  | .error e => .error (.system e)
  | .ok p =>
    match d.file? p with
    | none => .error (.system .isDirectory)
    | some f =>
      match String.fromUTF8? f.contents with
      | some text => .ok text
      | none => .error .notText

end Disk

end RobotPuzzle
