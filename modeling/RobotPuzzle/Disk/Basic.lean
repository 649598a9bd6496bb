import RobotPuzzle.Disk.Place

/-!
# Disks

The files and directories of a file system, as a value.

## Main definitions

- `Disk` — files with their contents, and directories
- `Disk.file?`, `Disk.isDirectory` — what is at a place
- `Disk.put`, `Disk.erase` — the disk with a file more or less
- `SystemError` — why the system does not do what it is asked

## Main statements

- `Disk.file?_put_self`, `Disk.file?_put_of_ne` — the files after one is put in its place
-/

namespace RobotPuzzle

/-- Why the system does not do what it is asked. -/
inductive SystemError
  | notFound
  | busy
  | alreadyExists
  | notDirectory
  | isDirectory
  | nameTooLong
  /-- The path holds the character that ends texts in the system. -/
  | endMark
deriving DecidableEq, Repr

/-- The system's message about an error. -/
def SystemError.message : SystemError → String
  | notFound => "No such file or directory (os error 2)"
  | busy => "Device or resource busy (os error 16)"
  | alreadyExists => "File exists (os error 17)"
  | notDirectory => "Not a directory (os error 20)"
  | isDirectory => "Is a directory (os error 21)"
  | nameTooLong => "File name too long (os error 36)"
  | endMark => "file name contained an unexpected NUL byte"

/-- A file: its place and its contents. -/
structure File where
  place : Place
  contents : ByteArray

instance : DecidableEq File := fun a b =>
  have := ByteArray.decEq a.contents b.contents
  decidable_of_iff (a.place = b.place ∧ a.contents = b.contents) <| by
    rw [← File.mk.injEq]

/-- Files and directories. Anchors are directories of every disk. -/
structure Disk where
  files : List File
  directories : List Place
deriving DecidableEq

namespace Disk

/-- A disk with no files, and no directories but the anchors. -/
def empty : Disk := ⟨[], []⟩

/-- The file at a place, if there is one. -/
def file? (d : Disk) (p : Place) : Option File := d.files.find? (·.place = p)

/-- There is a file at the place. -/
def isFile (d : Disk) (p : Place) : Bool := (d.file? p).isSome

/-- There is a directory at the place. -/
def isDirectory (d : Disk) (p : Place) : Bool := p.names = [] || p ∈ d.directories

/-- There is a file or a directory at the place. -/
def isThere (d : Disk) (p : Place) : Bool := d.isFile p || d.isDirectory p

/-- The disk with some directories more. -/
def addDirectories (d : Disk) (places : List Place) : Disk :=
  { d with directories := places.foldr List.insert d.directories }

/-- The disk with a directory, and the directories it lies in. -/
def addDirectory (d : Disk) (p : Place) : Disk := d.addDirectories (p :: p.directories)

/-- The disk with a file in the place of any other file there, and the directories it lies in. -/
def put (d : Disk) (p : Place) (contents : ByteArray) : Disk :=
  { d.addDirectories p.directories with
    files := d.files.filter (·.place ≠ p) ++ [⟨p, contents⟩] }

/-- The disk without the file at a place. -/
def erase (d : Disk) (p : Place) : Disk :=
  { d with files := d.files.filter (·.place ≠ p) }

@[simp] theorem file?_put_self (d : Disk) (p : Place) (contents : ByteArray) :
    (d.put p contents).file? p = some ⟨p, contents⟩ := by
  have none_left : (d.files.filter (·.place ≠ p)).find? (·.place = p) = none := by
    simp [List.find?_eq_none]
  simp only [file?, put, List.find?_append, none_left]
  simp

theorem file?_put_of_ne (d : Disk) {p q : Place} (contents : ByteArray) (h : q ≠ p) :
    (d.put p contents).file? q = d.file? q := by
  simp only [file?, put, List.find?_append, List.find?_filter]
  simp only [List.find?_cons, List.find?_nil, h.symm, decide_false, Option.or_none]
  congr 1
  funext f
  by_cases hf : f.place = q
  · simp [hf, h]
  · simp [hf]

end Disk

end RobotPuzzle
