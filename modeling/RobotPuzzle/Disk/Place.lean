import RobotPuzzle.Disk.Path

/-!
# Places

A place is where a path leads to: a directory that is always there, and names below it.

## Main definitions

- `Anchor` — the directories that are always there
- `Place` — a directory or a file below one of them
- `Place.follow` — the place a part of a path leads to
- `Place.text` — a path that leads to a place

## Main statements

- `Place.up_down` — the directory above a name in a directory is that directory
-/

namespace RobotPuzzle

/-- A directory that is always there. -/
inductive Anchor
  /-- The working directory, or the one so many levels above it. -/
  | above (levels : Nat)
  | root
deriving DecidableEq, Repr

/-- The directory above an anchor. The root is above itself. -/
def Anchor.up : Anchor → Anchor
  | above levels => above (levels + 1)
  | root => root

/-- A place below an anchor. -/
structure Place where
  anchor : Anchor
  /-- The names that lead to it, last first. -/
  names : List String
deriving DecidableEq, Repr

namespace Place

/-- The working directory. -/
def here : Place := ⟨.above 0, []⟩

/-- The root directory. -/
def root : Place := ⟨.root, []⟩

/-- A name in a directory. -/
def down (p : Place) (name : String) : Place := { p with names := name :: p.names }

/-- The directory above a place. -/
def up (p : Place) : Place :=
  match p.names with
  | [] => ⟨p.anchor.up, []⟩
  | _ :: names => { p with names }

@[simp] theorem up_down (p : Place) (name : String) : (p.down name).up = p := rfl

/-- The place that a part of a path leads to. Empty parts and single points lead nowhere else, two
points lead up, and every other part is a name. -/
def follow (p : Place) (part : List Char) : Place :=
  if !Path.isComponent part then p
  else if part = Path.above then p.up
  else p.down (String.ofList part)

/-- The place at which a path starts. -/
def start (path : String) : Place := if Path.isAbsolute path then root else here

/-- The place that a path leads to, if everything on the way is there. -/
def ofPath (path : String) : Place := (Path.parts path.toList).foldl follow (start path)

/-- The directories below an anchor that some names lead through, innermost first. -/
def directoriesOf (anchor : Anchor) : List String → List Place
  | [] => []
  | [_] => []
  | _ :: names => ⟨anchor, names⟩ :: directoriesOf anchor names

/-- The directories below its anchor that a place lies in, innermost first. -/
def directories (p : Place) : List Place := directoriesOf p.anchor p.names

/-- A path that leads to a place. -/
def text (p : Place) : String :=
  let names := "/".intercalate p.names.reverse
  match p.anchor with
  | .above levels => String.join (List.replicate levels "../") ++ names
  | .root => "/" ++ names

end Place

end RobotPuzzle
