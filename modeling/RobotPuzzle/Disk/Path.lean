/-!
# Paths

Paths are texts with slashes between their parts. Some parts are components: names, and the two points
of the directory above. Empty parts and single points are none, but for a point at the very start.

## Main definitions

- `Path.parts`, `Path.ending?` — the parts of a path
- `Path.ancestors` — a path and the texts of the directories above it
- `Path.directories` — the texts of the directories a path lies in
- `Path.temporary` — the path of the file that is written before it takes the place of another
-/

namespace RobotPuzzle.Path

/-- The parts of a text between slashes. -/
def parts : List Char → List (List Char)
  | [] => [[]]
  | c :: rest =>
    if c = '/' then [] :: parts rest
    else
      match parts rest with
      | [] => [[c]]
      | first :: more => (c :: first) :: more

/-- The part for the directory above. -/
def above : List Char := ['.', '.']

/-- The part is a component. -/
def isComponent (part : List Char) : Bool := part != [] && part != ['.']

/-- The path begins at the root. -/
def isAbsolute (path : String) : Bool := path.toList.head? == some '/'

/-- The path ends in a slash. -/
def endsInSlash (path : String) : Bool := path.toList.getLast? == some '/'

/-- The last part of a path that is not empty, and the parts before it. -/
structure Ending where
  front : List (List Char)
  last : List Char

/-- The ending of a path that is not just slashes. -/
def ending? (path : String) : Option Ending :=
  match (parts path.toList).reverse.dropWhile (· == []) with
  | [] => none
  | last :: rest => some ⟨rest.reverse, last⟩

/-! ## Texts of paths -/

/-- A path in two pieces. -/
structure Pieces where
  /-- The slash of the root or the point of the working directory, if the path begins with one. -/
  head : List Char
  /-- The parts of the rest, last first. -/
  body : List (List Char)

/-- The pieces of a path. -/
def pieces (path : String) : Pieces :=
  match path.toList with
  | '/' :: rest => ⟨['/'], (parts rest).reverse⟩
  | ['.'] => ⟨['.'], []⟩
  | '.' :: '/' :: rest => ⟨['.'], (parts ('/' :: rest)).reverse⟩
  | cs => ⟨[], (parts cs).reverse⟩

/-- The text of some pieces. -/
def Pieces.text (p : Pieces) : String :=
  String.ofList (p.head ++ ['/'].intercalate p.body.reverse)

/-- The texts of a body that end in one of its components, longest first, and then the head. -/
def ancestorsOf (head : List Char) : List (List Char) → List String
  | [] => if head = [] then [] else [String.ofList head]
  | part :: rest =>
    if isComponent part then Pieces.text ⟨head, part :: rest⟩ :: ancestorsOf head rest
    else ancestorsOf head rest

/-- A path and the texts of the directories above it, longest first, each up to a component. -/
def ancestors (path : String) : List String :=
  let p := pieces path
  ancestorsOf p.head p.body

/-- The text of the working directory. -/
def here : String := "."

/-- The texts of the directories a path lies in, longest first. -/
def directories (path : String) : List String :=
  match (ancestors path).tail with
  | [] => [here]
  | found => found

/-- The text of the directory a path lies in. -/
def parentText (path : String) : String := (directories path).headD here

/-- A file name up to the point of its extension, if it has one. A point at the start of a name begins
no extension. -/
def stem? (name : List Char) : Option (List Char) :=
  match (name.reverse.dropWhile (· != '.')).drop 1 with
  | [] => none
  | front => some front.reverse

/-- The extension of the file that is written first. -/
def temporaryExtension : List Char := ".toml.tmp".toList

/-- The path of the file that is written before it takes the place of the file of a path. The extension
is cut off before another is added. What this leaves of a name such as `..x` means the directory above,
and a path that ends in no name stays as it is. -/
def temporary (path : String) : String :=
  let p := pieces path
  match p.body.dropWhile (!isComponent ·) with
  | [] => path
  | name :: rest =>
    if name = above then path
    else
      match stem? name with
      | none => Pieces.text ⟨p.head, (name ++ temporaryExtension) :: rest⟩
      | some stem =>
        if stem = ['.'] ∧ p.body = name :: rest then
          Pieces.text ⟨p.head, above :: rest⟩
        else Pieces.text ⟨p.head, (stem ++ temporaryExtension) :: rest⟩

end RobotPuzzle.Path
