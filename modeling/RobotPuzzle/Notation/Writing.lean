import RobotPuzzle.Notation.Words
import RobotPuzzle.Program.Basic
import RobotPuzzle.Text.Decimal

/-!
# Writing the notation

Every instruction is written as one word and a loop as its count and its body in braces, with single
spaces between the parts.

## Main definitions

- `parts` — the parts of a written tree
- `write` — the text of a tree
- `Program.text` — the text of a program
-/

namespace RobotPuzzle

namespace Notation

/-- The part that begins a loop. -/
def loopHead (count : Nat) : List Char :=
  wordOfKind .loop ++ '*' :: decimal count ++ [' ', '\x7b']

/-- The parts of a written tree. -/
def parts {α : Type} : Forest α → List (List Char)
  | .nil => []
  | .command _ c rest => wordOfKind c.kind :: parts rest
  | .loop _ count body rest => loopHead count :: (parts body ++ ['\x7d'] :: parts rest)

/-- The text of a tree. -/
def write {α : Type} (f : Forest α) : List Char := [' '].intercalate (parts f)

/-- Labels are not written. -/
theorem write_map {α β : Type} (φ : α → β) (f : Forest α) : write (f.map φ) = write f := by
  have h : parts (f.map φ) = parts f := by
    induction f with
    | nil => rfl
    | command a c rest ih => simp [Forest.map, parts, ih]
    | loop a n body rest ihb ihr => simp [Forest.map, parts, ihb, ihr]
  simp [write, h]

end Notation

/-- The text of a program. -/
def Program.text (p : Program) : List Char := Notation.write p.forest

end RobotPuzzle
