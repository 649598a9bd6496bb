import RobotPuzzle.Program.Instruction

/-!
# Words of the notation

The words an instruction may be called by, and the one word it is written with.

## Main definitions

- `kindOfWord?` — the kind a word calls, whatever the case of its letters
- `wordOfKind` — the word a kind is written with

## Main statements

- `kindOfWord?_wordOfKind` — the written word calls its kind
-/

namespace RobotPuzzle.Notation

/-- The words of each kind, in lower case. -/
def wordTable : List (List Char × Kind) :=
  [("forward".toList, .forward), ("f".toList, .forward),
   ("back".toList, .back), ("b".toList, .back),
   ("left".toList, .turnLeft), ("l".toList, .turnLeft), ("turn_left".toList, .turnLeft),
   ("right".toList, .turnRight), ("r".toList, .turnRight), ("turn_right".toList, .turnRight),
   ("wait".toList, .wait), ("w".toList, .wait),
   ("jump".toList, .jump), ("j".toList, .jump),
   ("stop".toList, .stop), ("s".toList, .stop),
   ("loop".toList, .loop), ("repeat".toList, .loop)]

/-- The kind a word calls. Only the case of ASCII letters is ignored. -/
def kindOfWord? (letters : List Char) : Option Kind :=
  (wordTable.find? (·.1 == letters.map Char.toLower)).map (·.2)

/-- The word a kind is written with. -/
def wordOfKind : Kind → List Char
  | .forward => "forward".toList
  | .back => "back".toList
  | .turnLeft => "left".toList
  | .turnRight => "right".toList
  | .wait => "wait".toList
  | .jump => "jump".toList
  | .loop => "loop".toList
  | .stop => "stop".toList

@[simp] theorem kindOfWord?_wordOfKind (k : Kind) : kindOfWord? (wordOfKind k) = some k := by
  cases k <;> decide

end RobotPuzzle.Notation
