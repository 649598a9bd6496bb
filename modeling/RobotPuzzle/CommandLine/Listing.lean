import RobotPuzzle.Board.Level
import RobotPuzzle.Program.Unrolling
import RobotPuzzle.Text.Decimal

/-!
# Listings

A level and a unit, each as one line of a table.

## Main definitions

- `padStart`, `padEnd` — text in a column
- `Level.row`, `Beat.row` — the line of a level and of a unit
-/

namespace RobotPuzzle

/-- Text at the right end of a column. Longer text is not cut. -/
def padStart (width : Nat) (cs : List Char) : List Char :=
  List.replicate (width - cs.length) ' ' ++ cs

/-- Text at the left end of a column. Longer text is not cut. -/
def padEnd (width : Nat) (cs : List Char) : List Char :=
  cs ++ List.replicate (width - cs.length) ' '

/-- The line of a level: id, name, size, fewest moves and palette. -/
def Level.row (level : Level) : List Char :=
  padStart 2 (decimal level.id) ++ ' ' :: ' ' :: (padEnd 24 level.name.toList
    ++ ' ' :: (signedDecimal level.size ++ 'x' :: signedDecimal level.size)
    ++ "  optimal ".toList ++ decimal level.optimal
    ++ ' ' :: ' ' :: '[' :: ([',', ' '].intercalate (level.palette.map (·.name.toList)) ++ [']']))

/-- The line of the unit at some place: place, id and kind. -/
def Beat.row (index : Nat) (b : Beat) : List Char :=
  padStart 4 (decimal index) ++ ' ' :: ' ' :: (padEnd 4 ('#' :: decimal b.id)
    ++ ' ' :: b.kind.name.toList ++ if b.marker then "  (loop)".toList else [])

end RobotPuzzle
