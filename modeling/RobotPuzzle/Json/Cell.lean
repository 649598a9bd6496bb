import RobotPuzzle.Board.Cell
import RobotPuzzle.Json.Basic

/-!
# Cells as JSON

## Main definitions

- `Cell.toJson` — the value of a cell
-/

namespace RobotPuzzle

/-- A cell as a value. -/
def Cell.toJson (c : Cell) : Json :=
  .object [("x", .int c.x), ("y", .int c.y)]

end RobotPuzzle
