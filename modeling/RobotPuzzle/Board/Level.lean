import RobotPuzzle.Board.Cell
import RobotPuzzle.Program.Instruction

/-!
# Levels

A level is a square board with a start, a target and obstacles, the facing the robot starts with, and
the palette of instructions the learner is offered.

## Main definitions

- `Level` — a puzzle
- `Level.InBounds`, `Level.Free` — the cells of the board, and those a robot may stand on
- `Level.offers` — membership in the palette
-/

namespace RobotPuzzle

/-- A puzzle. The board has `size` rows of `size` cells. -/
structure Level where
  id : Nat
  name : String
  size : Int
  start : Cell
  target : Cell
  facing : Direction
  obstacles : CellSet
  palette : List Kind
  /-- The number of top-level instructions that earns three stars. -/
  optimal : Nat
  hint : String
deriving DecidableEq, Inhabited

namespace Level

/-- The cell is on the board. -/
def InBounds (level : Level) (c : Cell) : Prop :=
  (0 ≤ c.x ∧ c.x < level.size) ∧ (0 ≤ c.y ∧ c.y < level.size)

instance (level : Level) (c : Cell) : Decidable (level.InBounds c) :=
  inferInstanceAs (Decidable (_ ∧ _))

/-- The cell is on the board and holds no obstacle: a robot may stand on it. -/
def Free (level : Level) (c : Cell) : Prop :=
  level.InBounds c ∧ c ∉ level.obstacles

instance (level : Level) (c : Cell) : Decidable (level.Free c) :=
  inferInstanceAs (Decidable (_ ∧ _))

/-- The palette lists the kind. -/
def offers (level : Level) (k : Kind) : Bool :=
  level.palette.contains k

theorem Free.inBounds {level : Level} {c : Cell} (h : level.Free c) : level.InBounds c := h.1

end Level

end RobotPuzzle
