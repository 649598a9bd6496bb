import RobotPuzzle.Board.Level

/-!
# Quarter turns of the board

A level turned a quarter clockwise: every cell of the board goes to where it lies then, and the robot faces
the next direction clockwise. Rows grow downwards, so the top left corner of a board goes to its top right
corner. Steps, bounds and obstacles turn along.

## Main definitions

- `Cell.quarterTurned` — where a cell of a board lies after a quarter turn
- `Level.quarterTurned` — the level after a quarter turn

## Main statements

- `Cell.quarterTurned_offset` — steps of a turned cell are turned steps
- `Level.free_quarterTurned` — the free cells of the turned level are the turned free cells
-/

namespace RobotPuzzle

theorem Direction.opposite_clockwise (d : Direction) : d.clockwise.opposite = d.opposite.clockwise := by
  cases d <;> rfl

/-- The step of the next direction clockwise. -/
theorem Direction.delta_clockwise (d : Direction) : d.clockwise.delta = (-d.delta.2, d.delta.1) := by
  cases d <;> rfl

namespace Cell

variable {size : Int} {c d : Cell}

/-- The cell that a cell goes to when the board is turned a quarter clockwise. -/
def quarterTurned (size : Int) (c : Cell) : Cell := ⟨size - 1 - c.y, c.x⟩

theorem quarterTurned_inj : c.quarterTurned size = d.quarterTurned size ↔ c = d := by
  obtain ⟨cx, cy⟩ := c
  obtain ⟨dx, dy⟩ := d
  simp only [quarterTurned, mk.injEq]
  omega

theorem quarterTurned_offset (c : Cell) (d : Direction) (steps : Int) :
    (c.offset d steps).quarterTurned size = (c.quarterTurned size).offset d.clockwise steps := by
  have hcolumn : size - 1 - (c.y + d.delta.2 * steps) = size - 1 - c.y + -d.delta.2 * steps := by
    rw [Int.neg_mul]
    omega
  rw [offset, offset, Direction.delta_clockwise, quarterTurned, hcolumn]
  rfl

end Cell

namespace Level

variable {level : Level} {c : Cell}

/-- The level with its board turned a quarter clockwise. -/
def quarterTurned (level : Level) : Level :=
  { level with
    start := level.start.quarterTurned level.size
    target := level.target.quarterTurned level.size
    facing := level.facing.clockwise
    obstacles := .ofList (level.obstacles.toList.map (·.quarterTurned level.size)) }

theorem inBounds_quarterTurned :
    level.quarterTurned.InBounds (c.quarterTurned level.size) ↔ level.InBounds c := by
  show (0 ≤ level.size - 1 - c.y ∧ level.size - 1 - c.y < level.size) ∧ (0 ≤ c.x ∧ c.x < level.size) ↔
    (0 ≤ c.x ∧ c.x < level.size) ∧ (0 ≤ c.y ∧ c.y < level.size)
  omega

theorem mem_obstacles_quarterTurned :
    c.quarterTurned level.size ∈ level.quarterTurned.obstacles ↔ c ∈ level.obstacles := by
  rw [quarterTurned, CellSet.mem_ofList, List.mem_map]
  constructor
  · rintro ⟨d, hd, hturned⟩
    exact Cell.quarterTurned_inj.1 hturned ▸ hd
  · exact fun hc => ⟨c, hc, rfl⟩

theorem free_quarterTurned : level.quarterTurned.Free (c.quarterTurned level.size) ↔ level.Free c :=
  and_congr inBounds_quarterTurned (not_congr mem_obstacles_quarterTurned)

end Level

end RobotPuzzle
