import RobotPuzzle.Board.Robot

/-!
# Drawings of a board

A board is drawn with one character per cell and one line per row, the top row first. Several things
can meet on one cell; the robot is drawn before the target, the target before the start, and the
start before an obstacle.

## Main definitions

- `Direction.arrow` — the robot, seen from above
- `Level.glyph` — the character of a cell
- `Level.rows`, `Level.drawing` — the board as lines and as text
-/

namespace RobotPuzzle

/-- The robot as it is drawn. -/
def Direction.arrow : Direction → Char
  | up => '^'
  | right => '>'
  | down => 'v'
  | left => '<'

/-- The numbers `0, 1, …` below `n`, none if `n` is negative. -/
def coordinates (n : Int) : List Int :=
  (List.range n.toNat).map Int.ofNat

theorem mem_coordinates {n i : Int} : i ∈ coordinates n ↔ 0 ≤ i ∧ i < n := by
  simp only [coordinates, List.mem_map, List.mem_range]
  constructor
  · rintro ⟨k, hk, rfl⟩
    simp only [Int.ofNat_eq_natCast]
    omega
  · intro h
    exact ⟨i.toNat, by omega, by simp only [Int.ofNat_eq_natCast]; omega⟩

namespace Level

/-- The character of a cell that the robot is not drawn on. -/
def fixture (level : Level) (c : Cell) : Char :=
  if c = level.target then 'T'
  else if c = level.start then 'S'
  else if c ∈ level.obstacles then '#'
  else '.'

/-- The character of a cell. -/
def glyph (level : Level) (robot : Option Robot) (c : Cell) : Char :=
  match robot with
  | some r => if r.position = c then r.facing.arrow else level.fixture c
  | none => level.fixture c

/-- The rows of the drawing, from top to bottom. -/
def rows (level : Level) (robot : Option Robot) : List (List Char) :=
  (coordinates level.size).map fun y =>
    (coordinates level.size).map fun x => level.glyph robot ⟨x, y⟩

/-- The drawing as text: the rows with a line break between each two. -/
def drawing (level : Level) (robot : Option Robot) : List Char :=
  ['\n'].intercalate (level.rows robot)

@[simp] theorem length_rows (level : Level) (robot : Option Robot) :
    (level.rows robot).length = level.size.toNat := by
  simp [rows, coordinates]

theorem length_of_mem_rows {level : Level} {robot : Option Robot} {row : List Char}
    (h : row ∈ level.rows robot) : row.length = level.size.toNat := by
  simp only [rows, List.mem_map] at h
  obtain ⟨y, -, rfl⟩ := h
  simp [coordinates]

end Level

end RobotPuzzle
