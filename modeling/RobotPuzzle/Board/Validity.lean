import RobotPuzzle.Board.Level

/-!
# Valid levels

The rules a level must keep so that it can be played, and the faults of a level that breaks them.

## Main definitions

- `Level.Valid` — the rules, as one predicate
- `Level.faults` — every broken rule of a level, in the order they are reported
- `Catalog.faults` in `RobotPuzzle.Catalog.Basic` — the same for a list of levels

## Main statements

- `Level.faults_eq_nil_iff` — a level has no fault exactly when it is valid
-/

namespace RobotPuzzle

/-- The two marked cells of a board. -/
inductive Mark
  | start
  | target
deriving DecidableEq, Repr

namespace Mark

/-- The name of a mark in reports. -/
def name : Mark → String
  | start => "start"
  | target => "target"

/-- The cell a level puts a mark on. -/
def cell (level : Level) : Mark → Cell
  | start => level.start
  | target => level.target

end Mark

/-- A broken rule of one level. -/
inductive LevelFault
  | sizeNotPositive
  | markOutOfBounds (mark : Mark) (cell : Cell)
  | markOnObstacle (mark : Mark) (cell : Cell)
  | obstacleOutOfBounds (cell : Cell)
  | emptyPalette
  | repeatedKind (kind : Kind)
deriving DecidableEq, Repr

namespace LevelFault

/-- What is wrong, without saying in which level. -/
def text : LevelFault → String
  | sizeNotPositive => "gridSize must be > 0"
  | markOutOfBounds mark cell => s!"{mark.name} {String.ofList cell.text} is out of bounds"
  | markOnObstacle mark cell => s!"{mark.name} {String.ofList cell.text} is an obstacle"
  | obstacleOutOfBounds cell => s!"obstacle {String.ofList cell.text} is out of bounds"
  | emptyPalette => "commands must not be empty"
  | repeatedKind kind => s!"duplicate command '{kind.name}'"

/-- The message about a fault of the level numbered `id`. -/
def message (id : Nat) (fault : LevelFault) : String :=
  s!"level {id}: {fault.text}"

end LevelFault

/-- The elements of a list that occur before in it, each as often as it is repeated. -/
def repeated {α : Type} [DecidableEq α] : List α → List α → List α
  | _, [] => []
  | seen, a :: rest => if a ∈ seen then a :: repeated seen rest else repeated (a :: seen) rest

theorem repeated_eq_nil_iff {α : Type} [DecidableEq α] (seen xs : List α) :
    repeated seen xs = [] ↔ xs.Nodup ∧ ∀ a ∈ xs, a ∉ seen := by
  induction xs generalizing seen with
  | nil => simp [repeated]
  | cons a rest ih =>
    by_cases h : a ∈ seen
    · simp [repeated, h]
    · simp only [repeated, h, if_false, ih, List.nodup_cons, List.mem_cons]
      grind

namespace Level

/-- The rules of a playable level: there is a board, both marks are on free cells, every obstacle is
on the board, and the palette lists at least one kind and none twice. -/
structure Valid (level : Level) : Prop where
  size_pos : 0 < level.size
  start_free : level.Free level.start
  target_free : level.Free level.target
  obstacles_inBounds : ∀ c ∈ level.obstacles, level.InBounds c
  palette_ne_nil : level.palette ≠ []
  palette_nodup : level.palette.Nodup

/-- The fault of a marked cell, if there is one. -/
def markFaults (level : Level) (mark : Mark) : List LevelFault :=
  let cell := mark.cell level
  if ¬ level.InBounds cell then [.markOutOfBounds mark cell]
  else if cell ∈ level.obstacles then [.markOnObstacle mark cell]
  else []

/-- Every broken rule of a level, in the order they are reported. -/
def faults (level : Level) : List LevelFault :=
  (if level.size ≤ 0 then [.sizeNotPositive] else [])
    ++ level.markFaults .start
    ++ level.markFaults .target
    ++ (level.obstacles.toList.filter (¬ level.InBounds ·)).map .obstacleOutOfBounds
    ++ (if level.palette = [] then [.emptyPalette] else [])
    ++ (repeated [] level.palette).map .repeatedKind

theorem markFaults_eq_nil_iff (level : Level) (mark : Mark) :
    level.markFaults mark = [] ↔ level.Free (mark.cell level) := by
  unfold markFaults Free
  by_cases hb : level.InBounds (mark.cell level) <;>
    by_cases ho : mark.cell level ∈ level.obstacles <;> simp [hb, ho]

/-- A level has no fault exactly when it is valid. -/
theorem faults_eq_nil_iff (level : Level) : level.faults = [] ↔ level.Valid := by
  have hsize : (if level.size ≤ 0 then [LevelFault.sizeNotPositive] else []) = [] ↔
      0 < level.size := by
    split <;> simp <;> omega
  have hpalette : (if level.palette = [] then [LevelFault.emptyPalette] else []) = [] ↔
      level.palette ≠ [] := by
    split <;> simp_all
  simp only [faults, List.append_eq_nil_iff, hsize, hpalette, markFaults_eq_nil_iff,
    List.map_eq_nil_iff, repeated_eq_nil_iff, List.filter_eq_nil_iff, Mark.cell]
  constructor
  · rintro ⟨⟨⟨⟨⟨h1, h2⟩, h3⟩, h4⟩, h5⟩, h6⟩
    exact ⟨h1, h2, h3, fun c hc => by simpa using h4 c hc, h5, h6.1⟩
  · rintro ⟨h1, h2, h3, h4, h5, h6⟩
    exact ⟨⟨⟨⟨⟨h1, h2⟩, h3⟩, fun c hc => by simpa using h4 c hc⟩, h5⟩, h6, by simp⟩

end Level

end RobotPuzzle
