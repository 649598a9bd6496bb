import RobotPuzzle.Board.Level

/-!
# The robot

Where the robot is and how far it has turned, and the snapshots its history is made of.

## Main definitions

- `Robot` — position and accumulated rotation
- `Robot.initial` — the robot as a level places it
- `Snapshot` — one entry of the history, tagged with what happened unless it was a plain step
-/

namespace RobotPuzzle

/-- The robot. Its rotation adds up over turns; only its value modulo a full turn shows. -/
structure Robot where
  position : Cell
  rotation : Int
deriving DecidableEq, Repr, Inhabited

/-- What a snapshot other than the first or a plain step records. -/
inductive Action
  | turn
  | wait
  | jump
deriving DecidableEq, Repr

/-- The written name of an action. -/
def Action.name : Action → String
  | turn => "turn"
  | wait => "wait"
  | jump => "jump"

/-- One entry of the history of a run. -/
structure Snapshot where
  position : Cell
  rotation : Int
  action : Option Action
deriving DecidableEq, Repr

namespace Robot

/-- The robot before any level is loaded. -/
def parked : Robot := ⟨⟨0, 0⟩, 0⟩

/-- The robot as a level places it. -/
def initial (level : Level) : Robot := ⟨level.start, level.facing.degrees⟩

/-- The direction the robot faces. -/
def facing (robot : Robot) : Direction := Direction.ofDegrees robot.rotation

/-- The entry that records the robot as it stands. -/
def snapshot (robot : Robot) (action : Option Action) : Snapshot :=
  ⟨robot.position, robot.rotation, action⟩

@[simp] theorem facing_initial (level : Level) : (initial level).facing = level.facing := by
  simp [facing, initial]

end Robot

end RobotPuzzle
