import RobotPuzzle.Run.Basic

/-!
# Direct evaluation

What a program does, told from its tree alone: no unrolling, no cursor, no two phases and no degrees.
Commands act on a robot that faces one of four directions, a loop counts as one unit itself and then
evaluates its body as often as it repeats, and evaluation stops at the first landing on the target or
the first stop.

## Main definitions

- `Sighting` — where the robot is seen, which way it faces and what it does
- `Evaluation` — how far an evaluation has come
- `Forest.evaluate` — the evaluation of a tree
- `Verdict`, `Forest.verdict`, `RunReport.verdict` — what a whole program comes to, by evaluation of its
  tree and by the report of a run
-/

namespace RobotPuzzle

/-- An entry of a history in which the robot faces a direction. -/
structure Sighting where
  position : Cell
  facing : Direction
  action : Option Action
deriving DecidableEq, Repr

/-- What is seen of a snapshot. -/
def Snapshot.sighting (s : Snapshot) : Sighting := ⟨s.position, .ofDegrees s.rotation, s.action⟩

/-- How far an evaluation has come. -/
structure Evaluation where
  position : Cell
  facing : Direction
  history : List Sighting
  /-- The number of units visited. -/
  visited : Nat
  /-- How the evaluation ended, if it has. -/
  outcome : Option Outcome
deriving DecidableEq, Repr

namespace Evaluation

/-- Before the first instruction. -/
def initial (level : Level) : Evaluation :=
  { position := level.start, facing := level.facing,
    history := [⟨level.start, level.facing, none⟩], visited := 0, outcome := none }

/-- One more unit is visited. -/
def visit (e : Evaluation) : Evaluation := { e with visited := e.visited + 1 }

/-- The robot is seen as it stands. -/
def sight (e : Evaluation) (action : Option Action) : Evaluation :=
  { e with history := e.history ++ [⟨e.position, e.facing, action⟩] }

/-- The robot lands on a cell, if it may stand there, and has won if it is the target. -/
def land (level : Level) (e : Evaluation) (cell : Cell) (action : Option Action) : Evaluation :=
  if level.Free cell then
    { e with position := cell, outcome := if cell = level.target then some .won else none }.sight action
  else e

/-- The robot turns to a direction. -/
def turn (e : Evaluation) (facing : Direction) : Evaluation :=
  { e with facing := facing }.sight (some .turn)

/-- A command acts on the robot. -/
def command (level : Level) (e : Evaluation) : Command → Evaluation
  | .forward => e.land level (e.position.offset e.facing 1) none
  | .back => e.land level (e.position.offset e.facing.opposite 1) none
  | .jump => e.land level (e.position.offset e.facing 2) (some .jump)
  | .turnLeft => e.turn e.facing.counterclockwise
  | .turnRight => e.turn e.facing.clockwise
  | .wait => e.sight (some .wait)
  | .stop => { e with outcome := some .stopped }

/-- Do something unless the evaluation has ended. -/
def unlessEnded (f : Evaluation → Evaluation) (e : Evaluation) : Evaluation :=
  if e.outcome.isSome then e else f e

/-- Do something a number of times, or until the evaluation has ended. -/
def repeatedly (f : Evaluation → Evaluation) : Nat → Evaluation → Evaluation
  | 0, e => e
  | n + 1, e => repeatedly f n (unlessEnded f e)

end Evaluation

/-- What a whole program comes to. -/
structure Verdict where
  outcome : Outcome
  position : Cell
  facing : Direction
  history : List Sighting
  /-- The number of units visited, those of loops included. -/
  visited : Nat
  status : Status
deriving DecidableEq, Repr

namespace Forest

variable {α : Type}

/-- Evaluate a tree. -/
def evaluate (level : Level) : Forest α → Evaluation → Evaluation
  | nil, e => e
  | command _ c rest, e =>
    rest.evaluate level (Evaluation.unlessEnded (fun e => e.visit.command level c) e)
  | loop _ count body rest, e =>
    let entered := Evaluation.unlessEnded Evaluation.visit e
    rest.evaluate level (Evaluation.repeatedly (body.evaluate level) count entered)

/-- The outcome and the final status of an evaluation of a whole program. Only a landing on the target
completes the level; a program that is exhausted has won if the robot is on the target all the same. -/
def ending (level : Level) (e : Evaluation) : Outcome × Status :=
  match e.outcome with
  | some .won => (.won, .complete)
  | some outcome => (outcome, .idle)
  | none => (if e.position = level.target then .won else .notReached, .idle)

/-- What a program comes to on a level, told from its tree. -/
def verdict (level : Level) (f : Forest α) : Verdict :=
  let e := f.evaluate level (.initial level)
  ⟨(ending level e).1, e.position, e.facing, e.history, e.visited, (ending level e).2⟩

end Forest

/-- What a program comes to, told from the report of a run and the status it left. -/
def RunReport.verdict (r : RunReport) (status : Status) : Verdict :=
  ⟨r.outcome, r.robot.position, r.robot.facing, r.trace.toList.map (·.sighting), r.executed, status⟩

end RobotPuzzle
