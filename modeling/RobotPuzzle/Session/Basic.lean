import RobotPuzzle.Board.Stars
import RobotPuzzle.Program.Edit
import RobotPuzzle.Run.Script

/-!
# Sessions

A session is one level being played: the level, the program being authored, and the machine that runs
it. A run takes the program as it is; later edits do not reach it.

## Main definitions

- `Session` — level, program and machine
- `Session.run` — run the program on the level
- `Session.stars` — the stars of a report
- `Session.Move`, `Session.perform` — everything a player does, as data
-/

namespace RobotPuzzle

/-- One level being played. -/
structure Session where
  level : Level
  program : Program
  machine : Machine
deriving DecidableEq

namespace Session

/-- A session without a program. -/
def new (level : Level) (maxUnits : Nat) : Session :=
  ⟨level, .empty, (Machine.new maxUnits).loadLevel level⟩

/-- Run the program, playing a script meanwhile. -/
def run (s : Session) (watch : Watch) (script : Script) :
    Option RunReport × Array Note × Session :=
  let (report, notes, machine) := s.machine.runScript ⟨s.program, some s.level, watch⟩ script
  (report, notes, { s with machine := machine })

/-- Put the robot back and keep the program. -/
def resetPosition (s : Session) : Session := { s with machine := s.machine.reset }

/-- Put the robot back and throw the program away. -/
def resetGame (s : Session) : Session :=
  { s with program := s.program.clear, machine := s.machine.reset }

/-- The stars of a report, for the program as it is now. A run that did not reach the target earns
none. -/
def stars (s : Session) (report : RunReport) : Nat :=
  if report.reachedTarget then earnedStars s.program.length s.level.optimal else 0

/-- Something a player does. -/
inductive Move
  | edit (e : Edit)
  | setProgram (program : Program)
  | run (watch : Watch) (script : Script)
  | resetPosition
  | resetGame
  /-- Reset the machine behind the session's back. -/
  | resetMachine
deriving DecidableEq

/-- Carry out what a player does. The report is that of a run, if one was made. -/
def perform (s : Session) : Move → Option RunReport × Session
  | .edit e => (none, { s with program := (e.perform s.program).2 })
  | .setProgram program => (none, { s with program := program })
  | .run watch script =>
    let (report, _, next) := s.run watch script
    (report, next)
  | .resetPosition => (none, s.resetPosition)
  | .resetGame => (none, s.resetGame)
  | .resetMachine => (none, { s with machine := s.machine.reset })

/-- The session after a list of moves. -/
def afterMoves (s : Session) (moves : List Move) : Session :=
  moves.foldl (fun t m => (t.perform m).2) s

end Session

end RobotPuzzle
