import RobotPuzzle.Board.Drawing
import RobotPuzzle.Notation.Writing
import RobotPuzzle.Run.Basic

/-!
# Reports as text

A finished run and a level, as pages of text.

## Main definitions

- `RunSummary` — what the report of a run shows
- `RunSummary.page` — the report of a run
- `Level.page` — the description of a level
-/

namespace RobotPuzzle

/-- What the report of a run shows. -/
structure RunSummary where
  level : Level
  program : Program
  report : RunReport
  steps : List Step
  stars : Nat

/-- What a unit did, in words. -/
def Effect.words : Effect → List Char
  | marker => "enter loop".toList
  | moved cell => "moved to ".toList ++ cell.text
  | jumped cell => "jumped to ".toList ++ cell.text
  | blocked toward => "blocked at ".toList ++ toward.text
  | turned rotation => "now facing ".toList ++ (Direction.ofDegrees rotation).name.toList
  | waited => "waited".toList
  | stopped => "stopped".toList

/-- The line of a step. -/
def Step.line (s : Step) : List Char :=
  decimal s.index ++ '.' :: ' ' :: (s.beat.kind.name.toList
    ++ (if s.beat.marker then " (loop)".toList else []) ++ ' ' :: ' ' :: s.effect.words)

/-- The line of a snapshot. -/
def Snapshot.line (s : Snapshot) : List Char :=
  ' ' :: ' ' :: (s.position.text
    ++ ' ' :: (Direction.ofDegrees s.rotation).name.toList
    ++ s.action.elim [] fun a => ' ' :: '[' :: (a.name.toList ++ [']']))

/-- Each line with a line break before it. -/
def brokenLines (lines : List (List Char)) : List Char := lines.flatMap ('\n' :: ·)

/-- The first line of every page. -/
def Level.title (level : Level) : List Char :=
  "Level ".toList ++ decimal level.id ++ ':' :: ' ' :: level.name.toList

/-- The report of a run. The board shows the robot as the run left it; stars are shown if there are
any, and the hint if the target was not reached. -/
def RunSummary.page (s : RunSummary) : List Char :=
  s.level.title ++ "\nProgram: ".toList ++ s.program.text ++ ['\n', '\n']
    ++ s.level.drawing (some s.report.robot) ++ ['\n']
    ++ brokenLines (s.steps.map Step.line)
    ++ "\n\nTrace:".toList
    ++ brokenLines (s.report.trace.toList.map Snapshot.line)
    ++ "\n\nOutcome: ".toList ++ s.report.outcome.name.toList
    ++ " after ".toList ++ decimal s.report.executed ++ '/' :: decimal s.report.unrolledLength
    ++ " units".toList
    ++ (if 0 < s.stars then "\nStars: ".toList ++ decimal s.stars ++ "/3".toList else [])
    ++ (if !s.report.reachedTarget && s.level.hint ≠ "" then
          "\nHint: ".toList ++ s.level.hint.toList
        else [])

/-- The description of a level. -/
def Level.page (level : Level) : List Char :=
  level.title ++ "\nGrid ".toList ++ signedDecimal level.size ++ 'x' :: signedDecimal level.size
    ++ ", facing ".toList ++ level.facing.name.toList
    ++ ", optimal ".toList ++ decimal level.optimal
    ++ "\nCommands: ".toList ++ [',', ' '].intercalate (level.palette.map (·.name.toList))
    ++ ['\n', '\n'] ++ level.drawing none
    ++ (if level.hint ≠ "" then "\n\nHint: ".toList ++ level.hint.toList else [])

end RobotPuzzle
