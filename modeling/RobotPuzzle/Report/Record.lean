import RobotPuzzle.Json.Cell
import RobotPuzzle.Json.Writing
import RobotPuzzle.Run.Basic

/-!
# Reports as JSON

## Main definitions

- `RunReport.fields` — the fields of a report
- `RunRecord`, `RunRecord.toJson` — a report with the level, the stars and the next level
-/

namespace RobotPuzzle

namespace Record

/-- A robot as a value. -/
def robot (r : Robot) : Json :=
  .object [("position", r.position.toJson), ("rotation", .int r.rotation)]

/-- A snapshot as a value; a plain one has no action. -/
def snapshot (s : Snapshot) : Json :=
  .object ([("position", s.position.toJson), ("rotation", .int s.rotation)]
    ++ s.action.elim [] fun a => [("action", .string a.name)])

/-- A history as a value. -/
def trace (t : Array Snapshot) : Json := .array (t.toList.map snapshot)

end Record

/-- The fields of a report. -/
def RunReport.fields (r : RunReport) : List (String × Json) :=
  [("outcome", .string r.outcome.name), ("final_state", Record.robot r.robot),
   ("trace", Record.trace r.trace), ("units_executed", .nat r.executed),
   ("expanded_len", .nat r.unrolledLength)]

/-- A finished run of a level of a catalog. -/
structure RunRecord where
  level : Nat
  stars : Nat
  /-- The id of the level to go on with, if there is one. -/
  nextLevel : Option Nat
  report : RunReport

/-- The record of a finished run as a value. -/
def RunRecord.toJson (r : RunRecord) : Json :=
  .object
    ([("level", .nat r.level), ("stars", .nat r.stars),
      ("next_level", .ofOption .nat r.nextLevel)] ++ r.report.fields)

end RobotPuzzle
