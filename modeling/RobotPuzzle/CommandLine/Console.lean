import RobotPuzzle.Catalog.Loading
import RobotPuzzle.CommandLine.Listing
import RobotPuzzle.CommandLine.Play
import RobotPuzzle.Json.Writing
import RobotPuzzle.Report.Record
import RobotPuzzle.Report.Text
import RobotPuzzle.Settings.File

/-!
# The program on a disk

What the program prints for its arguments, what it leaves on the disk, and its exit code.

## Main definitions

- `Failure` — why the program cannot do what it is asked
- `Answer` — what the program prints when it can
- `Ending`, `perform` — all that is left when the program ends
-/

namespace RobotPuzzle.CommandLine

/-- Why the program cannot do what it is asked. -/
inductive Failure
  | settings (path : String) (e : Settings.LoadError)
  | catalog (e : Catalog.LoadError)
  | refused (r : Refusal)
  | alreadyThere (path : String)
  | unwritten (path : String) (e : Settings.SaveError)

/-- The message about a failure. -/
def Failure.message : Failure → String
  | settings path e => e.message path
  | catalog e => e.message
  | refused r => r.message
  | alreadyThere path => s!"{path} already exists (use --force to overwrite)"
  | unwritten path e => s!"write {path}: {e.message}"

/-- The name and the version of the program. -/
def versionLine : String := "robogrid 0.1.0"

/-! ## Exit codes -/

/-- The program has done what it was asked, or the run has reached the target. -/
def exitDone : Nat := 0

/-- The program could not do what it was asked. -/
def exitFailed : Nat := 1

/-- The run has ended without reaching the target. -/
def exitNotReached : Nat := 2

/-- The arguments are not understood. -/
def exitUsage : Nat := 2

/-! ## Answers -/

/-- What the program prints when it can do what it is asked. -/
structure Answer where
  output : List Char
  code : Nat := exitDone
  /-- The number of pauses made meanwhile, each as long as the step delay. -/
  pauses : Nat := 0
  /-- The length of a pause in milliseconds. -/
  delay : Nat := 0
deriving DecidableEq, Repr

/-- Lines of text, each with a line break after it. -/
def lines (ls : List (List Char)) : List Char := ls.flatMap (· ++ ['\n'])

/-- The levels of a catalog as a table. -/
def levelsAnswer (c : Catalog) : Answer := { output := lines (c.levels.map Level.row) }

/-- The description of a level. -/
def levelAnswer (c : Catalog) (id : Nat) : Except Refusal Answer := do
  let level ← findLevel c id
  .ok { output := lines [level.page] }

/-- The units of a program as a table. The table is as long as the program unrolls to. -/
def expandAnswer (s : Settings) (text : String) : Except Refusal Answer := do
  let program ← (s.readProgram text).mapError .unreadable
  .ok { output := lines (program.unroll.mapIdx Beat.row) }

namespace Play

/-- The record of a play. -/
def record (p : Play) : RunRecord := ⟨p.level.id, p.stars, p.next.map (·.id), p.report⟩

/-- The report of a play, and the level to go on with. -/
def page (p : Play) : List Char :=
  lines ((RunSummary.mk p.level p.program p.report p.steps p.stars).page
    :: p.next.toList.map fun next =>
      "Next level: ".toList ++ decimal next.id ++ ' ' :: next.name.toList)

/-- The exit code of a play tells whether the target was reached. -/
def code (p : Play) : Nat := if p.report.reachedTarget then exitDone else exitNotReached

/-- The answer to a play. -/
def answer (p : Play) (json : Bool) (delay : Nat) : Answer :=
  { output := if json then lines [p.record.toJson.pretty 0] else p.page, code := p.code,
    pauses := p.report.executed, delay }

end Play

/-- The answer to the request to play a program. -/
def playAnswer (s : Settings) (c : Catalog) (q : PlayRequest) (delay : Option Nat) (json : Bool) :
    Except Refusal Answer := do
  .ok ((← play s c q).answer json (delay.getD s.stepDelay))

/-! ## Requests on a disk -/

/-- The settings of a file. -/
def loadSettings (d : Disk) (path : String) : Except Failure Settings :=
  (Settings.load d path).mapError (.settings path)

/-- The catalog that some settings name. -/
def loadCatalog (d : Disk) (s : Settings) : Except Failure Catalog :=
  (Catalog.resolve d s.catalog).mapError .catalog

/-- Write the standard settings to a file, over an existing one only if that is wanted. -/
def writeSettings (d : Disk) (path : String) (force : Bool) : Except Failure Answer × Disk :=
  if !force && d.contains path then (.error (.alreadyThere path), d)
  else
    match Settings.save d path .standard with
    | (.ok (), after) => (.ok { output := lines [path.toList] }, after)
    | (.error e, after) => (.error (.unwritten path e), after)

/-- The answer to a request, and the disk after it. -/
def respond (d : Disk) (path : String) : Request → Except Failure Answer × Disk
  | .levels => (do
      let c ← loadCatalog d (← loadSettings d path)
      .ok (levelsAnswer c), d)
  | .level id => (do
      let c ← loadCatalog d (← loadSettings d path)
      (levelAnswer c id).mapError .refused, d)
  | .expand program => (do
      let s ← loadSettings d path
      (expandAnswer s program).mapError .refused, d)
  | .play q delay json => (do
      let s ← loadSettings d path
      let c ← loadCatalog d s
      (playAnswer s c q delay json).mapError .refused, d)
  | .writeSettings force => writeSettings d path force

/-- All that is left when the program ends. -/
structure Ending where
  code : Nat
  output : List Char
  complaint : List Char
  disk : Disk
  /-- The number of pauses, and the length of each in milliseconds. -/
  pauses : Nat := 0
  delay : Nat := 0
deriving DecidableEq

/-- How the program ends with an answer, or without one. -/
def Ending.ofResult (result : Except Failure Answer) (disk : Disk) : Ending :=
  match result with
  | .ok a =>
    { code := a.code, output := a.output, complaint := [], disk, pauses := a.pauses,
      delay := a.delay }
  | .error e => { code := exitFailed, output := [], complaint := lines [e.message.toList], disk }

/-- Do what an invocation asks. -/
def perform (d : Disk) : Invocation → Ending
  | .version => .ofResult (.ok { output := lines [versionLine.toList] }) d
  | .request path r =>
    let (result, after) := respond d path r
    .ofResult result after

end RobotPuzzle.CommandLine
