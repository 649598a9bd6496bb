import RobotPuzzle.Catalog.Basic
import RobotPuzzle.CommandLine.Invocation
import RobotPuzzle.Notation.Reading
import RobotPuzzle.Session.Basic
import RobotPuzzle.Settings.Basic

/-!
# Playing a level

A program text is read under the settings and played on a level of a catalog to its end.

## Main definitions

- `Refusal` — why a program is not played
- `Settings.readProgram` — the program of a text, with repeat counts held to the offered ones
- `Level.missingKinds` — the kinds of a program that a level does not offer
- `Play`, `play` — a program played to its end
-/

namespace RobotPuzzle

/-- The default count is used for loops without a count, and only offered counts are accepted. -/
def Settings.countRule (s : Settings) : Notation.CountRule := ⟨s.defaultCount, s.offers⟩

/-- The program of a text under some settings. -/
def Settings.readProgram (s : Settings) (text : String) : Except Notation.ReadError Program :=
  Notation.readProgram s.countRule text.toList

/-- The kinds a program uses although the level does not offer them. -/
def Level.missingKinds (level : Level) (program : Program) : List Kind :=
  program.kindsUsed.filter (!level.offers ·)

namespace CommandLine

/-- Why a program is not played. -/
inductive Refusal
  | noLevel (id levels : Nat)
  | unreadable (e : Notation.ReadError)
  | emptyProgram
  | notOffered (level : Nat) (kinds : List Kind)
  | tooLong (maxUnits : Nat)
deriving DecidableEq, Repr

/-- The message about a program that is not played. -/
def Refusal.message : Refusal → String
  | noLevel id levels => s!"no level with id {id} ({levels} levels)"
  | unreadable e => s!"parse program: {e.message}"
  | emptyProgram => "program is empty"
  | notOffered level kinds =>
    let list := ", ".intercalate (kinds.map Kind.name)
    s!"level {level} does not offer: {list} (use --allow-any to run anyway)"
  | tooLong maxUnits => s!"program rejected: it expands past {maxUnits} units"

/-- A program that has been played to its end. -/
structure Play where
  level : Level
  program : Program
  report : RunReport
  steps : List Step
  stars : Nat
  /-- The level to go on with, if the target was reached. -/
  next : Option Level
deriving DecidableEq

/-- The level of a catalog with an id. -/
def findLevel (c : Catalog) (id : Nat) : Except Refusal Level :=
  match c.get? id with
  | some level => .ok level
  | none => .error (.noLevel id c.length)

/-- A program that is not empty and, unless any kind may be used, uses only what the level offers. -/
def checkProgram (level : Level) (anyKind : Bool) (program : Program) : Except Refusal Program :=
  if program.isEmpty then .error .emptyProgram
  else if !anyKind && level.missingKinds program ≠ [] then
    .error (.notOffered level.id (level.missingKinds program))
  else .ok program

/-- Play a program on a level in a new session. -/
def playProgram (s : Settings) (c : Catalog) (level : Level) (program : Program) :
    Except Refusal Play :=
  let session := { Session.new level s.maxUnits with program := program }
  let (report, notes, after) := session.run {} .done
  match report with
  | none => .error (.tooLong s.maxUnits)
  | some r =>
    .ok
      { level, program, report := r, steps := Note.steps notes, stars := after.stars r,
        next := if r.reachedTarget then c.nextAfter? level.id else none }

/-- Play what is asked for. -/
def play (s : Settings) (c : Catalog) (q : PlayRequest) : Except Refusal Play := do
  let level ← findLevel c q.level
  let program ← (s.readProgram q.program).mapError .unreadable
  playProgram s c level (← checkProgram level q.anyKind program)

end CommandLine

end RobotPuzzle
