import RobotPuzzle.Board.Robot
import RobotPuzzle.Program.Unrolling

/-!
# The machine

The machine executes an unrolled program one unit at a time, in two phases: a unit is highlighted, and
then its effect is committed. Between the two the caller may wait, look, or do something else with the
machine. Whoever starts a run gets a ticket, and every later start, reset or level load makes the
ticket stale, so a caller that was away for too long cannot touch a run that is not its own.

## Main definitions

- `Machine` — level, robot, history, and the state of the run
- `Machine.start`, `Machine.reset`, `Machine.loadLevel` — begin and abandon runs
- `Machine.beginStep`, `Machine.commitStep` — the two phases of a unit
- `Effect`, `Step`, `Outcome` — what a unit did, and how a run ended
-/

namespace RobotPuzzle

/-- What the machine is doing. -/
inductive Status
  | idle
  | running
  | complete
deriving DecidableEq, Repr

/-- The written name of a status. -/
def Status.name : Status → String
  | idle => "idle"
  | running => "running"
  | complete => "complete"

/-- How a run ended. -/
inductive Outcome
  /-- The robot landed on the target. -/
  | won
  /-- Every unit was executed and the robot is not on the target. -/
  | notReached
  /-- A stop instruction ended the run. -/
  | stopped
  /-- Something else took the machine over while the run was suspended. -/
  | cancelled
deriving DecidableEq, Repr

/-- The written name of an outcome. -/
def Outcome.name : Outcome → String
  | won => "won"
  | notReached => "not_reached"
  | stopped => "stopped"
  | cancelled => "cancelled"

/-- What a unit did to the robot. -/
inductive Effect
  /-- A loop was entered. -/
  | marker
  | moved (cell : Cell)
  | jumped (cell : Cell)
  /-- The landing cell is not free, and the robot stayed where it was. -/
  | blocked (toward : Cell)
  | turned (rotation : Int)
  | waited
  | stopped
deriving DecidableEq, Repr

/-- The cell a robot landed on, if it moved. -/
def Effect.landing? : Effect → Option Cell
  | moved cell => some cell
  | jumped cell => some cell
  | _ => none

/-- A unit that is about to be executed. -/
structure Highlight where
  index : Nat
  beat : Beat
deriving DecidableEq, Repr

/-- A unit that has been executed. -/
structure Step where
  index : Nat
  beat : Beat
  effect : Effect
  /-- How the run ended, if this unit ended it. -/
  outcome : Option Outcome
deriving DecidableEq, Repr

/-- The right to drive one particular run. -/
structure Ticket where
  generation : Nat
deriving DecidableEq, Repr

/-- What the first phase of a unit answers. -/
inductive Begin
  | highlighted (h : Highlight)
  | finished (outcome : Outcome)
  | stale
deriving DecidableEq, Repr

/-- What the second phase of a unit answers. -/
inductive Commit
  | applied (s : Step)
  | notHighlighted
  | stale
deriving DecidableEq, Repr

/-- The number of units a run may have unless another number is asked for. -/
def defaultMaxUnits : Nat := 10000

/-- The machine. -/
structure Machine where
  level : Option Level
  robot : Robot
  trace : Array Snapshot
  status : Status
  units : Array Beat
  /-- The number of units committed so far in the current or last run. -/
  cursor : Nat
  highlight : Option Highlight
  /-- Counts the starts and resets. -/
  generation : Nat
  maxUnits : Nat
deriving DecidableEq

namespace Machine

/-- A machine without a level. -/
def new (maxUnits : Nat) : Machine :=
  { level := none, robot := .parked, trace := #[], status := .idle, units := #[], cursor := 0,
    highlight := none, generation := 0, maxUnits := maxUnits }

instance : Inhabited Machine := ⟨new defaultMaxUnits⟩

/-- The robot before a run on the bound level. -/
def restingRobot (m : Machine) : Robot :=
  m.level.elim .parked .initial

/-- Give up whatever is going on, and put the robot back. Every ticket becomes stale. -/
def reset (m : Machine) : Machine :=
  { m with
    robot := m.restingRobot, trace := #[], status := .idle, units := #[], cursor := 0,
    highlight := none, generation := m.generation + 1 }

/-- Bind a level and reset. -/
def loadLevel (m : Machine) (level : Level) : Machine :=
  reset { m with level := some level }

/-- Begin a run. There is no ticket, and nothing changes, without a level, for a program without
instructions, while another run goes on, or for a program with too many units. -/
def start (m : Machine) (program : Program) (level : Option Level) : Option (Ticket × Machine) :=
  match level with
  | none => none
  | some level =>
    if program.isEmpty || m.status == .running then none
    else
      match program.unrollWithin m.maxUnits with
      | .error _ => none
      | .ok units =>
        let robot := Robot.initial level
        some (⟨m.generation + 1⟩,
          { m with
            level := some level, robot := robot, trace := #[robot.snapshot none],
            status := .running, units := units.toArray, cursor := 0, highlight := none,
            generation := m.generation + 1 })

/-- The ticket is that of the run which is going on. -/
def Owns (m : Machine) (ticket : Ticket) : Prop :=
  ticket.generation = m.generation ∧ m.status = .running

instance (m : Machine) (ticket : Ticket) : Decidable (m.Owns ticket) :=
  inferInstanceAs (Decidable (_ ∧ _))

/-- The robot stands on the target of the bound level. -/
def OnTarget (m : Machine) : Prop :=
  ∃ level, m.level = some level ∧ m.robot.position = level.target

instance (m : Machine) : Decidable m.OnTarget :=
  match h : m.level with
  | none => .isFalse (by rintro ⟨l, hl, -⟩; simp [h] at hl)
  | some level =>
    if ht : m.robot.position = level.target then .isTrue ⟨level, h, ht⟩
    else .isFalse (by
      rintro ⟨l, hl, hp⟩
      rw [h] at hl
      obtain rfl := Option.some.inj hl
      exact ht hp)

/-- The machine after the end of a run. -/
def finish (m : Machine) (status : Status) : Machine :=
  { m with status := status, highlight := none }

/-- Highlight the next unit, or end the run if there is none. A run that is exhausted leaves the
machine idle, and is won if the robot stands on the target. -/
def beginStep (m : Machine) (ticket : Ticket) : Begin × Machine :=
  if ¬ m.Owns ticket then (.stale, m)
  else
    match m.highlight with
    | some h => (.highlighted h, m)
    | none =>
      match m.units[m.cursor]? with
      | none => (.finished (if m.OnTarget then .won else .notReached), m.finish .idle)
      | some beat =>
        let h := ⟨m.cursor, beat⟩
        (.highlighted h, { m with highlight := some h })

/-- The machine with one more entry of history. -/
def record (m : Machine) (robot : Robot) (action : Option Action) : Machine :=
  { m with robot := robot, trace := m.trace.push (robot.snapshot action) }

/-- Land the robot on the cell some steps away. Only the landing cell has to be free, so that a jump
clears what is next to the robot. -/
def move (m : Machine) (level : Level) (d : Direction) (steps : Int) (action : Option Action)
    (effect : Cell → Effect) : Effect × Machine :=
  let cell := m.robot.position.offset d steps
  if level.Free cell then (effect cell, m.record { m.robot with position := cell } action)
  else (.blocked cell, m)

/-- Turn the robot by some degrees. -/
def turn (m : Machine) (degrees : Int) : Effect × Machine :=
  let rotation := m.robot.rotation + degrees
  (.turned rotation, m.record { m.robot with rotation := rotation } (some .turn))

/-- Carry out an instruction of a kind. -/
def execute (m : Machine) (level : Level) : Kind → Effect × Machine
  | .forward => m.move level m.robot.facing 1 none .moved
  | .back => m.move level m.robot.facing.opposite 1 none .moved
  | .jump => m.move level m.robot.facing 2 (some .jump) .jumped
  | .turnLeft => m.turn (-90)
  | .turnRight => m.turn 90
  | .wait => (.waited, m.record m.robot (some .wait))
  | .stop => (.stopped, m)
  | .loop => (.marker, m)

/-- How an effect ends a run on a level, if it does, and what the machine does then. -/
def ending (level : Level) : Effect → Option (Outcome × Status)
  | .moved cell => if cell = level.target then some (.won, .complete) else none
  | .jumped cell => if cell = level.target then some (.won, .complete) else none
  | .stopped => some (.stopped, .idle)
  | _ => none

/-- Commit the highlighted unit. Landing on the target completes the level and a stop ends the run;
any other effect leaves the run going on. -/
def commitStep (m : Machine) (ticket : Ticket) : Commit × Machine :=
  if ¬ m.Owns ticket then (.stale, m)
  else
    match m.highlight with
    | none => (.notHighlighted, m)
    | some h =>
      match m.level with
      | none => (.stale, { m with highlight := none })
      | some level =>
        let taken := { m with highlight := none, cursor := m.cursor + 1 }
        let (effect, after) :=
          if h.beat.marker then (.marker, taken) else taken.execute level h.beat.kind
        match ending level effect with
        | some (outcome, status) =>
          (.applied ⟨h.index, h.beat, effect, some outcome⟩, after.finish status)
        | none => (.applied ⟨h.index, h.beat, effect, none⟩, after)

/-- The id of the highlighted instruction. -/
def highlightedId (m : Machine) : Option NodeId := m.highlight.map (·.beat.id)

/-- The index of the highlighted unit. -/
def currentStep (m : Machine) : Option Nat := m.highlight.map (·.index)

/-! ## First facts -/

theorem beginStep_of_not_owns {m : Machine} {t : Ticket} (h : ¬ m.Owns t) :
    m.beginStep t = (.stale, m) := by
  simp [beginStep, h]

theorem commitStep_of_not_owns {m : Machine} {t : Ticket} (h : ¬ m.Owns t) :
    m.commitStep t = (.stale, m) := by
  simp [commitStep, h]

@[simp] theorem generation_reset (m : Machine) : m.reset.generation = m.generation + 1 := rfl

@[simp] theorem status_reset (m : Machine) : m.reset.status = .idle := rfl

@[simp] theorem level_loadLevel (m : Machine) (l : Level) : (m.loadLevel l).level = some l := rfl

end Machine

end RobotPuzzle
