import RobotPuzzle.Machine.Call

/-!
# Runs

A run starts a program on a machine and executes it unit by unit to its end. At every pause between a
highlight and its effect, and after every effect, control goes to the caller, who may do anything with
the machine before giving it back. If the machine has been taken over meanwhile, the run is cancelled.

## Main definitions

- `Event`, `Callback` — the moments at which the caller has control, and what it does then
- `RunReport` — what is reported of a run, read off the machine when the run returns
- `Machine.run` — a whole run
-/

namespace RobotPuzzle

/-- A moment of a run at which the caller has control. -/
inductive Event
  /-- The unit is highlighted and its effect is yet to come. -/
  | paused (h : Highlight)
  /-- The unit has been committed. -/
  | stepped (s : Step)
deriving DecidableEq, Repr

/-- What the caller of a run does with the machine at each event, and what it notes down. -/
abbrev Callback (ε : Type) := Event → Machine → List ε × Machine

/-- What is reported of a run. Apart from the outcome this is the state of the machine when the run
returns. -/
structure RunReport where
  outcome : Outcome
  robot : Robot
  trace : Array Snapshot
  executed : Nat
  unrolledLength : Nat
deriving DecidableEq, Repr

/-- The run ended on the target. -/
def RunReport.reachedTarget (r : RunReport) : Bool := r.outcome = .won

namespace Machine

/-- The report of a run that ends now. -/
def report (m : Machine) (outcome : Outcome) : RunReport :=
  ⟨outcome, m.robot, m.trace, m.cursor, m.units.size⟩

/-- Execute units until the run ends, collecting what the caller notes down. Each round commits one
unit of the run, so one round more than there are units is enough; a run that is still going on when
the rounds are used up counts as cancelled. -/
def runRounds {ε : Type} (callback : Callback ε) (ticket : Ticket) :
    Nat → Machine → Array ε → RunReport × Array ε × Machine
  | 0, m, notes => (m.report .cancelled, notes, m)
  | rounds + 1, m, notes =>
    match m.beginStep ticket with
    | (.finished outcome, m₁) => (m₁.report outcome, notes, m₁)
    | (.stale, m₁) => (m₁.report .cancelled, notes, m₁)
    | (.highlighted h, m₁) =>
      let (paused, m₂) := callback (.paused h) m₁
      match m₂.commitStep ticket with
      | (.applied step, m₃) =>
        let (stepped, m₄) := callback (.stepped step) m₃
        let notes := notes ++ paused ++ stepped
        match step.outcome with
        | some outcome => (m₄.report outcome, notes, m₄)
        | none => runRounds callback ticket rounds m₄ notes
      | (_, m₃) => (m₃.report .cancelled, notes ++ paused, m₃)

/-- Run a program on a level. There is no report, and nothing changes, if the machine does not start
the run. -/
def run {ε : Type} (callback : Callback ε) (program : Program) (level : Option Level)
    (m : Machine) : Option RunReport × Array ε × Machine :=
  match m.start program level with
  | none => (none, #[], m)
  | some (ticket, m₁) =>
    let (report, notes, m₂) := m₁.runRounds callback ticket (m₁.units.size + 1) #[]
    (some report, notes, m₂)

theorem run_of_start_eq_none {ε : Type} {callback : Callback ε} {program : Program}
    {level : Option Level} {m : Machine} (h : m.start program level = none) :
    m.run callback program level = (none, #[], m) := by
  simp [run, h]

end Machine

end RobotPuzzle
