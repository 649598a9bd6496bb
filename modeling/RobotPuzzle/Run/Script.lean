import RobotPuzzle.Run.Basic

/-!
# Scripts

What a caller does during a run, as data: a list of actions on the machine, each waiting for its cue.
An action may itself be a run with a script of its own.

## Main definitions

- `Cue` — a moment of a run: a pause or a step, and the index of its unit
- `Script` — actions waiting for their cues
- `Note` — what is noted down while a script is played
- `Script.play` — carry out the actions whose cue has come
- `Machine.runScript` — a run with a script

## Design notes

Each action carries the actions after it, and a nested run carries its own script, so playing a script
is a structural recursion although runs nest.
-/

namespace RobotPuzzle

/-- The two phases of a unit at which a caller has control. -/
inductive Moment
  | pause
  | step
deriving DecidableEq, Repr

/-- A moment of a run. -/
structure Cue where
  moment : Moment
  index : Nat
deriving DecidableEq, Repr

/-- The moment of an event. -/
def Event.cue : Event → Cue
  | paused h => ⟨.pause, h.index⟩
  | stepped s => ⟨.step, s.index⟩

/-- What a caller wants of a run besides its report. -/
structure Watch where
  /-- The caller has control at pauses. -/
  pauses : Bool := true
  /-- Pauses and steps are noted down. -/
  noted : Bool := true
deriving DecidableEq, Repr

/-- A run to be made. -/
structure RunRequest where
  program : Program
  level : Option Level
  watch : Watch
deriving DecidableEq

/-- Actions on a machine, each waiting for its cue, in the order in which they are carried out. -/
inductive Script
  | done
  | reset (cue : Cue) (rest : Script)
  | loadLevel (cue : Cue) (level : Level) (rest : Script)
  | view (cue : Cue) (rest : Script)
  | run (cue : Cue) (request : RunRequest) (nested : Script) (rest : Script)
deriving DecidableEq

/-- The state of a machine as it is shown to a player. -/
structure View where
  status : Status
  robot : Robot
  highlighted : Option NodeId
  currentStep : Option Nat
  trace : Array Snapshot
deriving DecidableEq, Repr

/-- The state of a machine as it is shown to a player. -/
def Machine.view (m : Machine) : View :=
  ⟨m.status, m.robot, m.highlightedId, m.currentStep, m.trace⟩

/-- What is noted down during a run. -/
inductive Note
  | paused (h : Highlight)
  | stepped (s : Step)
  | reset
  | loadedLevel
  | viewed (view : View)
  | ran (report : Option RunReport) (notes : Array Note)
deriving Repr

/-- The steps among some notes, in order. -/
def Note.steps (notes : Array Note) : List Step :=
  notes.toList.filterMap fun
    | stepped s => some s
    | _ => none

/-- What is noted down about an event that is watched. -/
def Event.notes (watch : Watch) (e : Event) : List Note :=
  if watch.noted then
    match e with
    | paused h => [.paused h]
    | stepped s => [.stepped s]
  else []

/-- The caller gets control at an event. -/
def Event.watched (watch : Watch) : Event → Bool
  | paused _ => watch.pauses
  | stepped _ => true

/-- A callback that notes down each event it gets control at before it acts. -/
def Callback.watching (watch : Watch) (act : Cue → Machine → List Note × Machine) :
    Callback Note := fun event m =>
  if event.watched watch then
    let (notes, after) := act event.cue m
    (event.notes watch ++ notes, after)
  else ([], m)

/-- Carry out the actions whose cue has come, in order. -/
def Script.play : Script → Cue → Machine → List Note × Machine
  | done, _, m => ([], m)
  | reset c rest, cue, m =>
    if c = cue then
      let (notes, after) := rest.play cue m.reset
      (.reset :: notes, after)
    else rest.play cue m
  | loadLevel c level rest, cue, m =>
    if c = cue then
      let (notes, after) := rest.play cue (m.loadLevel level)
      (.loadedLevel :: notes, after)
    else rest.play cue m
  | view c rest, cue, m =>
    if c = cue then
      let (notes, after) := rest.play cue m
      (.viewed m.view :: notes, after)
    else rest.play cue m
  | run c request nested rest, cue, m =>
    if c = cue then
      let callback := Callback.watching request.watch fun cue m => nested.play cue m
      let (report, inner, after) := m.run callback request.program request.level
      let (notes, last) := rest.play cue after
      (.ran report inner :: notes, last)
    else rest.play cue m

/-- Run a program while a script is played. -/
def Machine.runScript (m : Machine) (request : RunRequest) (script : Script) :
    Option RunReport × Array Note × Machine :=
  m.run (Callback.watching request.watch script.play) request.program request.level

/-- Run a program without acting on the machine. The notes are the steps. -/
def Machine.runUndisturbed (m : Machine) (program : Program) (level : Option Level) :
    Option RunReport × Array Step × Machine :=
  m.run (fun event m =>
    match event with
    | .paused _ => ([], m)
    | .stepped s => ([s], m)) program level

end RobotPuzzle
