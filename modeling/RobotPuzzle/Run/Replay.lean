import RobotPuzzle.Run.Basic

/-!
# Effects and their replay

What a run does, told without a machine: what a unit does depends on where the robot stands, and what has
been done tells where the robot stands next and what its history shows. A run is thus its effects, and
two runs are compared by comparing those.

## Main definitions

- `Robot.obey`, `Robot.effect` — what a command and a unit do to a robot
- `Tale`, `Tale.tell` — robot and history, and how an effect takes them further
- `Level.effects` — the effects of units up to the one that ends a run
- `Deed`, `Level.deeds` — the same of commands alone, without the markers between them
- `Level.replay`, `Level.outcomeOf` — what effects tell of a run: robot and history, and how it ended
-/

namespace RobotPuzzle

/-- The effect of a robot heading for a cell of the level. -/
def Level.heading (level : Level) (cell : Cell) (effect : Cell → Effect) : Effect :=
  if level.Free cell then effect cell else .blocked cell

namespace Robot

/-- What a command does to a robot. -/
def obey (level : Level) (robot : Robot) : Command → Effect
  | .forward => level.heading (robot.position.offset robot.facing 1) .moved
  | .back => level.heading (robot.position.offset robot.facing.opposite 1) .moved
  | .jump => level.heading (robot.position.offset robot.facing 2) .jumped
  | .turnLeft => .turned (robot.rotation + -90)
  | .turnRight => .turned (robot.rotation + 90)
  | .wait => .waited
  | .stop => .stopped

/-- What a unit does to a robot. -/
def effect (level : Level) (robot : Robot) (beat : Beat) : Effect :=
  beat.command?.elim .marker (robot.obey level)

end Robot

/-- A robot and what its history shows so far. -/
structure Tale where
  robot : Robot
  history : List Snapshot
deriving DecidableEq, Repr

namespace Tale

/-- Before the first effect. -/
def initial (level : Level) : Tale := ⟨.initial level, [(Robot.initial level).snapshot none]⟩

/-- The robot is now as given, and a snapshot shows it. -/
def add (t : Tale) (robot : Robot) (action : Option Action) : Tale :=
  ⟨robot, t.history ++ [robot.snapshot action]⟩

/-- An effect is told. A robot that has moved, jumped, turned or waited is shown; nothing is shown of the
other effects. -/
def tell (t : Tale) : Effect → Tale
  | .moved cell => t.add { t.robot with position := cell } none
  | .jumped cell => t.add { t.robot with position := cell } (some .jump)
  | .turned rotation => t.add { t.robot with rotation := rotation } (some .turn)
  | .waited => t.add t.robot (some .wait)
  | .marker | .blocked _ | .stopped => t

/-- Effects are told in order. -/
def tellAll (t : Tale) (effects : List Effect) : Tale := effects.foldl tell t

@[simp] theorem tellAll_nil (t : Tale) : t.tellAll [] = t := rfl

@[simp] theorem tellAll_cons (t : Tale) (e : Effect) (effects : List Effect) :
    t.tellAll (e :: effects) = (t.tell e).tellAll effects := rfl

end Tale

/-- What a command came to: its effect, and the outcome of a run that it ends. -/
structure Deed where
  command : Command
  effect : Effect
  outcome : Option Outcome
deriving DecidableEq, Repr

/-- What the command of a step came to. The step of a marker has none. -/
def Step.deed? (s : Step) : Option Deed := s.beat.command?.map (⟨·, s.effect, s.outcome⟩)

namespace Level

/-- The effects of units, up to the first that ends a run. -/
def effects (level : Level) : List Beat → Tale → List Effect
  | [], _ => []
  | beat :: rest, t =>
    let e := t.robot.effect level beat
    e :: if (Machine.ending level e).isSome then [] else effects level rest (t.tell e)

/-- What commands come to, up to the first that ends a run. -/
def deeds (level : Level) : List Command → Tale → List Deed
  | [], _ => []
  | c :: rest, t =>
    let e := t.robot.obey level c
    ⟨c, e, (Machine.ending level e).map Prod.fst⟩ ::
      if (Machine.ending level e).isSome then [] else deeds level rest (t.tell e)

/-- What effects tell of a run on the level. -/
def replay (level : Level) (effects : List Effect) : Tale := (Tale.initial level).tellAll effects

/-- How a run with some effects ended, and the status it left, if the robot is where it is now. -/
def outcomeOf (level : Level) (effects : List Effect) (robot : Robot) : Outcome × Status :=
  (effects.findSome? (Machine.ending level)).getD
    (if robot.position = level.target then .won else .notReached, .idle)

end Level

end RobotPuzzle
