import Mathlib.Data.List.Forall2
import RobotPuzzle.Proofs.Board.QuarterTurn
import RobotPuzzle.Proofs.Run.Replay

/-!
# Runs on a turned level

A run does not prefer any direction. On a level turned a quarter clockwise the robot stands at the turned
cell with its rotation a quarter further, up to full turns, and it stays so: every unit has the turned
effect, and the turned effect tells the turned tale.

## Main definitions

- `Robot.Turned`, `Effect.Turned`, `Snapshot.Turned`, `Tale.Turned` — the second is the first after a
  quarter turn of the board
- `Effect.kind` — an effect without its cell or rotation

## Main statements

- `Level.turned_effect` — a unit has the turned effect
- `Level.turned_effects`, `Tale.Turned.tellAll` — so have all units, and they tell the turned tale
- `Machine.Undisturbed.quarter_turn` — an undisturbed run on the turned level is the turned run
-/

namespace RobotPuzzle

/-! ## Turned robots, effects and tales -/

/-- The second robot is the first on a board turned a quarter clockwise. -/
structure Robot.Turned (size : Int) (robot robot' : Robot) : Prop where
  position_eq : robot'.position = robot.position.quarterTurned size
  rotation_eq : robot'.rotation % 360 = (robot.rotation + 90) % 360
  aligned : 90 ∣ robot.rotation

/-- The second snapshot is the first on a board turned a quarter clockwise. -/
structure Snapshot.Turned (size : Int) (s s' : Snapshot) : Prop where
  position_eq : s'.position = s.position.quarterTurned size
  rotation_eq : s'.rotation % 360 = (s.rotation + 90) % 360
  action_eq : s'.action = s.action

/-- The second tale is the first on a board turned a quarter clockwise. -/
structure Tale.Turned (size : Int) (t t' : Tale) : Prop where
  robot : t.robot.Turned size t'.robot
  history : List.Forall₂ (Snapshot.Turned size) t.history t'.history

/-- The second effect is the first on a board turned a quarter clockwise. -/
inductive Effect.Turned (size : Int) : Effect → Effect → Prop
  | marker : Turned size .marker .marker
  | moved (cell : Cell) : Turned size (.moved cell) (.moved (cell.quarterTurned size))
  | jumped (cell : Cell) : Turned size (.jumped cell) (.jumped (cell.quarterTurned size))
  | blocked (cell : Cell) : Turned size (.blocked cell) (.blocked (cell.quarterTurned size))
  | turned {rotation rotation' : Int} (hrotation : rotation' % 360 = (rotation + 90) % 360)
      (haligned : 90 ∣ rotation) : Turned size (.turned rotation) (.turned rotation')
  | waited : Turned size .waited .waited
  | stopped : Turned size .stopped .stopped

/-- The kind of an effect. -/
inductive EffectKind
  | marker
  | moved
  | jumped
  | blocked
  | turned
  | waited
  | stopped
deriving DecidableEq, Repr

/-- What kind of effect it is, whatever the cell or the rotation. -/
def Effect.kind : Effect → EffectKind
  | marker => .marker
  | moved _ => .moved
  | jumped _ => .jumped
  | blocked _ => .blocked
  | turned _ => .turned
  | waited => .waited
  | stopped => .stopped

variable {size : Int} {level : Level} {e e' : Effect} {es es' : List Effect} {t t' : Tale}

theorem Effect.map_kind_eq (h : List.Forall₂ (Effect.Turned size) es es') :
    es.map Effect.kind = es'.map Effect.kind := by
  induction h with
  | nil => rfl
  | cons he _ ih =>
    rw [List.map_cons, List.map_cons, ih]
    cases he <;> rfl

namespace Robot.Turned

variable {robot robot' : Robot}

/-- The turned robot faces the next direction clockwise. -/
theorem facing_eq (h : robot.Turned size robot') : robot'.facing = robot.facing.clockwise :=
  (Direction.ofDegrees_congr h.rotation_eq).trans (Direction.ofDegrees_add_quarter h.aligned)

theorem initial (level : Level) :
    (Robot.initial level).Turned level.size (Robot.initial level.quarterTurned) := by
  refine ⟨rfl, ?_, Direction.dvd_degrees _⟩
  show level.facing.clockwise.degrees % 360 = (level.facing.degrees + 90) % 360
  cases level.facing <;> rfl

end Robot.Turned

namespace Tale.Turned

theorem initial (level : Level) :
    (Tale.initial level).Turned level.size (Tale.initial level.quarterTurned) := by
  have hrobot := Robot.Turned.initial level
  exact ⟨hrobot, .cons ⟨hrobot.position_eq, hrobot.rotation_eq, rfl⟩ .nil⟩

theorem add (h : t.Turned size t') (action : Option Action) {robot robot' : Robot}
    (hrobot : robot.Turned size robot') : (t.add robot action).Turned size (t'.add robot' action) :=
  ⟨hrobot, List.rel_append h.history (.cons ⟨hrobot.position_eq, hrobot.rotation_eq, rfl⟩ .nil)⟩

theorem tell (h : t.Turned size t') (he : e.Turned size e') : (t.tell e).Turned size (t'.tell e') := by
  cases he with
  | moved cell => exact h.add _ ⟨rfl, h.robot.rotation_eq, h.robot.aligned⟩
  | jumped cell => exact h.add _ ⟨rfl, h.robot.rotation_eq, h.robot.aligned⟩
  | turned hrotation haligned => exact h.add _ ⟨h.robot.position_eq, hrotation, haligned⟩
  | waited => exact h.add _ h.robot
  | marker | blocked | stopped => exact h

theorem tellAll (h : t.Turned size t') (hes : List.Forall₂ (Effect.Turned size) es es') :
    (t.tellAll es).Turned size (t'.tellAll es') := by
  induction hes generalizing t t' with
  | nil => exact h
  | cons he _ ih => exact ih (h.tell he)

end Tale.Turned

/-! ## Turned runs -/

namespace Level

theorem turned_heading {effect : Cell → Effect}
    (heffect : ∀ c, (effect c).Turned level.size (effect (c.quarterTurned level.size))) (c : Cell) :
    (level.heading c effect).Turned level.size
      (level.quarterTurned.heading (c.quarterTurned level.size) effect) := by
  by_cases hfree : level.Free c
  · rw [heading, heading, if_pos hfree, if_pos (free_quarterTurned.2 hfree)]
    exact heffect c
  · rw [heading, heading, if_neg hfree, if_neg (fun h => hfree (free_quarterTurned.1 h))]
    exact .blocked c

theorem turned_obey {robot robot' : Robot} (h : robot.Turned level.size robot') (c : Command) :
    (robot.obey level c).Turned level.size (robot'.obey level.quarterTurned c) := by
  have hrotation := h.rotation_eq
  have haligned := h.aligned
  cases c with
  | forward =>
    rw [Robot.obey, Robot.obey, h.position_eq, h.facing_eq, ← Cell.quarterTurned_offset]
    exact turned_heading .moved _
  | back =>
    rw [Robot.obey, Robot.obey, h.position_eq, h.facing_eq, Direction.opposite_clockwise,
      ← Cell.quarterTurned_offset]
    exact turned_heading .moved _
  | jump =>
    rw [Robot.obey, Robot.obey, h.position_eq, h.facing_eq, ← Cell.quarterTurned_offset]
    exact turned_heading .jumped _
  | turnLeft => exact .turned (by omega) (by omega)
  | turnRight => exact .turned (by omega) (by omega)
  | wait => exact .waited
  | stop => exact .stopped

theorem turned_effect {robot robot' : Robot} (h : robot.Turned level.size robot') (beat : Beat) :
    (robot.effect level beat).Turned level.size (robot'.effect level.quarterTurned beat) := by
  rw [Robot.effect, Robot.effect]
  cases beat.command? with
  | none => exact .marker
  | some c => exact turned_obey h c

/-- Turned effects end a run the same way. -/
theorem ending_turned (h : e.Turned level.size e') :
    Machine.ending level.quarterTurned e' = Machine.ending level e := by
  have htarget : ∀ cell : Cell,
      cell.quarterTurned level.size = level.quarterTurned.target ↔ cell = level.target :=
    fun cell => Cell.quarterTurned_inj
  cases h with
  | moved cell => simp only [Machine.ending, htarget]
  | jumped cell => simp only [Machine.ending, htarget]
  | marker | blocked | turned | waited | stopped => rfl

theorem turned_effects (h : t.Turned level.size t') (beats : List Beat) :
    List.Forall₂ (Effect.Turned level.size) (level.effects beats t)
      (level.quarterTurned.effects beats t') := by
  induction beats generalizing t t' with
  | nil => exact .nil
  | cons beat beats ih =>
    have heffect := turned_effect h.robot beat
    rw [effects_cons, effects_cons, ending_turned heffect]
    refine .cons heffect ?_
    split
    · exact .nil
    · exact ih (h.tell heffect)

theorem findSome?_ending_turned (h : List.Forall₂ (Effect.Turned level.size) es es') :
    es'.findSome? (Machine.ending level.quarterTurned) = es.findSome? (Machine.ending level) := by
  induction h with
  | nil => rfl
  | cons he _ ih => rw [List.findSome?_cons, List.findSome?_cons, ending_turned he, ih]

/-- Turned effects that leave the robot at the turned cell end a run the same way. -/
theorem outcomeOf_turned {robot robot' : Robot} (h : List.Forall₂ (Effect.Turned level.size) es es')
    (hrobot : robot.Turned level.size robot') :
    level.quarterTurned.outcomeOf es' robot' = level.outcomeOf es robot := by
  have htarget : robot'.position = level.quarterTurned.target ↔ robot.position = level.target := by
    rw [hrobot.position_eq]
    exact Cell.quarterTurned_inj
  rw [outcomeOf, outcomeOf, findSome?_ending_turned h]
  simp only [htarget]

end Level

namespace Machine

/-- Whether a run starts does not depend on the level. -/
theorem isSome_start_congr (m : Machine) (program : Program) (level level' : Level) :
    (m.start program (some level)).isSome = (m.start program (some level')).isSome := by
  unfold start
  dsimp only
  split
  · rfl
  · cases program.unrollWithin m.maxUnits <;> rfl

/-- The simulation has no preferred direction. A program starts on a level and on the level turned a
quarter clockwise alike; undisturbed runs of it end the same way after as many units with effects of the
same kinds, and the trace on the turned level is the turned trace. -/
theorem Undisturbed.quarter_turn {ε₁ ε₂ : Type} {m₁ n₁ m₂ n₂ : Machine} {callback₁ : Callback ε₁}
    {callback₂ : Callback ε₂} {program : Program} {level : Level} {r₁ r₂ : RunReport}
    {steps₁ steps₂ : List Step} (h₁ : m₁.Undisturbed callback₁ program level r₁ steps₁ n₁)
    (h₂ : m₂.Undisturbed callback₂ program level.quarterTurned r₂ steps₂ n₂) :
    (∀ m : Machine, (m.start program (some level)).isSome =
        (m.start program (some level.quarterTurned)).isSome) ∧
      r₁.outcome = r₂.outcome ∧ n₁.status = n₂.status ∧ r₁.executed = r₂.executed ∧
      steps₁.map (·.effect.kind) = steps₂.map (·.effect.kind) ∧
      List.Forall₂ (Snapshot.Turned level.size) r₁.trace.toList r₂.trace.toList := by
  have heffects : List.Forall₂ (Effect.Turned level.size) (steps₁.map (·.effect)) (steps₂.map (·.effect)) := by
    rw [h₁.effects_eq, h₂.effects_eq]
    exact Level.turned_effects (.initial level) program.unroll
  have htale : Tale.Turned level.size ⟨r₁.robot, r₁.trace.toList⟩ ⟨r₂.robot, r₂.trace.toList⟩ := by
    rw [← h₁.replay_eq, ← h₂.replay_eq]
    exact (Tale.Turned.initial level).tellAll heffects
  have hending : (r₁.outcome, n₁.status) = (r₂.outcome, n₂.status) := by
    rw [h₁.ending_eq, h₂.ending_eq]
    exact (Level.outcomeOf_turned heffects htale.robot).symm
  obtain ⟨houtcome, hstatus⟩ := Prod.mk.inj hending
  have hkinds := Effect.map_kind_eq heffects
  rw [List.map_map, List.map_map] at hkinds
  have hlength : steps₁.length = steps₂.length := by simpa using heffects.length_eq
  refine ⟨fun m => m.isSome_start_congr program level _, houtcome, hstatus, ?_, hkinds, htale.history⟩
  rw [h₁.executed_eq, h₂.executed_eq, hlength]

/-- Two steps ahead, then to the right up against an obstacle and over it. -/
def hurdling : Program :=
  .ofForest (.loop () 2 (.command () .forward .nil)
    (.command () .turnRight (.loop () 2 (.command () .forward .nil) (.command () .jump .nil))))

/-- Every kind of effect but a wait and a stop, on a shipped level and on the same turned. -/
theorem Undisturbed.quarter_turn_hurdling :
    ∃ level ∈ Catalog.shipped.levels, ∃ r₁ steps₁ n₁ r₂ steps₂ n₂,
      (new defaultMaxUnits).Undisturbed Callback.collecting hurdling level r₁ steps₁ n₁ ∧
        (new defaultMaxUnits).Undisturbed Callback.collecting hurdling level.quarterTurned r₂ steps₂ n₂ ∧
        steps₁.map (·.effect.kind) =
          [.marker, .moved, .moved, .turned, .marker, .moved, .blocked, .jumped] ∧
        r₁.robot = ⟨⟨3, 3⟩, 90⟩ ∧ r₂.robot = ⟨⟨2, 3⟩, 180⟩ ∧
        r₁.outcome = r₂.outcome ∧ n₁.status = n₂.status ∧ r₁.executed = r₂.executed ∧
        steps₁.map (·.effect.kind) = steps₂.map (·.effect.kind) ∧
        List.Forall₂ (Snapshot.Turned level.size) r₁.trace.toList r₂.trace.toList := by
  have hrun₁ : ((new defaultMaxUnits).runUndisturbed hurdling (some Catalog.shipped.levels[16])).1.map
      (·.robot) = some ⟨⟨3, 3⟩, 90⟩ := by decide
  have hrun₂ : ((new defaultMaxUnits).runUndisturbed hurdling
      (some Catalog.shipped.levels[16].quarterTurned)).1.map (·.robot) = some ⟨⟨2, 3⟩, 180⟩ := by decide
  obtain ⟨r₁, hr₁, hrobot₁⟩ := Option.map_eq_some_iff.1 hrun₁
  obtain ⟨r₂, hr₂, hrobot₂⟩ := Option.map_eq_some_iff.1 hrun₂
  obtain ⟨-, houtcome, hstatus, hexecuted, hkinds, htrace⟩ :=
    quarter_turn (of_runUndisturbed hr₁) (of_runUndisturbed hr₂)
  exact ⟨_, List.getElem_mem _, _, _, _, _, _, _, of_runUndisturbed hr₁, of_runUndisturbed hr₂, by decide,
    hrobot₁, hrobot₂, houtcome, hstatus, hexecuted, hkinds, htrace⟩

end Machine

end RobotPuzzle
