import RobotPuzzle.Catalog.Shipped
import RobotPuzzle.Program.Edit
import RobotPuzzle.Proofs.Run.Undisturbed
import RobotPuzzle.Run.Replay

/-!
# Steps and trace tell the same story

The machine writes its trace when it moves the robot, and answers the effect of each unit apart from that.
Robot and trace are nevertheless what the effects tell: one unit takes them as far as its effect does, so
the effects of an undisturbed run, told in order, give its trace, its final state and how it ended.

## Main definitions

- `Machine.tale` — robot and trace of a machine
- `Told` — report and steps of a run are those of the effects of its units

## Main statements

- `Machine.effect_carry`, `Machine.tale_carry` — a unit does to the machine what its effect tells
- `Machine.Undisturbed.told` — an undisturbed run is told by the effects of its units
- `Machine.Undisturbed.replay_steps` — the steps of an undisturbed run, replayed
-/

namespace RobotPuzzle

/-! ## Effects of units -/

namespace Level

variable {level : Level} {beat : Beat} {beats : List Beat} {t : Tale} {e : Effect}
  {earlier later : List Effect}

theorem effects_cons (level : Level) (beat : Beat) (beats : List Beat) (t : Tale) :
    level.effects (beat :: beats) t =
      t.robot.effect level beat ::
        if (Machine.ending level (t.robot.effect level beat)).isSome then []
        else level.effects beats (t.tell (t.robot.effect level beat)) := rfl

theorem deeds_cons (level : Level) (beat : Beat) (beats : List Beat) (t : Tale) :
    level.deeds ((beat :: beats).filterMap Beat.command?) t =
      (beat.command?.map fun c => ⟨c, t.robot.effect level beat,
          (Machine.ending level (t.robot.effect level beat)).map Prod.fst⟩).toList ++
        if (Machine.ending level (t.robot.effect level beat)).isSome then []
        else level.deeds (beats.filterMap Beat.command?) (t.tell (t.robot.effect level beat)) := by
  unfold Robot.effect
  cases h : beat.command? with
  | none =>
    rw [List.filterMap_cons_none h]
    rfl
  | some c =>
    rw [List.filterMap_cons_some h]
    rfl

end Level

/-! ## Robot and trace of the machine -/

namespace Machine

variable {m n : Machine} {level : Level}

/-- Robot and trace of the machine. -/
def tale (m : Machine) : Tale := ⟨m.robot, m.trace.toList⟩

theorem tale_record (m : Machine) (robot : Robot) (action : Option Action) :
    (m.record robot action).tale = m.tale.add robot action := by
  simp [tale, record, Tale.add]

/-- A move has the effect it has on the robot, and shows it. -/
private theorem move_eq (m : Machine) (level : Level) (d : Direction) (steps : Int) {action : Option Action}
    {effect : Cell → Effect}
    (heffect : ∀ t : Tale, ∀ c, t.tell (effect c) = t.add { t.robot with position := c } action) :
    (m.move level d steps action effect).1 = level.heading (m.robot.position.offset d steps) effect ∧
      (m.move level d steps action effect).2.tale =
        m.tale.tell (level.heading (m.robot.position.offset d steps) effect) := by
  unfold move Level.heading
  dsimp only
  split
  · refine ⟨rfl, ?_⟩
    rw [tale_record, heffect]
    rfl
  · exact ⟨rfl, rfl⟩

private theorem carry_eq (m : Machine) (level : Level) (h : Highlight) :
    (m.carry level h).1 = m.robot.effect level h.beat ∧
      (m.carry level h).2.tale = m.tale.tell (m.robot.effect level h.beat) := by
  unfold carry Robot.effect Beat.command?
  split
  · exact ⟨rfl, rfl⟩
  · cases h.beat.kind with
    | forward => exact m.takeUp.move_eq level _ 1 fun _ _ => rfl
    | back => exact m.takeUp.move_eq level _ 1 fun _ _ => rfl
    | jump => exact m.takeUp.move_eq level _ 2 fun _ _ => rfl
    | turnLeft => exact ⟨rfl, m.takeUp.tale_record _ _⟩
    | turnRight => exact ⟨rfl, m.takeUp.tale_record _ _⟩
    | wait => exact ⟨rfl, m.takeUp.tale_record _ _⟩
    | stop | loop => exact ⟨rfl, rfl⟩

theorem effect_carry (m : Machine) (level : Level) (h : Highlight) :
    (m.carry level h).1 = m.robot.effect level h.beat := (m.carry_eq level h).1

/-- A unit takes robot and trace as far as its effect tells. -/
theorem tale_carry (m : Machine) (level : Level) (h : Highlight) :
    (m.carry level h).2.tale = m.tale.tell (m.carry level h).1 := by
  rw [effect_carry]
  exact (m.carry_eq level h).2

theorem deeds_tale_cons (m : Machine) (level : Level) (beat : Beat) (beats : List Beat) :
    level.deeds ((beat :: beats).filterMap Beat.command?) m.tale =
      (beat.command?.map fun c => ⟨c, (m.carry level ⟨m.cursor, beat⟩).1,
          (ending level (m.carry level ⟨m.cursor, beat⟩).1).map Prod.fst⟩).toList ++
        if (ending level (m.carry level ⟨m.cursor, beat⟩).1).isSome then []
        else level.deeds (beats.filterMap Beat.command?) (m.carry level ⟨m.cursor, beat⟩).2.tale := by
  rw [tale_carry, effect_carry]
  exact level.deeds_cons beat beats m.tale

theorem effects_tale_cons (m : Machine) (level : Level) (beat : Beat) (beats : List Beat) :
    level.effects (beat :: beats) m.tale =
      (m.carry level ⟨m.cursor, beat⟩).1 ::
        if (ending level (m.carry level ⟨m.cursor, beat⟩).1).isSome then []
        else level.effects beats (m.carry level ⟨m.cursor, beat⟩).2.tale := by
  rw [tale_carry, effect_carry]
  rfl

/-- With `beats` still to come on machine `m`, a run tells of the steps, ends with the report and leaves `n`:
the steps have the effects of the units, and these tell the rest. -/
structure Told (level : Level) (beats : List Beat) (m : Machine) (r : RunReport) (steps : List Step)
    (n : Machine) : Prop where
  effects_eq : steps.map (·.effect) = level.effects beats m.tale
  deeds_eq : steps.filterMap Step.deed? = level.deeds (beats.filterMap Beat.command?) m.tale
  outcome_eq : ∀ s ∈ steps, s.outcome = (ending level s.effect).map Prod.fst
  tale_eq : n.tale = m.tale.tellAll (steps.map (·.effect))
  ending_eq : (r.outcome, n.status) = level.outcomeOf (steps.map (·.effect)) n.robot
  cursor_eq : n.cursor = m.cursor + steps.length
  units_eq : n.units = m.units
  report_eq : r = n.report r.outcome

namespace Told

variable {beat : Beat} {beats : List Beat} {r : RunReport} {steps : List Step}

theorem exhausted (hlevel : m.level = some level) :
    Told level [] m ((m.finish .idle).report (if m.OnTarget then .won else .notReached)) []
      (m.finish .idle) where
  effects_eq := rfl
  deeds_eq := rfl
  outcome_eq := fun _ hs => absurd hs List.not_mem_nil
  tale_eq := rfl
  ending_eq := by
    have htarget : m.OnTarget ↔ m.robot.position = level.target := by simp [OnTarget, hlevel]
    simp only [htarget]
    rfl
  cursor_eq := rfl
  units_eq := rfl
  report_eq := rfl

theorem ended {outcome : Outcome} {status : Status}
    (hend : ending level (m.carry level ⟨m.cursor, beat⟩).1 = some (outcome, status)) :
    Told level (beat :: beats) m
      (((m.carry level ⟨m.cursor, beat⟩).2.finish status).report outcome)
      [⟨m.cursor, beat, (m.carry level ⟨m.cursor, beat⟩).1, some outcome⟩]
      ((m.carry level ⟨m.cursor, beat⟩).2.finish status) where
  effects_eq := by
    rw [effects_tale_cons, hend]
    rfl
  deeds_eq := by
    rw [deeds_tale_cons, hend, List.filterMap_cons, Step.deed?]
    cases beat.command? <;> rfl
  outcome_eq := by
    rw [List.forall_mem_singleton, hend]
    rfl
  tale_eq := tale_carry m level _
  ending_eq := by
    rw [Level.outcomeOf, List.map_singleton, List.findSome?_singleton, hend]
    rfl
  cursor_eq := cursor_carry m level _
  units_eq := units_carry m level _
  report_eq := rfl

/-- A unit that does not end the run, and what is told after it. -/
theorem next (hend : ending level (m.carry level ⟨m.cursor, beat⟩).1 = none)
    (h : Told level beats (m.carry level ⟨m.cursor, beat⟩).2 r steps n) :
    Told level (beat :: beats) m r
      (⟨m.cursor, beat, (m.carry level ⟨m.cursor, beat⟩).1, none⟩ :: steps) n where
  effects_eq := by
    rw [effects_tale_cons, hend, List.map_cons, h.effects_eq]
    rfl
  deeds_eq := by
    rw [deeds_tale_cons, hend, List.filterMap_cons, Step.deed?, h.deeds_eq]
    cases beat.command? <;> rfl
  outcome_eq := by
    rw [List.forall_mem_cons, hend]
    exact ⟨rfl, h.outcome_eq⟩
  tale_eq := by
    rw [h.tale_eq, tale_carry]
    rfl
  ending_eq := by
    rw [h.ending_eq, Level.outcomeOf, Level.outcomeOf, List.map_cons, List.findSome?_cons, hend]
  cursor_eq := by
    rw [h.cursor_eq, cursor_carry, List.length_cons]
    omega
  units_eq := h.units_eq.trans (units_carry m level _)
  report_eq := h.report_eq

end Told

/-- A course without a takeover is told by the effects of its units. -/
theorem Course.told {ε : Type} {callback : Callback ε} {beats : List Beat} {xs : List (Handover ε)}
    {r : RunReport} (hcourse : Course callback level beats m xs r n) (hkeeps : ∀ x ∈ xs, x.Keeps)
    (hlevel : m.level = some level) :
    Told level beats m r (xs.filterMap (·.event.step?)) n := by
  induction hcourse with
  | exhausted m => exact .exhausted hlevel
  -- a caller that takes the machine over does not hand it back as it was
  | takenPaused m beat beats hp htakes =>
    exact absurd (hkeeps _ List.mem_cons_self) htakes.not_keeps
  | takenStepped m beat beats hp hkept hend hs htakes =>
    exact absurd (hkeeps _ (List.mem_cons_of_mem _ List.mem_cons_self)) htakes.not_keeps
  | @ended m beat beats p s outcome status hp hkept hend hs =>
    have hafter : s.after = s.before := hkeeps s (List.mem_cons_of_mem _ List.mem_cons_self)
    rw [hafter]
    subst hp hs
    exact .ended hend
  | next m beat hp hkept hend hs hkept' hrest ih =>
    have hnext := ih (fun x hx => hkeeps x (List.mem_cons_of_mem _ (List.mem_cons_of_mem _ hx)))
      ((level_carry m level _).trans hlevel)
    subst hp hs
    exact hnext.next hend

section
variable {ε : Type} {callback : Callback ε} {beats : List Beat} {xs earlier later : List (Handover ε)}
  {x : Handover ε} {r : RunReport}

end

namespace Undisturbed

variable {ε : Type} {callback : Callback ε} {program : Program} {r : RunReport} {steps : List Step}

theorem told (h : m.Undisturbed callback program level r steps n) :
    Told level program.unroll (m.launched level program.unroll) r steps n := by
  rw [← h.steps_eq]
  exact h.exists_course.told h.keeps rfl

theorem effects_eq (h : m.Undisturbed callback program level r steps n) :
    steps.map (·.effect) = level.effects program.unroll (.initial level) := h.told.effects_eq

theorem executed_eq (h : m.Undisturbed callback program level r steps n) : r.executed = steps.length := by
  calc r.executed = n.cursor := by
        rw [h.told.report_eq]
        rfl
    _ = 0 + steps.length := h.told.cursor_eq
    _ = steps.length := Nat.zero_add _

/-- The report tells the number of all units of the program. -/
theorem unrolledLength_eq (h : m.Undisturbed callback program level r steps n) :
    r.unrolledLength = program.unroll.length := by
  calc r.unrolledLength = n.units.size := by
        rw [h.told.report_eq]
        rfl
    _ = program.unroll.length := by simp [h.told.units_eq, launched]

/-- The effects tell how the run ended. -/
theorem ending_eq (h : m.Undisturbed callback program level r steps n) :
    (r.outcome, n.status) = level.outcomeOf (steps.map (·.effect)) r.robot := by
  have hrobot : r.robot = n.robot := by
    rw [h.told.report_eq]
    rfl
  rw [hrobot]
  exact h.told.ending_eq

/-- The effects of the steps tell robot and trace of the report. -/
theorem replay_eq (h : m.Undisturbed callback program level r steps n) :
    level.replay (steps.map (·.effect)) = ⟨r.robot, r.trace.toList⟩ := by
  rw [h.told.report_eq]
  exact h.told.tale_eq.symm

end Undisturbed

end Machine

end RobotPuzzle
