import RobotPuzzle.Machine.Call

/-!
# Transitions of the machine

What every call can do, said once: a call is refused, takes the machine over, or is a phase of the run
that holds the machine. Statements about histories are proved by cases on the transition, without
opening the calls themselves.

## Main definitions

- `Robot.Leads` — what a robot may be seen to do next on a level
- `Machine.launched` — the machine at the beginning of a run
- `Machine.carry` — what a highlighted unit does, before it is decided whether it ends the run
- `Machine.Transition` — a call, its answer and the machine after it

## Main statements

- `Machine.transition_perform` — every call is a transition
-/

namespace RobotPuzzle

/-- On a level, a snapshot may show the robot next: it has made a quarter turn or waited where it is, or
it has gone one step along or against its facing, or jumped two along it, onto a free cell. -/
inductive Robot.Leads (level : Level) (robot : Robot) : Snapshot → Prop
  | turned (degrees : Int) (hquarter : degrees = 90 ∨ degrees = -90) :
    Leads level robot ⟨robot.position, robot.rotation + degrees, some .turn⟩
  | waited : Leads level robot ⟨robot.position, robot.rotation, some .wait⟩
  | stepped (steps : Int) (hstep : steps = 1 ∨ steps = -1)
    (hfree : level.Free (robot.position.offset robot.facing steps)) :
    Leads level robot ⟨robot.position.offset robot.facing steps, robot.rotation, none⟩
  | jumped (hfree : level.Free (robot.position.offset robot.facing 2)) :
    Leads level robot ⟨robot.position.offset robot.facing 2, robot.rotation, some .jump⟩

/-- A rotation grows by a quarter turn at most. -/
theorem Robot.Leads.natAbs_rotation_le {level : Level} {robot : Robot} {s : Snapshot}
    (h : robot.Leads level s) : s.rotation.natAbs ≤ robot.rotation.natAbs + 90 := by
  cases h with
  | turned degrees hquarter =>
    dsimp only
    omega
  | waited | stepped | jumped => exact Nat.le_add_right _ _

theorem Robot.natAbs_rotation_initial_le (level : Level) :
    (Robot.initial level).rotation.natAbs ≤ 270 := by
  show level.facing.degrees.natAbs ≤ 270
  cases level.facing <;> decide

namespace Machine

variable {m n : Machine} {t : Ticket}

/-- The machine at the beginning of a run. -/
def launched (m : Machine) (level : Level) (units : List Beat) : Machine :=
  { m with
    level := some level, robot := .initial level,
    trace := #[(Robot.initial level).snapshot none], status := .running, units := units.toArray,
    cursor := 0, highlight := none, generation := m.generation + 1 }

/-- The machine after the highlighted unit was taken up. -/
def takeUp (m : Machine) : Machine := { m with highlight := none, cursor := m.cursor + 1 }

/-- What a highlighted unit does, and the machine that has carried it out. A loop marker does
nothing. -/
def carry (m : Machine) (level : Level) (h : Highlight) : Effect × Machine :=
  if h.beat.marker then (.marker, m.takeUp) else m.takeUp.execute level h.beat.kind

/-- A unit leaves robot and history as they are, or adds to the history what the robot may do next. -/
theorem carry_cases (m : Machine) (level : Level) (h : Highlight) :
    (m.carry level h).2 = m.takeUp ∨ ∃ robot action, (m.carry level h).2 = m.takeUp.record robot action ∧
      m.robot.Leads level (robot.snapshot action) := by
  -- a move leaves everything as it is when it is blocked, and records a new position otherwise
  have hmove : ∀ d steps action effect,
      (level.Free (m.robot.position.offset d steps) →
        m.robot.Leads level ⟨m.robot.position.offset d steps, m.robot.rotation, action⟩) →
      (m.takeUp.move level d steps action effect).2 = m.takeUp ∨
        ∃ robot action', (m.takeUp.move level d steps action effect).2 = m.takeUp.record robot action' ∧
          m.robot.Leads level (robot.snapshot action') := by
    intro d steps action effect hleads
    unfold move
    dsimp only
    split
    · rename_i hfree
      exact Or.inr ⟨_, action, rfl, hleads hfree⟩
    · exact Or.inl rfl
  unfold carry
  split
  · exact Or.inl rfl
  · cases h.beat.kind with
    | forward => exact hmove _ _ _ _ (.stepped 1 (Or.inl rfl))
    | back =>
      have hleads : level.Free (m.robot.position.offset m.robot.facing.opposite 1) →
          m.robot.Leads level
            ⟨m.robot.position.offset m.robot.facing.opposite 1, m.robot.rotation, none⟩ := by
        rw [Cell.offset_opposite]
        exact .stepped (-1) (Or.inr rfl)
      exact hmove _ _ _ _ hleads
    | jump => exact hmove _ _ _ _ .jumped
    | turnLeft => exact Or.inr ⟨_, some .turn, rfl, .turned (-90) (Or.inr rfl)⟩
    | turnRight => exact Or.inr ⟨_, some .turn, rfl, .turned 90 (Or.inl rfl)⟩
    | wait => exact Or.inr ⟨m.robot, some .wait, rfl, .waited⟩
    | stop | loop => exact Or.inl rfl

/-- A unit takes the highlight and changes at most the robot and the history besides. -/
theorem exists_carry_eq (m : Machine) (level : Level) (h : Highlight) :
    ∃ robot trace, (m.carry level h).2 = { m.takeUp with robot := robot, trace := trace } := by
  rcases carry_cases m level h with hsame | ⟨robot, action, hrecord, -⟩
  · exact ⟨m.robot, m.trace, hsame⟩
  · exact ⟨robot, _, hrecord⟩

section
variable (m : Machine) (level : Level) (h : Highlight)

@[simp] theorem level_carry : (m.carry level h).2.level = m.level := by
  obtain ⟨_, _, he⟩ := exists_carry_eq m level h
  rw [he]; rfl

@[simp] theorem status_carry : (m.carry level h).2.status = m.status := by
  obtain ⟨_, _, he⟩ := exists_carry_eq m level h
  rw [he]; rfl

@[simp] theorem units_carry : (m.carry level h).2.units = m.units := by
  obtain ⟨_, _, he⟩ := exists_carry_eq m level h
  rw [he]; rfl

@[simp] theorem cursor_carry : (m.carry level h).2.cursor = m.cursor + 1 := by
  obtain ⟨_, _, he⟩ := exists_carry_eq m level h
  rw [he]; rfl

@[simp] theorem highlight_carry : (m.carry level h).2.highlight = none := by
  obtain ⟨_, _, he⟩ := exists_carry_eq m level h
  rw [he]; rfl

@[simp] theorem generation_carry : (m.carry level h).2.generation = m.generation := by
  obtain ⟨_, _, he⟩ := exists_carry_eq m level h
  rw [he]; rfl

end

theorem size_trace_le_carry (m : Machine) (level : Level) (h : Highlight) :
    m.trace.size ≤ (m.carry level h).2.trace.size := by
  rcases carry_cases m level h with hsame | ⟨robot, action, hrecord, -⟩
  · rw [hsame]
    exact Nat.le_refl _
  · rw [hrecord, record, Array.size_push]
    exact Nat.le_succ _

theorem natAbs_rotation_carry_le (m : Machine) (level : Level) (h : Highlight) :
    (m.carry level h).2.robot.rotation.natAbs ≤ m.robot.rotation.natAbs + 90 := by
  rcases carry_cases m level h with hsame | ⟨robot, action, hrecord, hleads⟩
  · rw [hsame]
    exact Nat.le_add_right _ _
  · have hturn : robot.rotation.natAbs ≤ m.robot.rotation.natAbs + 90 :=
      hleads.natAbs_rotation_le
    rw [hrecord]
    exact hturn

/-- An ending leaves the machine idle or the level completed. -/
theorem status_ne_running_of_ending {level : Level} {e : Effect} {outcome : Outcome} {status : Status}
    (h : ending level e = some (outcome, status)) : status ≠ .running := by
  rintro rfl
  cases e <;> simp [ending] at h

/-- A run starts exactly on a level, with a program that has instructions and fits, while no other run
goes on. -/
theorem start_eq_some_iff {program : Program} {level : Option Level} :
    m.start program level = some (t, n) ↔
      ∃ l units, level = some l ∧ program.isEmpty = false ∧ m.status ≠ .running ∧
        program.unrollWithin m.maxUnits = .ok units ∧ t = ⟨m.generation + 1⟩ ∧
        n = m.launched l units := by
  constructor
  · intro h
    unfold start at h
    cases level with
    | none => simp at h
    | some l =>
      simp only at h
      split at h
      · simp at h
      · rename_i hfree
        rw [Bool.or_eq_true, not_or] at hfree
        split at h
        · simp at h
        · rename_i units hunits
          simp only [Option.some.injEq, Prod.mk.injEq] at h
          refine ⟨l, units, rfl, by simpa using hfree.1, by simpa using hfree.2, hunits, h.1.symm, ?_⟩
          exact h.2.symm
  · rintro ⟨l, units, rfl, hempty, hstatus, hunits, rfl, rfl⟩
    simp [start, hempty, hstatus, hunits, launched]

/-- The second phase of a unit on the bound level. -/
theorem commitStep_of_highlight {level : Level} {h : Highlight} (howns : m.Owns t)
    (hh : m.highlight = some h) (hl : m.level = some level) :
    m.commitStep t =
      match ending level (m.carry level h).1 with
      | some (outcome, status) =>
        (.applied ⟨h.index, h.beat, (m.carry level h).1, some outcome⟩,
          (m.carry level h).2.finish status)
      | none => (.applied ⟨h.index, h.beat, (m.carry level h).1, none⟩, (m.carry level h).2) := by
  obtain ⟨_, robot, trace, status, units, cursor, _, generation, maxUnits⟩ := m
  simp only at hh hl
  subst hh hl
  unfold commitStep
  rw [if_neg (not_not_intro howns)]
  rfl

/-- A unit that was committed is the one that was highlighted, and did what it does on the bound level. -/
theorem exists_highlight_of_applied {level : Level} {step : Step} (hl : m.level = some level)
    (hstep : (m.commitStep t).1 = .applied step) :
    ∃ h, m.Owns t ∧ m.highlight = some h ∧ step.beat = h.beat ∧ step.effect = (m.carry level h).1 ∧
      (ending level (m.carry level h).1 = none → (m.commitStep t).2 = (m.carry level h).2) := by
  by_cases howns : m.Owns t
  · cases hh : m.highlight with
    | none => simp [commitStep, howns, hh] at hstep
    | some h =>
      rw [commitStep_of_highlight howns hh hl] at hstep ⊢
      refine ⟨h, howns, rfl, ?_⟩
      cases hend : ending level (m.carry level h).1 with
      | none =>
        rw [hend] at hstep
        cases hstep
        exact ⟨rfl, rfl, fun _ => rfl⟩
      | some result =>
        rw [hend] at hstep
        cases hstep
        exact ⟨rfl, rfl, fun hgoing => absurd hgoing (Option.some_ne_none result)⟩
  · rw [commitStep_of_not_owns howns] at hstep
    cases hstep

/-- A call, its answer and the machine after it. -/
inductive Transition (m : Machine) : Call → Answer → Machine → Prop
  /-- A level is bound, and whatever was going on is given up. -/
  | loaded (level : Level) : Transition m (.loadLevel level) .done (m.loadLevel level)
  | reset : Transition m .reset .done m.reset
  | refused (program : Program) (level : Option Level) (h : m.start program level = none) :
    Transition m (.start program level) (.started none) m
  | launched (program : Program) (level : Level) (units : List Beat)
    (hempty : program.isEmpty = false) (hstatus : m.status ≠ .running)
    (hunits : program.unrollWithin m.maxUnits = .ok units) :
    Transition m (.start program (some level)) (.started (some ⟨m.generation + 1⟩))
      (m.launched level units)
  | staleBegin (t : Ticket) (h : ¬ m.Owns t) : Transition m (.beginStep t) (.began .stale) m
  | staleCommit (t : Ticket) (h : ¬ m.Owns t) : Transition m (.commitStep t) (.committed .stale) m
  /-- The unit is highlighted already. -/
  | again (t : Ticket) (h : Highlight) (howns : m.Owns t) (hh : m.highlight = some h) :
    Transition m (.beginStep t) (.began (.highlighted h)) m
  | highlighted (t : Ticket) (beat : Beat) (howns : m.Owns t) (hh : m.highlight = none)
    (hbeat : m.units[m.cursor]? = some beat) :
    Transition m (.beginStep t) (.began (.highlighted ⟨m.cursor, beat⟩))
      { m with highlight := some ⟨m.cursor, beat⟩ }
  | exhausted (t : Ticket) (howns : m.Owns t) (hh : m.highlight = none)
    (hbeat : m.units[m.cursor]? = none) :
    Transition m (.beginStep t) (.began (.finished (if m.OnTarget then .won else .notReached)))
      (m.finish .idle)
  | notHighlighted (t : Ticket) (howns : m.Owns t) (hh : m.highlight = none) :
    Transition m (.commitStep t) (.committed .notHighlighted) m
  /-- There is no level to commit the unit on. -/
  | unbound (t : Ticket) (h : Highlight) (howns : m.Owns t) (hh : m.highlight = some h)
    (hl : m.level = none) :
    Transition m (.commitStep t) (.committed .stale) { m with highlight := none }
  | committed (t : Ticket) (level : Level) (h : Highlight) (howns : m.Owns t)
    (hh : m.highlight = some h) (hl : m.level = some level)
    (hend : ending level (m.carry level h).1 = none) :
    Transition m (.commitStep t)
      (.committed (.applied ⟨h.index, h.beat, (m.carry level h).1, none⟩)) (m.carry level h).2
  | ended (t : Ticket) (level : Level) (h : Highlight) (outcome : Outcome) (status : Status)
    (howns : m.Owns t) (hh : m.highlight = some h) (hl : m.level = some level)
    (hend : ending level (m.carry level h).1 = some (outcome, status)) :
    Transition m (.commitStep t)
      (.committed (.applied ⟨h.index, h.beat, (m.carry level h).1, some outcome⟩))
      ((m.carry level h).2.finish status)

private theorem transition_start (m : Machine) (program : Program) (level : Option Level) :
    Transition m (.start program level) (m.perform (.start program level)).1
      (m.perform (.start program level)).2 := by
  simp only [perform]
  cases hs : m.start program level with
  | none => exact .refused program level hs
  | some result =>
    obtain ⟨t, n⟩ := result
    obtain ⟨l, units, rfl, hempty, hstatus, hunits, rfl, rfl⟩ := start_eq_some_iff.1 hs
    exact .launched program l units hempty hstatus hunits

private theorem transition_beginStep (m : Machine) (t : Ticket) :
    Transition m (.beginStep t) (.began (m.beginStep t).1) (m.beginStep t).2 := by
  by_cases howns : m.Owns t
  · unfold beginStep
    simp only [howns, not_true_eq_false, if_false]
    cases hh : m.highlight with
    | some h => exact .again t h howns hh
    | none =>
      cases hbeat : m.units[m.cursor]? with
      | none => exact .exhausted t howns hh hbeat
      | some beat => exact .highlighted t beat howns hh hbeat
  · rw [beginStep_of_not_owns howns]
    exact .staleBegin t howns

private theorem transition_commitStep (m : Machine) (t : Ticket) :
    Transition m (.commitStep t) (.committed (m.commitStep t).1) (m.commitStep t).2 := by
  by_cases howns : m.Owns t
  · cases hh : m.highlight with
    | none =>
      have h : m.commitStep t = (.notHighlighted, m) := by simp [commitStep, howns, hh]
      rw [h]
      exact .notHighlighted t howns hh
    | some h =>
      cases hl : m.level with
      | none =>
        have hc : m.commitStep t = (.stale, { m with highlight := none }) := by
          simp [commitStep, howns, hh, hl]
        rw [hc]
        exact .unbound t h howns hh hl
      | some level =>
        rw [commitStep_of_highlight howns hh hl]
        cases hend : ending level (m.carry level h).1 with
        | none => exact .committed t level h howns hh hl hend
        | some result => exact .ended t level h result.1 result.2 howns hh hl hend
  · rw [commitStep_of_not_owns howns]
    exact .staleCommit t howns

/-- Every call is a transition. -/
theorem transition_perform (m : Machine) (c : Call) :
    Transition m c (m.perform c).1 (m.perform c).2 := by
  cases c with
  | loadLevel level => exact .loaded level
  | start program level => exact transition_start m program level
  | reset => exact .reset
  | beginStep t => exact transition_beginStep m t
  | commitStep t => exact transition_commitStep m t

end Machine

end RobotPuzzle
