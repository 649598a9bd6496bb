import RobotPuzzle.Proofs.Machine.Tickets

/-!
# How the parts of a machine agree

Level, history, status, units, cursor and highlight of a machine are separate, and nothing in their types
keeps them together. The calls do: whatever clients ask, a machine that is running has a level and stands
somewhere in its units, the highlight is the unit at the cursor, a completed level was completed by the
unit committed last, and a machine without history is at rest.

## Main definitions

- `Snapshot.Lands` — the snapshot of a step or a jump
- `Machine.committed` — the units committed in a list of exchanges
- `Machine.Coherent` — how the parts agree with each other and with the exchanges so far

## Main statements

- `Machine.Coherent.perform` — every call keeps the parts in agreement
- `Machine.coherent_afterCalls` — they agree after every history of calls
-/

namespace RobotPuzzle

/-- Unless it is the first of a history, the snapshot shows the robot where a step or a jump has landed. -/
def Snapshot.Lands (s : Snapshot) : Prop := s.action = none ∨ s.action = some .jump

namespace Machine

variable {m : Machine} {level : Level} {h : Highlight} {cell : Cell} {e : Effect}

/-! ## Landings -/

/-- A unit lands the robot, being a step or a jump, and the history shows the landing; or it adds at most
a turn or a wait to the history. -/
theorem carry_landing_cases (m : Machine) (level : Level) (h : Highlight) :
    (∃ cell s, (m.carry level h).1.landing? = some cell ∧ h.beat.kind ∈ [Kind.forward, .back, .jump] ∧
        (m.carry level h).2.robot.position = cell ∧
        (m.carry level h).2.trace = m.trace.push s ∧ s.position = cell) ∨
      ((m.carry level h).1.landing? = none ∧
        ((m.carry level h).2.trace = m.trace ∨
          ∃ s, (m.carry level h).2.trace = m.trace.push s ∧ ¬ s.Lands)) := by
  -- a move lands on its cell and records it, or it is blocked and records nothing
  have hmove : ∀ kind ∈ [Kind.forward, .back, .jump], ∀ d steps action effect,
      (∀ c : Cell, (effect c).landing? = some c) →
      (∃ cell s, (m.takeUp.move level d steps action effect).1.landing? = some cell ∧
        kind ∈ [Kind.forward, .back, .jump] ∧
        (m.takeUp.move level d steps action effect).2.robot.position = cell ∧
        (m.takeUp.move level d steps action effect).2.trace = m.trace.push s ∧ s.position = cell) ∨
      ((m.takeUp.move level d steps action effect).1.landing? = none ∧
        ((m.takeUp.move level d steps action effect).2.trace = m.trace ∨
          ∃ s, (m.takeUp.move level d steps action effect).2.trace = m.trace.push s ∧ ¬ s.Lands)) := by
    intro kind hkind d steps action effect heffect
    unfold move
    dsimp only
    split
    · exact Or.inl ⟨_, _, heffect _, hkind, rfl, rfl, rfl⟩
    · exact Or.inr ⟨rfl, Or.inl rfl⟩
  unfold carry
  split
  · exact Or.inr ⟨rfl, Or.inl rfl⟩
  · cases h.beat.kind with
    | forward | back | jump => exact hmove _ (by decide) _ _ _ _ fun _ => rfl
    | turnLeft | turnRight | wait =>
      exact Or.inr ⟨rfl, Or.inr ⟨_, rfl, by simp [Snapshot.Lands, Robot.snapshot]⟩⟩
    | stop | loop => exact Or.inr ⟨rfl, Or.inl rfl⟩

theorem ne_target_of_going_on (hend : ending level e = none) (hland : e.landing? = some cell) :
    cell ≠ level.target := by
  rintro rfl
  cases e with
  | moved c | jumped c =>
    obtain rfl := Option.some.inj hland
    simp [ending] at hend
  | marker | blocked | turned | waited | stopped => cases hland

theorem landing_of_completing {outcome : Outcome} (hend : ending level e = some (outcome, .complete)) :
    e.landing? = some level.target := by
  cases e with
  | moved c | jumped c =>
    rw [ending, Option.ite_none_right_eq_some] at hend
    rw [← hend.1]
    rfl
  | marker | blocked | turned | waited | stopped => simp [ending] at hend

/-! ## Units committed -/

/-- The unit that an exchange committed, if it did. -/
def Exchange.step? (x : Exchange) : Option Step :=
  match x.answer with
  | .committed (.applied step) => some step
  | _ => none

/-- The units committed in a list of exchanges, in order. -/
def committed (past : List Exchange) : List Step := past.filterMap Exchange.step?

theorem committed_concat_of_step?_eq_none {past : List Exchange} {x : Exchange} (hx : x.step? = none) :
    committed (past ++ [x]) = committed past := by
  simp [committed, hx]

theorem getLast?_committed_concat {past : List Exchange} {x : Exchange} {step : Step}
    (hx : x.step? = some step) : (committed (past ++ [x])).getLast? = some step := by
  simp [committed, hx]

/-! ## The invariant -/

/-- The parts of a machine agree with each other and with the exchanges so far. -/
structure Coherent (m : Machine) (past : List Exchange) : Prop where
  /-- A run that goes on has a level and is somewhere in its units, and it has not met the target. -/
  underway : m.status = .running → ∃ level, m.level = some level ∧ m.cursor ≤ m.units.size ∧
    ∀ s ∈ m.trace.toList.tail, s.Lands → s.position ≠ level.target
  /-- A highlight is that of a run which goes on, and shows the unit at the cursor. -/
  highlighted : ∀ h, m.highlight = some h →
    m.status = .running ∧ h.index = m.cursor ∧ m.units[m.cursor]? = some h.beat
  /-- A completed level was completed by the landing of the unit committed last. -/
  completed : m.status = .complete → m.OnTarget ∧ ∃ step, (committed past).getLast? = some step ∧
    step.index + 1 = m.cursor ∧ m.units[step.index]? = some step.beat ∧
    step.beat.kind ∈ [Kind.forward, .back, .jump] ∧ step.effect.landing? = some m.robot.position
  /-- Without a history the machine is at rest. -/
  untraced : m.trace = #[] →
    m.status = .idle ∧ m.units = #[] ∧ m.cursor = 0 ∧ m.robot = m.restingRobot

namespace Coherent

variable {past : List Exchange}

theorem new (maxUnits : Nat) : Coherent (new maxUnits) [] where
  underway := by simp [Machine.new]
  highlighted := by simp [Machine.new]
  completed := by simp [Machine.new]
  untraced _ := ⟨rfl, rfl, rfl, rfl⟩

theorem reset (m : Machine) (past : List Exchange) : Coherent m.reset past where
  underway := by simp
  highlighted := by simp [Machine.reset]
  completed := by simp
  untraced _ := ⟨rfl, rfl, rfl, rfl⟩

theorem launched (m : Machine) (level : Level) (units : List Beat) (past : List Exchange) :
    Coherent (m.launched level units) past where
  underway _ := ⟨level, rfl, Nat.zero_le _, by simp [Machine.launched]⟩
  highlighted := by simp [Machine.launched]
  completed := by simp [Machine.launched]
  untraced := by simp [Machine.launched]

/-- An exchange that changes nothing. -/
theorem unchanged (hm : Coherent m past) {x : Exchange} (hx : x.step? = none) :
    Coherent m (past ++ [x]) where
  underway := hm.underway
  highlighted := hm.highlighted
  completed := by
    rw [committed_concat_of_step?_eq_none hx]
    exact hm.completed
  untraced := hm.untraced

theorem trace_ne_nil (hm : Coherent m past) (hrunning : m.status = .running) : m.trace ≠ #[] := by
  intro hempty
  have hidle := (hm.untraced hempty).1
  rw [hrunning] at hidle
  cases hidle

theorem highlight {beat : Beat} (hm : Coherent m past) (hrunning : m.status = .running)
    (hbeat : m.units[m.cursor]? = some beat) (past' : List Exchange) :
    Coherent { m with highlight := some ⟨m.cursor, beat⟩ } past' where
  underway := hm.underway
  highlighted := by
    rintro h ⟨⟩
    exact ⟨hrunning, rfl, hbeat⟩
  completed := by simp [hrunning]
  untraced hempty := absurd hempty (hm.trace_ne_nil hrunning)

/-- The end of a run whose units have run out. -/
theorem exhaust (hm : Coherent m past) (hrunning : m.status = .running) (past' : List Exchange) :
    Coherent (m.finish .idle) past' where
  underway := by simp [finish]
  highlighted := by simp [finish]
  completed := by simp [finish]
  untraced hempty := absurd hempty (hm.trace_ne_nil hrunning)

theorem trace_carry_ne_nil (hm : Coherent m past) (hrunning : m.status = .running) :
    (m.carry level h).2.trace ≠ #[] := by
  intro hempty
  have hsize := size_trace_le_carry m level h
  rw [hempty, Array.size_empty, Nat.le_zero, Array.size_eq_zero_iff] at hsize
  exact hm.trace_ne_nil hrunning hsize

/-- A unit that leaves the run going on. -/
theorem carry (hm : Coherent m past) (hrunning : m.status = .running) (hh : m.highlight = some h)
    (hl : m.level = some level) (hend : ending level (m.carry level h).1 = none)
    (past' : List Exchange) : Coherent (m.carry level h).2 past' where
  underway _ := by
    obtain ⟨-, -, hbeat⟩ := hm.highlighted h hh
    have hcursor : m.cursor < m.units.size := (Array.getElem?_eq_some_iff.1 hbeat).1
    obtain ⟨bound, hbound, -, hclear⟩ := hm.underway hrunning
    obtain rfl : bound = level := Option.some.inj (hbound.symm.trans hl)
    -- the snapshots so far are off the target, and a landing there would have ended the run
    have htail : ∀ s, (m.trace.push s).toList.tail = m.trace.toList.tail ++ [s] := by
      intro s
      have hne : m.trace.toList ≠ [] := mt Array.toList_eq_nil_iff.1 (hm.trace_ne_nil hrunning)
      rw [Array.toList_push, List.tail_append_of_ne_nil hne]
    refine ⟨bound, by rw [level_carry, hl], by rw [cursor_carry, units_carry]; omega, ?_⟩
    intro s hs hlands
    rcases carry_landing_cases m bound h with
      ⟨cell, t, hland, -, -, htrace, hcell⟩ | ⟨-, htrace | ⟨t, htrace, ht⟩⟩
    · rw [htrace, htail] at hs
      rcases List.mem_append.1 hs with hs | hs
      · exact hclear s hs hlands
      · obtain rfl := List.mem_singleton.1 hs
        rw [hcell]
        exact ne_target_of_going_on hend hland
    · rw [htrace] at hs
      exact hclear s hs hlands
    · rw [htrace, htail] at hs
      rcases List.mem_append.1 hs with hs | hs
      · exact hclear s hs hlands
      · obtain rfl := List.mem_singleton.1 hs
        exact absurd hlands ht
  highlighted := by simp
  completed := by simp [hrunning]
  untraced hempty := absurd hempty (hm.trace_carry_ne_nil hrunning)

/-- A unit that ends the run. -/
theorem finish {outcome : Outcome} {status : Status} (hm : Coherent m past)
    (hrunning : m.status = .running) (hh : m.highlight = some h) (hl : m.level = some level)
    (hend : ending level (m.carry level h).1 = some (outcome, status)) {x : Exchange}
    (hx : x.step? = some ⟨h.index, h.beat, (m.carry level h).1, some outcome⟩) :
    Coherent ((m.carry level h).2.finish status) (past ++ [x]) where
  underway hstatus := absurd hstatus (status_ne_running_of_ending hend)
  highlighted := by simp [Machine.finish]
  completed := by
    -- only a landing on the target completes a level, and the highlight tells which unit it was
    intro hcomplete
    obtain rfl : status = .complete := hcomplete
    obtain ⟨-, hindex, hbeat⟩ := hm.highlighted h hh
    have hland := landing_of_completing hend
    obtain ⟨hkind, hposition⟩ : h.beat.kind ∈ [Kind.forward, .back, .jump] ∧
        (m.carry level h).2.robot.position = level.target := by
      rcases carry_landing_cases m level h with ⟨cell, s, hcell, hkind, hposition, -⟩ | ⟨hnone, -⟩
      · obtain rfl : cell = level.target := Option.some.inj (hcell.symm.trans hland)
        exact ⟨hkind, hposition⟩
      · rw [hnone] at hland
        cases hland
    refine ⟨⟨level, ?_, hposition⟩, _, getLast?_committed_concat hx, ?_, ?_, hkind, ?_⟩
    · exact (level_carry m level h).trans hl
    · exact (congrArg (· + 1) hindex).trans (cursor_carry m level h).symm
    · show (m.carry level h).2.units[h.index]? = some h.beat
      rw [units_carry, hindex, hbeat]
    · exact hland.trans (congrArg some hposition.symm)
  untraced hempty := absurd hempty (hm.trace_carry_ne_nil hrunning)

/-- Every call keeps the parts in agreement. -/
theorem perform (hm : Coherent m past) (c : Call) :
    Coherent (m.perform c).2 (past ++ [⟨c, (m.perform c).1⟩]) := by
  have htransition := transition_perform m c
  generalize (m.perform c).1 = answer at htransition ⊢
  generalize (m.perform c).2 = after at htransition ⊢
  cases htransition with
  | loaded level => exact .reset { m with level := some level } _
  | reset => exact .reset m _
  | launched program level units => exact .launched m level units _
  | highlighted t beat howns _ hbeat => exact hm.highlight howns.2 hbeat _
  | exhausted t howns => exact hm.exhaust howns.2 _
  | committed t level h howns hh hl hend => exact hm.carry howns.2 hh hl hend _
  | ended t level h outcome status howns hh hl hend => exact hm.finish howns.2 hh hl hend rfl
  | unbound t h howns _ hl =>
    -- a run that goes on has a level
    obtain ⟨level, hlevel, -⟩ := hm.underway howns.2
    rw [hl] at hlevel
    cases hlevel
  | refused | staleBegin | staleCommit | again | notHighlighted => exact hm.unchanged rfl

theorem afterCalls (hm : Coherent m past) (calls : List Call) :
    Coherent (m.afterCalls calls) (past ++ m.history calls) :=
  afterCalls_induction (fun _ _ => perform) hm calls

end Coherent

/-- Whatever calls have been made: a machine that is running has a level, a history and a cursor within
its units, and no step or jump of its history is on the target, so that a commit is refused because of its
ticket only; a highlight is that of a running machine and shows the unit at the cursor; on a completed level
nothing is highlighted and the robot stands on the target, where the unit committed last, a step or a jump,
has landed it; and a machine without a history is idle at the beginning, with no units and its robot
where the level puts it. -/
theorem coherent_afterCalls (maxUnits : Nat) (calls : List Call) :
    let m := (new maxUnits).afterCalls calls
    let past := (new maxUnits).history calls
    (m.status = .running → m.trace ≠ #[] ∧ m.cursor ≤ m.units.size ∧ ∃ level, m.level = some level ∧
        ∀ s ∈ m.trace.toList.tail, s.Lands → s.position ≠ level.target) ∧
      (∀ t, (m.commitStep t).1 = .stale ↔ ¬ m.Owns t) ∧
      (∀ h, m.highlight = some h → m.status = .running ∧ h.index = m.cursor ∧
        m.cursor < m.units.size ∧ m.units[m.cursor]? = some h.beat) ∧
      (m.status = .complete → m.highlight = none ∧
        (∃ level, m.level = some level ∧ m.robot.position = level.target) ∧
        ∃ step, (committed past).getLast? = some step ∧ step.index + 1 = m.cursor ∧
          m.units[step.index]? = some step.beat ∧ step.beat.kind ∈ [Kind.forward, .back, .jump] ∧
          step.effect.landing? = some m.robot.position) ∧
      (m.trace = #[] → m.status = .idle ∧ m.units = #[] ∧ m.cursor = 0 ∧
        m.robot = m.level.elim ⟨⟨0, 0⟩, 0⟩ Robot.initial) := by
  intro m past
  have hm : Coherent m past := (Coherent.new maxUnits).afterCalls calls
  have htickets : TicketInvariant m past := (TicketInvariant.new maxUnits).afterCalls calls
  refine ⟨?_, ?_, ?_, ?_, hm.untraced⟩
  · intro hrunning
    obtain ⟨level, hlevel, hcursor, hclear⟩ := hm.underway hrunning
    exact ⟨hm.trace_ne_nil hrunning, hcursor, level, hlevel, hclear⟩
  · intro t
    constructor
    · exact fun hstale howns => (htickets.accepts howns).2 hstale
    · exact fun hnot => by rw [commitStep_of_not_owns hnot]
  · intro h hh
    obtain ⟨hrunning, hindex, hbeat⟩ := hm.highlighted h hh
    have hcursor : m.cursor < m.units.size := (Array.getElem?_eq_some_iff.1 hbeat).1
    exact ⟨hrunning, hindex, hcursor, hbeat⟩
  · intro hcomplete
    obtain ⟨htarget, hlast⟩ := hm.completed hcomplete
    refine ⟨?_, htarget, hlast⟩
    rw [Option.eq_none_iff_forall_ne_some]
    intro h hh
    have hrunning := (hm.highlighted h hh).1
    rw [hcomplete] at hrunning
    cases hrunning

end Machine

end RobotPuzzle
