import RobotPuzzle.Proofs.Machine.Transition
import RobotPuzzle.Run.Basic

/-!
# How a run ends

A run that nobody touches carries out its units in order until one of them ends it or none is left.
`Machine.conclude` says where it comes to without rounds, tickets and callbacks. Two kinds of callbacks
are told apart: those that leave the machine alone, and those that make the ticket stale whenever they do
not.

## Main definitions

- `Machine.Underway` — a run stands between two units
- `Machine.conclude` — the units still to come are carried out
- `Callback.Passive`, `Callback.Fenced` — callbacks that leave the machine alone, or take it over

## Main statements

- `Machine.conclude_spec` — the outcome, the last unit and the status at the conclusion agree
- `Machine.Underway.beginStep_cons`, `Machine.Underway.commitStep_cons` — the calls of one round
-/

namespace RobotPuzzle

variable {ε : Type} {callback : Callback ε}

/-- The callback does nothing to the machine. -/
def Callback.Passive (callback : Callback ε) : Prop :=
  ∀ event m, (callback event m).2 = m

/-- The callback does nothing to the machine, or it makes every ticket handed out before stale. -/
def Callback.Fenced (callback : Callback ε) : Prop :=
  ∀ event m, (callback event m).2 = m ∨ m.generation < (callback event m).2.generation

theorem Callback.Passive.fenced (h : callback.Passive) : callback.Fenced :=
  fun event m => Or.inl (h event m)

/-- How a run that is left alone ends. -/
structure Conclusion where
  outcome : Outcome
  /-- The unit that ended the run; there is none if the units ran out. -/
  last : Option Step
  machine : Machine

/-- The machine after the callback of the unit that ended a run; if the units ran out there is no such
callback. -/
def Conclusion.settle (c : Conclusion) (callback : Callback ε) : Machine :=
  match c.last with
  | none => c.machine
  | some step => (callback (.stepped step) c.machine).2

theorem Conclusion.settle_of_passive (h : callback.Passive) (c : Conclusion) :
    c.settle callback = c.machine := by
  unfold settle
  split
  · rfl
  · exact h _ _

namespace Machine

variable {m n : Machine} {t : Ticket} {level : Level} {beat : Beat} {rest : List Beat}

/-- The run of the ticket stands between two units on the level, with `rest` still to come. -/
structure Underway (m : Machine) (t : Ticket) (level : Level) (rest : List Beat) : Prop where
  owns : m.Owns t
  highlight_eq : m.highlight = none
  level_eq : m.level = some level
  drop_units : m.units.toList.drop m.cursor = rest

/-- The machine while the next unit is highlighted. -/
def paused (m : Machine) (beat : Beat) : Machine := { m with highlight := some ⟨m.cursor, beat⟩ }

/-- Carry out units until one ends the run or none is left. -/
def conclude (level : Level) : List Beat → Machine → Conclusion
  | [], m => ⟨if m.OnTarget then .won else .notReached, none, m.finish .idle⟩
  | beat :: rest, m =>
    let h : Highlight := ⟨m.cursor, beat⟩
    match ending level (m.carry level h).1 with
    | some (outcome, status) =>
      ⟨outcome, some ⟨m.cursor, beat, (m.carry level h).1, some outcome⟩,
        (m.carry level h).2.finish status⟩
    | none => conclude level rest (m.carry level h).2

theorem conclude_of_ending {outcome : Outcome} {status : Status}
    (hend : ending level (m.carry level ⟨m.cursor, beat⟩).1 = some (outcome, status)) :
    conclude level (beat :: rest) m =
      ⟨outcome, some ⟨m.cursor, beat, (m.carry level ⟨m.cursor, beat⟩).1, some outcome⟩,
        (m.carry level ⟨m.cursor, beat⟩).2.finish status⟩ := by
  simp only [conclude, hend]

theorem conclude_of_going_on (hend : ending level (m.carry level ⟨m.cursor, beat⟩).1 = none) :
    conclude level (beat :: rest) m = conclude level rest (m.carry level ⟨m.cursor, beat⟩).2 := by
  simp only [conclude, hend]

/-- What every unit and the end of a run keep is kept to the conclusion. -/
theorem conclude_keeps {P : Machine → Prop} (hcarry : ∀ m h, P m → P (m.carry level h).2)
    (hfinish : ∀ m status, P m → P (m.finish status)) (beats : List Beat) (hm : P m) :
    P (conclude level beats m).machine := by
  induction beats generalizing m with
  | nil => exact hfinish m .idle hm
  | cons beat beats ih =>
    have hnext := hcarry m ⟨m.cursor, beat⟩ hm
    cases hend : ending level (m.carry level ⟨m.cursor, beat⟩).1 with
    | none =>
      rw [conclude_of_going_on hend]
      exact ih hnext
    | some result =>
      rw [conclude_of_ending hend]
      exact hfinish _ _ hnext

theorem size_trace_le_conclude (level : Level) (beats : List Beat) (m : Machine) :
    m.trace.size ≤ (conclude level beats m).machine.trace.size := by
  apply conclude_keeps (P := fun n => m.trace.size ≤ n.trace.size)
  · intro n h hn
    exact Nat.le_trans hn (size_trace_le_carry n level h)
  · exact fun n status hn => hn
  · exact Nat.le_refl _

/-- What ends a run is a landing on the target or a stop. -/
theorem ending_cases {effect : Effect} {outcome : Outcome} {status : Status}
    (h : ending level effect = some (outcome, status)) :
    (outcome = .won ∧ status = .complete) ∨ (outcome = .stopped ∧ status = .idle) := by
  cases effect with
  | moved cell | jumped cell =>
    rw [ending, Option.ite_none_right_eq_some] at h
    simp_all
  | stopped => simp_all [ending]
  | marker | blocked | turned | waited => simp [ending] at h

/-- A run that is left alone is not cancelled. It is stopped or completes the level exactly if a unit
ended it, which is then the last one that was committed. -/
theorem conclude_spec (level : Level) (beats : List Beat) (m : Machine) :
    let c := conclude level beats m
    c.outcome ≠ .cancelled ∧
      match c.last with
      | none => c.outcome ≠ .stopped ∧ c.machine.status = .idle
      | some step => (c.outcome = .stopped ∨ c.machine.status = .complete) ∧
          c.machine.cursor = step.index + 1 := by
  induction beats generalizing m with
  | nil =>
    simp only [conclude, finish]
    split <;> simp
  | cons beat beats ih =>
    cases hend : ending level (m.carry level ⟨m.cursor, beat⟩).1 with
    | none =>
      rw [conclude_of_going_on hend]
      exact ih _
    | some result =>
      obtain ⟨outcome, status⟩ := result
      rw [conclude_of_ending hend]
      have hcursor : ((m.carry level ⟨m.cursor, beat⟩).2.finish status).cursor = m.cursor + 1 :=
        cursor_carry m level _
      rcases ending_cases hend with ⟨rfl, rfl⟩ | ⟨rfl, rfl⟩
      · exact ⟨nofun, Or.inr rfl, hcursor⟩
      · exact ⟨nofun, Or.inl rfl, hcursor⟩

/-! ## One round -/

theorem underway_launched (m : Machine) (level : Level) (units : List Beat) :
    (m.launched level units).Underway ⟨m.generation + 1⟩ level units :=
  ⟨⟨rfl, rfl⟩, rfl, rfl, by simp [launched]⟩

namespace Underway

theorem beginStep_nil (h : m.Underway t level []) :
    m.beginStep t = (.finished (if m.OnTarget then .won else .notReached), m.finish .idle) := by
  have hnone : m.units[m.cursor]? = none := by
    rw [← Array.getElem?_toList, ← List.head?_drop, h.drop_units, List.head?_nil]
  simp [beginStep, h.owns, h.highlight_eq, hnone]

theorem beginStep_cons (h : m.Underway t level (beat :: rest)) :
    m.beginStep t = (.highlighted ⟨m.cursor, beat⟩, m.paused beat) := by
  have hbeat : m.units[m.cursor]? = some beat := by
    rw [← Array.getElem?_toList, ← List.head?_drop, h.drop_units, List.head?_cons]
  simp [beginStep, h.owns, h.highlight_eq, hbeat, paused]

theorem commitStep_cons (h : m.Underway t level (beat :: rest)) :
    (m.paused beat).commitStep t =
      match ending level (m.carry level ⟨m.cursor, beat⟩).1 with
      | some (outcome, status) =>
        (.applied ⟨m.cursor, beat, (m.carry level ⟨m.cursor, beat⟩).1, some outcome⟩,
          (m.carry level ⟨m.cursor, beat⟩).2.finish status)
      | none =>
        (.applied ⟨m.cursor, beat, (m.carry level ⟨m.cursor, beat⟩).1, none⟩,
          (m.carry level ⟨m.cursor, beat⟩).2) :=
  commitStep_of_highlight (m := m.paused beat) h.owns rfl h.level_eq

theorem carry (h : m.Underway t level (beat :: rest)) :
    (m.carry level ⟨m.cursor, beat⟩).2.Underway t level rest := by
  refine ⟨?_, highlight_carry m level _, ?_, ?_⟩
  · rw [Owns, generation_carry, status_carry]
    exact h.owns
  · rw [level_carry, h.level_eq]
  · rw [units_carry, cursor_carry, ← List.tail_drop, h.drop_units, List.tail_cons]

end Underway

theorem runRounds_of_not_owns (hstale : ¬ m.Owns t) (rounds : Nat) (notes : Array ε) :
    m.runRounds callback t rounds notes = (m.report .cancelled, notes, m) := by
  cases rounds with
  | zero => rfl
  | succ rounds => rw [runRounds, beginStep_of_not_owns hstale]

/-- How a run started on the machine ends if it is left alone. -/
def concluded (m : Machine) (level : Level) (units : List Beat) : Conclusion :=
  conclude level units (m.launched level units)

end Machine

end RobotPuzzle
