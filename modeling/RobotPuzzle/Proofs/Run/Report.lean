import RobotPuzzle.Catalog.Shipped
import RobotPuzzle.Program.Edit
import RobotPuzzle.Proofs.Run.Course

/-!
# What a report describes

While a run is suspended its caller may reset the machine, bind another level or make a run of its own.
Each of these makes the ticket stale, so before the end of the run it leads to a cancelled report. At the
last unit it comes too late for that: the run has ended and is reported with its own outcome, but
position, history and counts are read off the machine as the caller left it.

## Main definitions

- `Script.afterEnding` — the machine after what a script does at the unit that ended a run

## Main statements

- `Script.play_fenced` — a script leaves the machine alone or takes it over
- `Machine.runScript_report` — what the report of a run that is not cancelled describes
-/

namespace RobotPuzzle

namespace Machine

variable {ε : Type} {callback : Callback ε} {m n : Machine} {t : Ticket} {level : Level}

/-! ## Fences -/

theorem generation_beginStep (m : Machine) (t : Ticket) :
    (m.beginStep t).2.generation = m.generation := by
  have h := transition_perform m (.beginStep t)
  simp only [perform] at h
  generalize m.beginStep t = result at h ⊢
  obtain ⟨answer, n⟩ := result
  cases h <;> rfl

theorem generation_commitStep (m : Machine) (t : Ticket) :
    (m.commitStep t).2.generation = m.generation := by
  have h := transition_perform m (.commitStep t)
  simp only [perform] at h
  generalize m.commitStep t = result at h ⊢
  obtain ⟨answer, n⟩ := result
  cases h with
  | staleCommit | notHighlighted | unbound => rfl
  | committed _ level hl => exact generation_carry m level hl
  | ended _ level hl => exact generation_carry m level hl

/-- A run does not turn the generation back. -/
theorem generation_le_runRounds (hfenced : callback.Fenced) (rounds : Nat) (notes : Array ε) :
    m.generation ≤ (m.runRounds callback t rounds notes).2.2.generation := by
  have hmono : ∀ event m, m.generation ≤ (callback event m).2.generation := by
    intro event m
    rcases hfenced event m with hkept | htaken
    · exact Nat.le_of_eq (by rw [hkept])
    · exact Nat.le_of_lt htaken
  induction rounds generalizing m notes with
  | zero => exact Nat.le_refl _
  | succ rounds ih =>
    have hbegin := generation_beginStep m t
    rw [runRounds]
    split
    · rename_i outcome m₁ heq
      rw [heq] at hbegin
      exact Nat.le_of_eq hbegin.symm
    · rename_i m₁ heq
      rw [heq] at hbegin
      exact Nat.le_of_eq hbegin.symm
    · rename_i h m₁ heq
      rw [heq] at hbegin
      dsimp only
      have hpause : m.generation ≤ (callback (.paused h) m₁).2.generation :=
        Nat.le_trans (Nat.le_of_eq hbegin.symm) (hmono _ _)
      have hcommit := generation_commitStep (callback (.paused h) m₁).2 t
      split
      · rename_i step m₃ hstep
        rw [hstep] at hcommit
        have hstepped : m.generation ≤ (callback (.stepped step) m₃).2.generation :=
          Nat.le_trans (Nat.le_trans hpause (Nat.le_of_eq hcommit.symm)) (hmono _ _)
        split
        · exact hstepped
        · exact Nat.le_trans hstepped (ih _)
      · rename_i m₃ _ hstep
        rw [hstep] at hcommit
        exact Nat.le_trans hpause (Nat.le_of_eq hcommit.symm)

/-- A run that is started takes the machine over. -/
theorem run_fenced (hfenced : callback.Fenced) (program : Program) (level : Option Level)
    (m : Machine) : (m.run callback program level).2.2 = m ∨
      m.generation < (m.run callback program level).2.2.generation := by
  rw [run]
  split
  · exact Or.inl rfl
  · rename_i t m₁ hstart
    obtain ⟨l, units, -, -, -, -, -, rfl⟩ := start_eq_some_iff.1 hstart
    right
    calc m.generation < (m.launched l units).generation := Nat.lt_succ_self _
      _ ≤ _ := generation_le_runRounds hfenced _ _

end Machine

/-- Watching does not disturb: what a callback does to the machine is done by what it carries out. -/
theorem Callback.fenced_watching {act : Cue → Machine → List Note × Machine}
    (hact : ∀ cue m, (act cue m).2 = m ∨ m.generation < (act cue m).2.generation) (watch : Watch) :
    (Callback.watching watch act).Fenced := by
  intro event m
  unfold Callback.watching
  split
  · exact hact event.cue m
  · exact Or.inl rfl

/-- A script leaves the machine alone or takes it over. -/
theorem Script.play_fenced (script : Script) (cue : Cue) (m : Machine) :
    (script.play cue m).2 = m ∨ m.generation < (script.play cue m).2.generation := by
  -- what is done after the machine is taken over does not turn the generation back
  have hafter : ∀ {m n k : Machine}, m.generation < n.generation →
      (k = n ∨ n.generation < k.generation) → (k = m ∨ m.generation < k.generation) := by
    rintro m n k hmn (rfl | hnk)
    · exact Or.inr hmn
    · exact Or.inr (Nat.lt_trans hmn hnk)
  induction script generalizing cue m with
  | done => exact Or.inl rfl
  | reset c rest ih =>
    rw [play]
    split
    · exact hafter (Nat.lt_succ_self _) (ih cue m.reset)
    · exact ih cue m
  | loadLevel c level rest ih =>
    rw [play]
    split
    · exact hafter (Nat.lt_succ_self _) (ih cue (m.loadLevel level))
    · exact ih cue m
  | view c rest ih =>
    rw [play]
    split
    · exact ih cue m
    · exact ih cue m
  | run c request nested rest ihn ihr =>
    rw [play]
    split
    · have hnested := Machine.run_fenced (Callback.fenced_watching ihn request.watch) request.program
        request.level m
      rcases hnested with hkept | htaken
      · dsimp only
        rw [hkept]
        exact ihr cue m
      · exact hafter htaken (ihr cue _)
    · exact ihr cue m

/-! ## Reports -/

/-- The machine `e`, at the end of a run with an outcome, after what a script does at the unit that ended
the run. If the units ran out, no unit ended it, and the script has no say any more. -/
def Script.afterEnding (script : Script) (outcome : Outcome) (e : Machine) : Machine :=
  if outcome = .stopped ∨ e.status = .complete then (script.play ⟨.step, e.cursor - 1⟩ e).2 else e

theorem Conclusion.settle_watching (watch : Watch) (script : Script) (level : Level)
    (beats : List Beat) (m : Machine) :
    (Machine.conclude level beats m).settle (Callback.watching watch script.play) =
      script.afterEnding (Machine.conclude level beats m).outcome
        (Machine.conclude level beats m).machine := by
  obtain ⟨-, hlast⟩ := Machine.conclude_spec level beats m
  unfold settle Script.afterEnding
  cases hstep : (Machine.conclude level beats m).last with
  | none =>
    rw [hstep] at hlast
    rw [if_neg]
    rintro (hstopped | hcomplete)
    · exact hlast.1 hstopped
    · rw [hlast.2] at hcomplete
      cases hcomplete
  | some step =>
    rw [hstep] at hlast
    rw [if_pos hlast.1, hlast.2, Nat.add_sub_cancel]
    rfl

namespace Machine

variable {m n e : Machine}

theorem report_eq_report_iff {outcome : Outcome} :
    n.report outcome = e.report outcome ↔
      n.robot = e.robot ∧ n.trace = e.trace ∧ n.cursor = e.cursor ∧ n.units.size = e.units.size := by
  simp [report]

theorem runUndisturbed_of_start {program : Program} {level : Level} {units : List Beat} {t : Ticket}
    (hstart : m.start program (some level) = some (t, m.launched level units)) :
    ∃ steps, m.runUndisturbed program (some level) =
      (some ((m.concluded level units).machine.report (m.concluded level units).outcome), steps,
        (m.concluded level units).machine) := by
  refine run_of_passive hstart ?_
  rintro (h | s) m
  · rfl
  · rfl

/-- A script leaves the end of a run alone if it does not take the machine over. -/
theorem afterEnding_eq_of_generation {script : Script} {outcome : Outcome}
    (h : (script.afterEnding outcome e).generation = e.generation) :
    script.afterEnding outcome e = e := by
  unfold Script.afterEnding at h ⊢
  split
  · rename_i hended
    rw [if_pos hended] at h
    rcases script.play_fenced ⟨.step, e.cursor - 1⟩ e with hkept | htaken
    · exact hkept
    · exact absurd h (Nat.ne_of_gt htaken)
  · rfl

/-- A run that is not cancelled ends as it would have ended if it had been left alone, and with the same
outcome. Its report describes the machine after what the script does at the unit that ended the run, so
it describes the run exactly if robot, history and counts are as they were; it does if the script leaves
the machine alone there, and never does if the script leaves it reset. -/
theorem runScript_report {request : RunRequest} {script : Script} {r : RunReport} {notes : Array Note}
    (hrun : m.runScript request script = (some r, notes, n)) (hr : r.outcome ≠ .cancelled) :
    ∃ own steps e, m.runUndisturbed request.program request.level = (some own, steps, e) ∧
      own = e.report r.outcome ∧
      n = script.afterEnding r.outcome e ∧
      r = n.report r.outcome ∧
      (r = own ↔ n.robot = e.robot ∧ n.trace = e.trace ∧ n.cursor = e.cursor ∧
        n.units.size = e.units.size) ∧
      (n.generation = e.generation → r = own) ∧
      (n.trace = #[] → r ≠ own) := by
  have hfenced : (Callback.watching request.watch script.play).Fenced :=
    Callback.fenced_watching script.play_fenced request.watch
  -- the run was accepted, or else there would be no report
  cases hstart : m.start request.program request.level with
  | none =>
    rw [runScript, run_of_start_eq_none hstart] at hrun
    cases hrun
  | some started =>
    obtain ⟨t, m₁⟩ := started
    obtain ⟨level, units, hlevel, -, -, -, -, rfl⟩ := start_eq_some_iff.1 hstart
    rw [runScript] at hrun
    rw [hlevel] at hstart hrun ⊢
    obtain ⟨steps, hundisturbed⟩ := runUndisturbed_of_start hstart
    rcases run_of_fenced hstart hfenced with ⟨_, _, _, hrun', hcancelled⟩ | ⟨_, hrun'⟩
    · rw [hrun] at hrun'
      cases hrun'
      exact absurd hcancelled hr
    · rw [hrun, concluded, Conclusion.settle_watching, ← concluded] at hrun'
      simp only [Prod.mk.injEq, Option.some.injEq] at hrun'
      obtain ⟨rfl, -, rfl⟩ := hrun'
      refine ⟨_, steps, _, hundisturbed, rfl, rfl, rfl, report_eq_report_iff, ?_, ?_⟩
      · intro hgeneration
        rw [afterEnding_eq_of_generation hgeneration]
      · -- the history of the run begins with the robot as the level places it
        intro hnil heq
        have htrace := (report_eq_report_iff.1 heq).2.1
        have hsize := size_trace_le_conclude level units (m.launched level units)
        rw [← concluded, ← htrace, hnil] at hsize
        exact absurd hsize (by simp [launched])

/-- Two steps on the first shipped level, the second of which reaches the target. -/
def firstSteps : RunRequest :=
  { program := .ofForest (.command () .forward (.command () .forward .nil))
    level := Catalog.shipped.levels.head?
    watch := {} }

/-- A look at the machine when the target is reached leaves the run its own report. -/
theorem runScript_report_viewed :
    ∃ own steps e, (new defaultMaxUnits).runUndisturbed firstSteps.program firstSteps.level =
        (some own, steps, e) ∧
      ((new defaultMaxUnits).runScript firstSteps (.view ⟨.step, 1⟩ .done)).1 = some own := by
  have hreport : ((new defaultMaxUnits).runScript firstSteps (.view ⟨.step, 1⟩ .done)).1 =
      some ⟨.won, ⟨⟨2, 2⟩, 0⟩, #[⟨⟨2, 4⟩, 0, none⟩, ⟨⟨2, 3⟩, 0, none⟩, ⟨⟨2, 2⟩, 0, none⟩], 2, 2⟩ := by
    decide
  generalize hrun : (new defaultMaxUnits).runScript firstSteps (.view ⟨.step, 1⟩ .done) = out
    at hreport ⊢
  obtain ⟨r, notes, n⟩ := out
  obtain rfl : r = some _ := hreport
  obtain ⟨own, steps, e, hundisturbed, -, hn, -, -, hkept, -⟩ := runScript_report hrun (by decide)
  refine ⟨own, steps, e, hundisturbed, ?_⟩
  have hgeneration : n.generation = e.generation := by
    rw [hn, Script.afterEnding]
    split
    · simp only [Script.play]
      split
      · rfl
      · rfl
    · rfl
  exact congrArg some (hkept hgeneration)

/-- A reset when the target is reached: the report of the won run tells of no unit and no history. -/
theorem reset_at_target_is_reported :
    ((new defaultMaxUnits).runScript firstSteps (.reset ⟨.step, 1⟩ .done)).1 =
        some ⟨.won, ⟨⟨2, 4⟩, 0⟩, #[], 0, 0⟩ ∧
      ((new defaultMaxUnits).runUndisturbed firstSteps.program firstSteps.level).1 =
        some ⟨.won, ⟨⟨2, 2⟩, 0⟩, #[⟨⟨2, 4⟩, 0, none⟩, ⟨⟨2, 3⟩, 0, none⟩, ⟨⟨2, 2⟩, 0, none⟩], 2, 2⟩ := by
  decide

end Machine

end RobotPuzzle
