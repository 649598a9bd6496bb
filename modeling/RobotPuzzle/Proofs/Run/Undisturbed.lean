import Mathlib.Data.List.Basic
import RobotPuzzle.Proofs.Run.Course

/-!
# Undisturbed runs

A run is undisturbed if its caller hands the machine back as it was, every time. Whatever else the caller
would have done, the run then is one with a callback that never touches the machine, and its course has no
takeover.

## Main definitions

- `Callback.hushed` — the callback, kept from the machine
- `Machine.Undisturbed` — an undisturbed run, its report, its steps and the machine it leaves

## Main statements

- `Machine.run_recorded_hushed` — an undisturbed run goes the same way with the hushed callback
- `Machine.Undisturbed.exists_course` — the course of an undisturbed run
- `Machine.Undisturbed.of_runUndisturbed` — a run whose caller collects the steps is undisturbed
- `Machine.Undisturbed.of_done` — so is a run with a script that does nothing, and its notes show the steps
- `Machine.Undisturbed.beat_mem_unroll` — only units of the program are committed
-/

namespace RobotPuzzle

variable {ε : Type} {callback : Callback ε}

/-- The step that has been committed at an event. -/
def Event.step? : Event → Option Step
  | paused _ => none
  | stepped s => some s

namespace Callback

/-- The callback notes down what it would, and the machine is handed back as it was. -/
def hushed (callback : Callback ε) : Callback ε := fun event m => ((callback event m).1, m)

theorem passive_hushed (callback : Callback ε) : callback.hushed.Passive := fun _ _ => rfl

theorem recorded_hushed {event : Event} {m : Machine} (h : (callback.handover event m).Keeps) :
    callback.hushed.recorded event m = callback.recorded event m := by
  have hafter : (callback event m).2 = m := h
  simp only [recorded, handover, hushed, hafter]

/-- The caller notes down the steps and leaves the machine alone. -/
def collecting : Callback Step := fun event m => (event.step?.toList, m)

theorem passive_collecting : collecting.Passive := fun _ _ => rfl

theorem passive_watching_done (watch : Watch) : (watching watch Script.done.play).Passive := by
  intro event m
  rw [watching]
  split <;> rfl

/-- The notes of a caller who does nothing show each step that was committed. -/
theorem steps_watching_done (events : List Event) (m : Machine) :
    Note.steps (events.flatMap fun event => (watching {} Script.done.play event m).1).toArray =
      events.filterMap Event.step? := by
  induction events with
  | nil => rfl
  | cons event events ih =>
    rw [Note.steps] at ih ⊢
    rw [List.flatMap_cons, List.filterMap_append, ih]
    cases event <;> rfl

end Callback

namespace Machine

variable {m n : Machine} {t : Ticket} {level : Level} {program : Program} {r : RunReport}
  {steps : List Step}

/-- The machine accepts a run of the program on the level, and its caller hands it back as it was at every
event; the steps are those the caller has been told of, and the run ends with the report and leaves `n`. -/
structure Undisturbed (m : Machine) (callback : Callback ε) (program : Program) (level : Level)
    (r : RunReport) (steps : List Step) (n : Machine) : Prop where
  run_eq : ∃ notes, m.run callback program (some level) = (some r, notes, n)
  keeps : ∀ x ∈ m.handovers callback program (some level), x.Keeps
  steps_eq : (m.handovers callback program (some level)).filterMap (·.event.step?) = steps

/-! ## The hushed callback -/

private theorem mem_append_list {x : ε} {notes : Array ε} (hx : x ∈ notes) (more : List ε) :
    x ∈ notes ++ more := by
  rw [← Array.mem_toList_iff, Array.toList_appendList]
  exact List.mem_append_left _ (Array.mem_toList_iff.2 hx)

private theorem mem_append_singleton {x : ε} {notes : Array ε} : x ∈ notes ++ [x] := by
  rw [← Array.mem_toList_iff, Array.toList_appendList]
  exact List.mem_append_right _ List.mem_cons_self

/-- What has been noted down stays noted down. -/
theorem mem_runRounds {x : ε} {notes : Array ε} (hx : x ∈ notes) (rounds : Nat) :
    x ∈ (m.runRounds callback t rounds notes).2.1 := by
  induction rounds generalizing m notes with
  | zero => exact hx
  | succ rounds ih =>
    rw [runRounds]
    split
    · exact hx
    · exact hx
    · dsimp only
      split
      · split
        · exact mem_append_list (mem_append_list hx _) _
        · exact ih (mem_append_list (mem_append_list hx _) _)
      · exact mem_append_list hx _

theorem runRounds_recorded_hushed {rounds : Nat} {notes : Array (Handover ε)}
    (hkeeps : ∀ x ∈ (m.runRounds callback.recorded t rounds notes).2.1, x.Keeps) :
    m.runRounds callback.hushed.recorded t rounds notes =
      m.runRounds callback.recorded t rounds notes := by
  -- a round makes two handovers at most; each is noted down, so it leaves the machine alone
  induction rounds generalizing m notes with
  | zero => rfl
  | succ rounds ih =>
    rw [runRounds, runRounds]
    rw [runRounds] at hkeeps
    generalize m.beginStep t = began at hkeeps ⊢
    obtain ⟨answer, m₁⟩ := began
    cases answer with
    | finished | stale => rfl
    | highlighted u =>
      dsimp only at hkeeps ⊢
      have hpause : (callback.handover (.paused u) m₁).Keeps := by
        apply hkeeps
        split
        · split
          · exact mem_append_list mem_append_singleton _
          · exact mem_runRounds (mem_append_list mem_append_singleton _) rounds
        · exact mem_append_singleton
      rw [Callback.recorded_hushed hpause]
      generalize (callback.recorded (.paused u) m₁).2.commitStep t = committed at hkeeps ⊢
      obtain ⟨answer, m₃⟩ := committed
      cases answer with
      | notHighlighted | stale => rfl
      | applied s =>
        dsimp only at hkeeps ⊢
        have hstep : (callback.handover (.stepped s) m₃).Keeps := by
          apply hkeeps
          split
          · exact mem_append_singleton
          · exact mem_runRounds mem_append_singleton rounds
        rw [Callback.recorded_hushed hstep]
        cases houtcome : s.outcome with
        | some outcome => rfl
        | none =>
          rw [houtcome] at hkeeps
          exact ih hkeeps

/-- A run whose caller leaves the machine alone goes the same way with the hushed callback. -/
theorem run_recorded_hushed {l? : Option Level}
    (hkeeps : ∀ x ∈ m.handovers callback program l?, x.Keeps) :
    m.run callback.hushed.recorded program l? = m.run callback.recorded program l? := by
  unfold handovers at hkeeps
  unfold run at hkeeps ⊢
  cases hstart : m.start program l? with
  | none => rfl
  | some started =>
    rw [hstart] at hkeeps
    dsimp only at hkeeps ⊢
    rw [runRounds_recorded_hushed fun x hx => hkeeps x (Array.mem_toList_iff.2 hx)]

/-! ## The course of an undisturbed run -/

namespace Undisturbed

/-- The course of an undisturbed run is one of the hushed callback. -/
theorem exists_course (h : m.Undisturbed callback program level r steps n) :
    Course callback.hushed level program.unroll (m.launched level program.unroll)
      (m.handovers callback program (some level)) r n := by
  obtain ⟨notes, hrun⟩ := h.run_eq
  rw [run_eq_recorded] at hrun
  have hhandovers : m.handovers callback.hushed program (some level) =
      m.handovers callback program (some level) := by
    unfold handovers
    rw [run_recorded_hushed h.keeps]
  have hhushed : m.run callback.hushed program (some level) =
      (some r, ((m.handovers callback program (some level)).flatMap (·.notes)).toArray, n) := by
    rw [run_eq_recorded, hhandovers, run_recorded_hushed h.keeps, (Prod.ext_iff.1 hrun).1,
      (Prod.ext_iff.1 (Prod.ext_iff.1 hrun).2).2]
  obtain ⟨bound, units, hstart, -, hunits, -, hcourse⟩ :=
    run_course callback.passive_hushed.fenced hhushed
  obtain rfl : units = program.unroll := Program.eq_unroll_of_unrollWithin hunits
  -- the level that was bound at the start is the one that was asked for
  obtain ⟨_, _, hlevel, -, -, -, -, hlaunched⟩ := start_eq_some_iff.1 hstart
  obtain rfl : bound = level := by
    rw [Option.some.inj hlevel]
    exact Option.some.inj (congrArg Machine.level hlaunched)
  rw [hhandovers] at hcourse
  exact hcourse

/-- A run with a callback that never touches the machine is undisturbed. -/
theorem of_passive {notes : Array ε} (hpassive : callback.Passive)
    (hrun : m.run callback program (some level) = (some r, notes, n)) :
    m.Undisturbed callback program level r
      ((m.handovers callback program (some level)).filterMap (·.event.step?)) n := by
  refine ⟨⟨notes, hrun⟩, fun x hx => ?_, rfl⟩
  obtain ⟨_, units, -, -, -, -, hcourse⟩ := run_course hpassive.fenced hrun
  obtain ⟨hplayed, -⟩ := hcourse.of_mem (underway_launched m _ units) x hx
  rw [hplayed]
  exact hpassive x.event x.before

/-- A run whose caller collects the steps is undisturbed, and they are collected in full. -/
theorem of_runUndisturbed (hrun : (m.runUndisturbed program (some level)).1 = some r) :
    m.Undisturbed Callback.collecting program level r
      (m.runUndisturbed program (some level)).2.1.toList (m.runUndisturbed program (some level)).2.2 := by
  have hcallback : m.runUndisturbed program (some level) = m.run Callback.collecting program (some level) := by
    rw [runUndisturbed]
    congr 1
    funext event m
    cases event <;> rfl
  have hcollecting : m.run Callback.collecting program (some level) =
      (some r, (m.runUndisturbed program (some level)).2) := by
    rw [← hcallback, ← hrun]
  have hundisturbed := of_passive Callback.passive_collecting hcollecting
  obtain ⟨_, units, -, -, -, hnotes, hcourse⟩ := run_course Callback.passive_collecting.fenced hcollecting
  have hsteps : (m.handovers Callback.collecting program (some level)).filterMap (·.event.step?) =
      (m.runUndisturbed program (some level)).2.1.toList := by
    rw [hnotes, List.filterMap_eq_flatMap_toList]
    refine List.flatMap_congr fun x hx => ?_
    obtain ⟨hplayed, -⟩ := hcourse.of_mem (underway_launched m _ units) x hx
    exact (congrArg Handover.notes hplayed).symm
  rwa [hsteps] at hundisturbed

/-- A run with a script that does nothing is undisturbed, and its notes show all its steps. -/
theorem of_done {notes : Array Note}
    (hrun : m.runScript ⟨program, some level, {}⟩ .done = (some r, notes, n)) :
    m.Undisturbed (.watching {} Script.done.play) program level r (Note.steps notes) n := by
  have hpassive := Callback.passive_watching_done {}
  have hundisturbed := of_passive hpassive hrun
  obtain ⟨_, units, -, -, -, hnotes, hcourse⟩ := run_course hpassive.fenced hrun
  suffices hsteps : Note.steps notes =
      (m.handovers (.watching {} Script.done.play) program (some level)).filterMap (·.event.step?) by
    rwa [hsteps]
  -- what is noted down at an event does not depend on the machine
  have hnoted : (m.handovers (.watching {} Script.done.play) program (some level)).flatMap (·.notes) =
      ((m.handovers (.watching {} Script.done.play) program (some level)).map (·.event)).flatMap
        fun event => (Callback.watching {} Script.done.play event m).1 := by
    rw [List.flatMap_map]
    refine List.flatMap_congr fun x hx => ?_
    obtain ⟨hplayed, -⟩ := hcourse.of_mem (underway_launched m _ units) x hx
    rw [congrArg Handover.notes hplayed]
    cases x.event <;> rfl
  have hlist : notes = notes.toList.toArray := Array.toArray_toList.symm
  rw [hlist, hnotes, hnoted, Callback.steps_watching_done, List.filterMap_map]
  rfl

/-- Only units of the program are committed. -/
theorem beat_mem_unroll (h : m.Undisturbed callback program level r steps n) {s : Step} (hs : s ∈ steps) :
    s.beat ∈ program.unroll := by
  rw [← h.steps_eq] at hs
  obtain ⟨x, hx, hstep⟩ := List.mem_filterMap.1 hs
  have hkey : x.event.key ∈ schedule (m.launched level program.unroll).cursor program.unroll :=
    h.exists_course.prefix_schedule.subset (List.mem_map_of_mem hx)
  cases hevent : x.event with
  | paused u =>
    rw [hevent] at hstep
    cases hstep
  | stepped t =>
    rw [hevent] at hstep hkey
    obtain rfl := Option.some.inj hstep
    exact snd_mem_of_mem_schedule hkey

end Undisturbed

end Machine

end RobotPuzzle
