import Mathlib.Data.List.Chain
import RobotPuzzle.Proofs.Program.Denotation
import RobotPuzzle.Proofs.Run.Cancellation

/-!
# The order of a run

Whatever its caller does with the machine, a run goes through the units of its program in order, and
control is handed over twice for each: at the pause before the unit and at the step that committed it.
The handovers of a run are a first part of this schedule. From one to the next the machine commits the
unit it has paused at, or highlights the next one and changes nothing else, so no unit has an effect
before its pause.

## Main definitions

- `Handover.Leads` — what happens between two handovers that follow each other

## Main statements

- `Machine.Course.leads` — the handovers of a run lead from one to the next
- `Machine.runScript_in_order` — the order of the handovers of a run with a script
-/

namespace RobotPuzzle

variable {ε : Type} {callback : Callback ε}

/-- Between two handovers a run does one thing: it commits the unit it has paused at, or it highlights a
unit and changes nothing else. -/
inductive Handover.Leads (t : Ticket) (x y : Handover ε) : Prop
  | committed (u : Highlight) (s : Step) (hx : x.event = .paused u) (hy : y.event = .stepped s)
    (hcommit : x.after.commitStep t = (.applied s, y.before))
  | highlighted (s : Step) (u : Highlight) (hx : x.event = .stepped s) (hy : y.event = .paused u)
    (hbefore : y.before = { x.after with highlight := some u })

/-! ## The schedule -/

theorem countP_step_schedule (i : Nat) (beats : List Beat) :
    (schedule i beats).countP (·.1.moment = .step) = beats.length := by
  induction beats generalizing i with
  | nil => rfl
  | cons beat beats ih => simp [schedule, ih]

theorem getLast?_schedule (i : Nat) (beats : List Beat) :
    (schedule i beats).getLast? =
      beats.getLast?.map fun beat => (⟨.step, i + (beats.length - 1)⟩, beat) := by
  induction beats generalizing i with
  | nil => rfl
  | cons beat beats ih =>
    cases beats with
    | nil => rfl
    | cons next beats =>
      have hindex : i + 1 + ((next :: beats).length - 1) = i + ((beat :: next :: beats).length - 1) := by
        simp only [List.length_cons]
        omega
      rw [← hindex, List.getLast?_cons_cons, ← ih]
      simp [schedule]

theorem Event.exists_stepped {event : Event} {i : Nat} (h : event.cue = ⟨.step, i⟩) :
    ∃ s, event = .stepped s ∧ s.index = i := by
  cases event with
  | paused u => cases h
  | stepped s => exact ⟨s, rfl, congrArg Cue.index h⟩

namespace Machine

variable {m n : Machine} {t : Ticket} {level : Level} {beat : Beat} {beats : List Beat}

/-! ## From one handover to the next -/

/-- A pause at which the machine is left alone leads to the step of its unit. -/
theorem leads_atStep {p : Handover ε} (hp : p = m.atPause callback beat) (hkeeps : p.Keeps)
    {outcome : Option Outcome} (hcommit : (m.paused beat).commitStep t =
      (.applied ⟨m.cursor, beat, (m.carry level ⟨m.cursor, beat⟩).1, outcome⟩, n)) :
    p.Leads t (m.atStep callback level beat outcome n) := by
  subst hp
  refine .committed ⟨m.cursor, beat⟩ _ rfl rfl ?_
  rw [show (m.atPause callback beat).after = m.paused beat from hkeeps]
  exact hcommit

/-- A run first highlights its next unit. From one handover to the next it commits a unit it has paused
at, or highlights one and changes nothing else. -/
theorem Course.leads {xs : List (Handover ε)} {r : RunReport}
    (hcourse : Course callback level beats m xs r n) (h : m.Underway t level beats) :
    (∀ x ∈ xs.head?, ∃ u, x.event = .paused u ∧ x.before = { m with highlight := some u }) ∧
      xs.IsChain (Handover.Leads t) := by
  have hfirst : ∀ {m : Machine} {beat} {xs : List (Handover ε)},
      ∀ x ∈ (m.atPause callback beat :: xs).head?,
        ∃ u, x.event = .paused u ∧ x.before = { m with highlight := some u } := by
    intro m beat xs x hx
    rw [List.head?_cons, Option.mem_some_iff] at hx
    subst hx
    exact ⟨⟨m.cursor, beat⟩, rfl, rfl⟩
  induction hcourse with
  | exhausted m => exact ⟨fun x hx => absurd hx (Option.not_mem_none x), .nil⟩
  | takenPaused m beat beats hp =>
    subst hp
    exact ⟨hfirst, .singleton _⟩
  | takenStepped m beat beats hp hkeeps hend hs | ended m beat beats hp hkeeps hend hs =>
    have hcommit := h.commitStep_cons
    rw [hend] at hcommit
    have hleads := leads_atStep hp hkeeps hcommit
    subst hp hs
    exact ⟨hfirst, List.isChain_pair.2 hleads⟩
  | next m beat hp hkeeps hend hs hkeeps' hrest ih =>
    have hcommit := h.commitStep_cons
    rw [hend] at hcommit
    have hleads := leads_atStep hp hkeeps hcommit
    subst hp hs
    obtain ⟨hnext, hchain⟩ := ih h.carry
    refine ⟨hfirst, List.isChain_cons_cons.2 ⟨hleads, List.isChain_cons.2 ⟨?_, hchain⟩⟩⟩
    -- the step is handed back as it was, so the next pause is made on what it left
    intro y hy
    obtain ⟨u, hu, hbefore⟩ := hnext y hy
    refine .highlighted _ u rfl hu ?_
    rw [hbefore]
    exact congrArg (fun z : Machine => { z with highlight := some u }) hkeeps'.symm

/-! ## Whole runs -/

/-- The handovers of an accepted run are made for the units of its program in order, at the pause before
a unit and then at its step, and are a first part of that schedule, with at most one step for each unit.
Between two of them the machine commits the unit it has paused at, or highlights the next one and changes
nothing else. Nothing follows a step that ended the run. A run that is not cancelled goes on to the step
that has its outcome, or to the step of the last unit. -/
theorem runScript_in_order {request : RunRequest} {script : Script} {r : RunReport} {notes : Array Note}
    (hauthored : request.program.Authored) (hrun : m.runScript request script = (some r, notes, n)) :
    let t : Ticket := ⟨m.generation + 1⟩
    let units := request.program.unroll
    let xs := m.scriptHandovers request script
    xs.map (·.event.key) <+: schedule 0 units ∧
      xs.countP (·.event.cue.moment = .step) ≤ units.length ∧
      (∃ started, m.start request.program request.level = some (t, started) ∧
        ∀ x ∈ xs.head?, ∃ u, x.event = .paused u ∧ x.before = { started with highlight := some u }) ∧
      xs.IsChain (Handover.Leads t) ∧
      (∀ earlier x later, xs = earlier ++ x :: later → x.event.Ends → later = []) ∧
      (r.outcome ≠ .cancelled → ∃ x s, xs.getLast? = some x ∧ x.event = .stepped s ∧
        (s.outcome = some r.outcome ∨ s.outcome = none ∧ s.index + 1 = units.length)) := by
  intro t units xs
  obtain ⟨level, beats, hstart, hempty, hbeats, -, hcourse, -⟩ := runScript_course hrun
  obtain rfl : beats = units := Program.eq_unroll_of_unrollWithin hbeats
  have hne : units ≠ [] := hauthored.wellFormed.unroll_ne_nil hempty
  have hschedule : xs.map (·.event.key) <+: schedule 0 units := hcourse.prefix_schedule
  obtain ⟨hfirst, hchain⟩ := hcourse.leads (underway_launched m level units)
  refine ⟨hschedule, ?_, ⟨_, hstart, hfirst⟩, hchain, ?_, ?_⟩
  · have hsteps := hschedule.sublist.countP_le (p := (·.1.moment = .step))
    rw [countP_step_schedule, List.countP_map] at hsteps
    exact hsteps
  · intro earlier x later hxs hends
    rw [show m.scriptHandovers request script = earlier ++ x :: later from hxs] at hcourse
    exact hcourse.eq_nil_of_append (Or.inl hends)
  · intro hr
    rcases hcourse.conclusion_cases with
      ⟨x, -, -, -, -, rfl⟩ | ⟨x, s, outcome, hx, hs, houtcome, -, -, rfl⟩ | ⟨hkept, hall, -⟩
    · exact absurd rfl hr
    · exact ⟨x, s, hx, hs, Or.inl houtcome⟩
    · -- the handovers are the whole schedule, which ends with the step of the last unit
      have hlast := congrArg List.getLast? hall
      rw [List.getLast?_map, getLast?_schedule, List.getLast?_eq_some_getLast hne, Option.map_some,
        Option.map_eq_some_iff] at hlast
      obtain ⟨x, hx, hkey⟩ := hlast
      obtain ⟨s, hs, hindex⟩ := Event.exists_stepped (congrArg Prod.fst hkey)
      refine ⟨x, s, hx, hs, Or.inr ⟨?_, ?_⟩⟩
      · have hends := (hkept x (List.mem_of_getLast? hx)).1
        rw [hs, Event.Ends, Option.isSome_iff_ne_none, not_not] at hends
        exact hends
      · have hpos := List.length_pos_of_ne_nil hne
        have hcursor : (m.launched level units).cursor = 0 := rfl
        omega

/-- A look at the machine at the second pause leaves two steps their order. -/
theorem runScript_in_order_two_steps :
    let xs := (new defaultMaxUnits).scriptHandovers firstSteps (.view ⟨.pause, 1⟩ .done)
    xs.map (·.event.key) <+: schedule 0 firstSteps.program.unroll ∧
      ∃ x s, xs.getLast? = some x ∧ x.event = .stepped s ∧
        (s.outcome = some .won ∨ s.outcome = none ∧ s.index + 1 = firstSteps.program.unroll.length) := by
  intro xs
  have hauthored : firstSteps.program.Authored := ⟨[.append .forward none, .append .forward none], rfl⟩
  have houtcome : ((new defaultMaxUnits).runScript firstSteps (.view ⟨.pause, 1⟩ .done)).1.map
      (·.outcome) = some .won := by
    decide
  generalize hrun : (new defaultMaxUnits).runScript firstSteps (.view ⟨.pause, 1⟩ .done) = out at houtcome
  obtain ⟨r, notes, n⟩ := out
  obtain ⟨r, rfl, hwon⟩ := Option.map_eq_some_iff.1 houtcome
  obtain ⟨hschedule, -, -, -, -, hlast⟩ := runScript_in_order hauthored hrun
  rw [hwon] at hlast
  exact ⟨hschedule, hlast nofun⟩

end Machine

end RobotPuzzle
