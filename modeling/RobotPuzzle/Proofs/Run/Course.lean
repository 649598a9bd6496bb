import RobotPuzzle.Proofs.Run.Conclusion
import RobotPuzzle.Run.Script

/-!
# The course of a run

A run hands the machine over to its caller at every event and takes it back as the caller left it. Here
the handovers of a run are written down, with the machine before and after each, and it is said once what
they can be: as long as the caller leaves the machine alone, pauses and steps follow each other unit by
unit; a caller who takes the machine over before the run has ended has the last handover.

## Main definitions

- `Handover` — an event of a run, with the machine as the caller gets it and leaves it
- `Callback.recorded`, `Machine.handovers`, `Machine.scriptHandovers` — the handovers of a run
- `Machine.Course` — what the handovers of a run can be, and how it ends

## Main statements

- `Machine.run_eq_recorded` — writing the handovers down changes nothing
- `Machine.run_course` — an accepted run takes such a course
- `Machine.Course.conclusion_cases` — the last handover decides how the run ends
- `Machine.run_of_fenced`, `Machine.run_of_passive` — a run is cancelled or comes to its conclusion
-/

namespace RobotPuzzle

variable {ε : Type} {callback : Callback ε}

/-- The machine is handed over to the caller of a run and handed back: the machine before and after, and
what the caller notes down. -/
structure Handover (ε : Type) where
  event : Event
  before : Machine
  notes : List ε
  after : Machine

/-- The event is a step that ended the run. -/
def Event.Ends : Event → Prop
  | paused _ => False
  | stepped s => s.outcome.isSome

def Event.beat : Event → Beat
  | paused h => h.beat
  | stepped s => s.beat

/-- The moment of an event and its unit. -/
def Event.key (e : Event) : Cue × Beat := (e.cue, e.beat)

/-- The moments of a run to the end of its units: for each unit a pause and then a step, the units being
counted from `i`. -/
def schedule : Nat → List Beat → List (Cue × Beat)
  | _, [] => []
  | i, beat :: beats => (⟨.pause, i⟩, beat) :: (⟨.step, i⟩, beat) :: schedule (i + 1) beats

theorem snd_mem_of_mem_schedule {i : Nat} {beats : List Beat} {entry : Cue × Beat}
    (h : entry ∈ schedule i beats) : entry.2 ∈ beats := by
  induction beats generalizing i with
  | nil => cases h
  | cons beat beats ih =>
    rw [schedule, List.mem_cons, List.mem_cons] at h
    rcases h with rfl | rfl | h
    · exact List.mem_cons_self
    · exact List.mem_cons_self
    · exact List.mem_cons_of_mem _ (ih h)

namespace Handover

variable {x : Handover ε} {t : Ticket}

/-- The machine is left alone. -/
def Keeps (x : Handover ε) : Prop := x.after = x.before

/-- The machine is taken over: tickets handed out before are stale. -/
def Takes (x : Handover ε) : Prop := x.before.generation < x.after.generation

theorem Takes.not_keeps (h : x.Takes) : ¬ x.Keeps := by
  intro hkeeps
  rw [Takes, hkeeps] at h
  exact Nat.lt_irrefl _ h

theorem Takes.not_owns (h : x.Takes) (howns : x.before.Owns t) : ¬ x.after.Owns t := by
  intro howns'
  rw [Takes, ← howns.1, ← howns'.1] at h
  exact Nat.lt_irrefl _ h

end Handover

namespace Callback

/-- The machine is handed to the callback at an event. -/
def handover (callback : Callback ε) (event : Event) (m : Machine) : Handover ε :=
  ⟨event, m, (callback event m).1, (callback event m).2⟩

/-- The callback, with its handovers noted down. -/
def recorded (callback : Callback ε) : Callback (Handover ε) := fun event m =>
  ([callback.handover event m], (callback.handover event m).after)

theorem Fenced.keeps_or_takes (h : callback.Fenced) (event : Event) (m : Machine) :
    (callback.handover event m).Keeps ∨ (callback.handover event m).Takes := h event m

end Callback

namespace Machine

variable {m n : Machine} {t : Ticket} {level : Level} {beat : Beat} {beats : List Beat}

/-- The handovers of a run, in order. -/
def handovers (m : Machine) (callback : Callback ε) (program : Program) (level : Option Level) :
    List (Handover ε) := (m.run callback.recorded program level).2.1.toList

theorem commitStep_ne_notHighlighted_of_highlight {u : Highlight} (hu : m.highlight = some u) :
    (m.commitStep t).1 ≠ .notHighlighted := by
  intro hnot
  have htransition := transition_perform m (.commitStep t)
  simp only [perform, hnot] at htransition
  generalize (m.commitStep t).2 = after at htransition
  cases htransition with
  | notHighlighted _ _ hnone =>
    rw [hu] at hnone
    cases hnone

/-! ## Writing handovers down -/

theorem runRounds_eq_recorded (callback : Callback ε) (t : Ticket) (rounds : Nat) (m : Machine)
    (xs : Array (Handover ε)) :
    m.runRounds callback t rounds (xs.toList.flatMap (·.notes)).toArray =
      ((m.runRounds callback.recorded t rounds xs).1,
        ((m.runRounds callback.recorded t rounds xs).2.1.toList.flatMap (·.notes)).toArray,
        (m.runRounds callback.recorded t rounds xs).2.2) := by
  induction rounds generalizing m xs with
  | zero => rfl
  | succ rounds ih =>
    simp only [runRounds]
    split
    · rfl
    · rfl
    · simp only [Callback.recorded, Callback.handover]
      split
      · split
        · simp
        · rw [← ih]
          simp
      · simp

/-- A run goes the same way and ends the same if its handovers are written down, and its notes are those
of its handovers. -/
theorem run_eq_recorded (m : Machine) (callback : Callback ε) (program : Program)
    (level : Option Level) :
    m.run callback program level =
      ((m.run callback.recorded program level).1,
        ((m.handovers callback program level).flatMap (·.notes)).toArray,
        (m.run callback.recorded program level).2.2) := by
  unfold handovers run
  cases m.start program level with
  | none => rfl
  | some started =>
    have hrounds := runRounds_eq_recorded callback started.1 (started.2.units.size + 1) started.2 #[]
    simp only [List.flatMap_nil] at hrounds
    simp only [hrounds]

/-! ## What the handovers can be -/

/-- The handover at the pause before a unit. -/
def atPause (m : Machine) (callback : Callback ε) (beat : Beat) : Handover ε :=
  callback.handover (.paused ⟨m.cursor, beat⟩) (m.paused beat)

/-- The handover after a unit that ended the run with an outcome, or did not end it, and left `n`. -/
def atStep (m : Machine) (callback : Callback ε) (level : Level) (beat : Beat)
    (outcome : Option Outcome) (n : Machine) : Handover ε :=
  callback.handover (.stepped ⟨m.cursor, beat, (m.carry level ⟨m.cursor, beat⟩).1, outcome⟩) n

theorem not_ends_atPause : ¬ (m.atPause callback beat).event.Ends := id

theorem not_ends_atStep : ¬ (m.atStep callback level beat none n).event.Ends := nofun

/-- The handovers of a run that stands between two units with `beats` still to come, its report and the
machine it leaves. Each unit is paused at and committed; the run goes on until no unit is left, the
machine is taken over at a pause or after a step, or a unit ends it. -/
inductive Course (callback : Callback ε) (level : Level) :
    List Beat → Machine → List (Handover ε) → RunReport → Machine → Prop
  | exhausted (m : Machine) :
    Course callback level [] m []
      ((m.finish .idle).report (if m.OnTarget then .won else .notReached)) (m.finish .idle)
  | takenPaused (m : Machine) (beat : Beat) (beats : List Beat) {p : Handover ε}
    (hp : p = m.atPause callback beat) (htakes : p.Takes) :
    Course callback level (beat :: beats) m [p] (p.after.report .cancelled) p.after
  | takenStepped (m : Machine) (beat : Beat) (beats : List Beat) {p s : Handover ε}
    (hp : p = m.atPause callback beat) (hkeeps : p.Keeps)
    (hend : ending level (m.carry level ⟨m.cursor, beat⟩).1 = none)
    (hs : s = m.atStep callback level beat none (m.carry level ⟨m.cursor, beat⟩).2)
    (htakes : s.Takes) :
    Course callback level (beat :: beats) m [p, s] (s.after.report .cancelled) s.after
  | ended (m : Machine) (beat : Beat) (beats : List Beat) {p s : Handover ε} {outcome : Outcome}
    {status : Status} (hp : p = m.atPause callback beat) (hkeeps : p.Keeps)
    (hend : ending level (m.carry level ⟨m.cursor, beat⟩).1 = some (outcome, status))
    (hs : s = m.atStep callback level beat (some outcome)
      ((m.carry level ⟨m.cursor, beat⟩).2.finish status)) :
    Course callback level (beat :: beats) m [p, s] (s.after.report outcome) s.after
  | next (m : Machine) (beat : Beat) {beats : List Beat} {p s : Handover ε} {xs : List (Handover ε)}
    {r : RunReport} {n : Machine} (hp : p = m.atPause callback beat) (hkeeps : p.Keeps)
    (hend : ending level (m.carry level ⟨m.cursor, beat⟩).1 = none)
    (hs : s = m.atStep callback level beat none (m.carry level ⟨m.cursor, beat⟩).2)
    (hkeeps' : s.Keeps) (hrest : Course callback level beats (m.carry level ⟨m.cursor, beat⟩).2 xs r n) :
    Course callback level (beat :: beats) m (p :: s :: xs) r n

private theorem append_two {α : Type} (notes : Array α) (p s : α) (xs : List α) :
    notes ++ [p] ++ [s] ++ xs.toArray = notes ++ (p :: s :: xs).toArray := by
  apply Array.ext'
  simp

namespace Underway

theorem runRounds_recorded (h : m.Underway t level (beat :: beats)) (rounds : Nat)
    (notes : Array (Handover ε)) :
    m.runRounds callback.recorded t (rounds + 1) notes =
      match (m.atPause callback beat).after.commitStep t with
      | (.applied step, n) =>
        let s := callback.handover (.stepped step) n
        match step.outcome with
        | some outcome =>
          (s.after.report outcome, notes ++ [m.atPause callback beat] ++ [s], s.after)
        | none =>
          s.after.runRounds callback.recorded t rounds (notes ++ [m.atPause callback beat] ++ [s])
      | (_, n) => (n.report .cancelled, notes ++ [m.atPause callback beat], n) := by
  rw [runRounds, h.beginStep_cons]
  rfl

/-- A run that stands between two units takes its course. -/
theorem exists_course (h : m.Underway t level beats) (hfenced : callback.Fenced) {rounds : Nat}
    (hrounds : beats.length < rounds) (notes : Array (Handover ε)) :
    ∃ xs r n, m.runRounds callback.recorded t rounds notes = (r, notes ++ xs.toArray, n) ∧
      Course callback level beats m xs r n := by
  -- one round for each unit, and one more that finds none left or the machine taken over
  obtain ⟨rounds, rfl⟩ := Nat.exists_eq_succ_of_ne_zero (Nat.ne_of_gt (Nat.zero_lt_of_lt hrounds))
  induction beats generalizing m rounds notes with
  | nil =>
    rw [runRounds, h.beginStep_nil]
    exact ⟨[], _, _, by simp, .exhausted m⟩
  | cons beat beats ih =>
    rw [List.length_cons, Nat.succ_lt_succ_iff] at hrounds
    rw [h.runRounds_recorded]
    -- the round commits only if the caller leaves the machine alone at the pause
    have hpause : (m.atPause callback beat).Keeps ∨ (m.atPause callback beat).Takes :=
      hfenced.keeps_or_takes _ _
    rcases hpause with hkeeps | htakes
    · have hafter : (m.atPause callback beat).after = m.paused beat := hkeeps
      rw [hafter, h.commitStep_cons]
      cases hend : ending level (m.carry level ⟨m.cursor, beat⟩).1 with
      | some result =>
        refine ⟨_, _, _, ?_, .ended m beat beats rfl hkeeps hend rfl⟩
        rw [← append_two, Array.append_empty]
        rfl
      | none =>
        obtain ⟨rounds, rfl⟩ :=
          Nat.exists_eq_succ_of_ne_zero (Nat.ne_of_gt (Nat.zero_lt_of_lt hrounds))
        rcases hfenced.keeps_or_takes (.stepped ⟨m.cursor, beat, _, none⟩)
          (m.carry level ⟨m.cursor, beat⟩).2 with hkeeps' | htakes'
        · obtain ⟨xs, r, n, hrun, hcourse⟩ := ih h.carry (notes ++ [m.atPause callback beat] ++
            [m.atStep callback level beat none (m.carry level ⟨m.cursor, beat⟩).2]) rounds hrounds
          refine ⟨_, r, n, ?_, .next m beat rfl hkeeps hend rfl hkeeps' hcourse⟩
          rw [append_two] at hrun
          rw [← hrun]
          exact congrArg (runRounds _ _ _ · _) hkeeps'
        · -- the next round finds the ticket stale
          refine ⟨_, _, _, ?_, .takenStepped m beat beats rfl hkeeps hend rfl htakes'⟩
          rw [← append_two, Array.append_empty]
          exact runRounds_of_not_owns (htakes'.not_owns h.carry.owns) _ _
    · refine ⟨_, _, _, ?_, .takenPaused m beat beats rfl htakes⟩
      rw [commitStep_of_not_owns (htakes.not_owns h.owns)]
      rfl

end Underway

namespace Course

variable {xs : List (Handover ε)} {r : RunReport}

/-- The handovers are those of the callback, before the end of the run they are made while the run holds
the machine, and a pause is made with its unit highlighted. -/
theorem of_mem (hcourse : Course callback level beats m xs r n) (h : m.Underway t level beats) :
    ∀ x ∈ xs, x = callback.handover x.event x.before ∧ (¬ x.event.Ends → x.before.Owns t) ∧
      ∀ u, x.event = .paused u → x.before.highlight = some u := by
  have hpause : ∀ {m : Machine} {beat beats}, m.Underway t level (beat :: beats) →
      ∀ u, (m.atPause callback beat).event = .paused u →
        (m.atPause callback beat).before.highlight = some u := by
    rintro m beat beats - u ⟨⟩
    rfl
  induction hcourse with
  | exhausted m => exact fun x hx => absurd hx List.not_mem_nil
  | takenPaused m beat beats hp =>
    subst hp
    exact List.forall_mem_singleton.2 ⟨rfl, fun _ => h.owns, hpause h⟩
  | takenStepped m beat beats hp hkeeps hend hs =>
    subst hp hs
    exact List.forall_mem_cons.2 ⟨⟨rfl, fun _ => h.owns, hpause h⟩,
      List.forall_mem_singleton.2 ⟨rfl, fun _ => h.carry.owns, nofun⟩⟩
  | ended m beat beats hp hkeeps hend hs =>
    subst hp hs
    exact List.forall_mem_cons.2 ⟨⟨rfl, fun _ => h.owns, hpause h⟩,
      List.forall_mem_singleton.2 ⟨rfl, fun hnot => absurd rfl hnot, nofun⟩⟩
  | next m beat hp hkeeps hend hs hkeeps' hrest ih =>
    subst hp hs
    exact List.forall_mem_cons.2 ⟨⟨rfl, fun _ => h.owns, hpause h⟩,
      List.forall_mem_cons.2 ⟨⟨rfl, fun _ => h.carry.owns, nofun⟩, ih h.carry⟩⟩

/-- What is followed by another handover left the machine alone and did not end the run. -/
theorem pairwise (hcourse : Course callback level beats m xs r n) :
    xs.Pairwise fun x _ => ¬ x.event.Ends ∧ x.Keeps := by
  induction hcourse with
  | exhausted m => exact List.Pairwise.nil
  | takenPaused m beat beats hp => exact List.pairwise_singleton _ _
  | takenStepped m beat beats hp hkeeps | ended m beat beats hp hkeeps =>
    subst hp
    exact List.pairwise_pair.2 ⟨not_ends_atPause, hkeeps⟩
  | next m beat hp hkeeps hend hs hkeeps' hrest ih =>
    subst hp hs
    refine List.pairwise_cons.2 ⟨fun _ _ => ⟨not_ends_atPause, hkeeps⟩, ?_⟩
    exact List.pairwise_cons.2 ⟨fun _ _ => ⟨not_ends_atStep, hkeeps'⟩, ih⟩

/-- Nothing follows what ended the run or did not leave the machine alone. -/
theorem eq_nil_of_append {earlier later : List (Handover ε)} {x : Handover ε}
    (hcourse : Course callback level beats m (earlier ++ x :: later) r n)
    (hx : x.event.Ends ∨ ¬ x.Keeps) : later = [] := by
  have hpairwise := (List.pairwise_append.1 hcourse.pairwise).2.1
  -- anything later would be a pair that contradicts it
  cases later with
  | nil => rfl
  | cons y later =>
    have hkept := (List.pairwise_cons.1 hpairwise).1 y List.mem_cons_self
    rcases hx with hends | hnot
    · exact absurd hends hkept.1
    · exact absurd hkept.2 hnot

/-- The moments of the handovers are the first of the schedule. -/
theorem prefix_schedule (hcourse : Course callback level beats m xs r n) :
    xs.map (·.event.key) <+: schedule m.cursor beats := by
  induction hcourse with
  | exhausted m => exact List.prefix_rfl
  | takenPaused m beat beats hp =>
    subst hp
    exact List.cons_prefix_cons.2 ⟨rfl, List.nil_prefix⟩
  | takenStepped m beat beats hp hkeeps hend hs | ended m beat beats hp hkeeps hend hs =>
    subst hp hs
    exact List.cons_prefix_cons.2 ⟨rfl, List.cons_prefix_cons.2 ⟨rfl, List.nil_prefix⟩⟩
  | next m beat hp hkeeps hend hs hkeeps' hrest ih =>
    subst hp hs
    rw [cursor_carry] at ih
    exact List.cons_prefix_cons.2 ⟨rfl, List.cons_prefix_cons.2 ⟨rfl, ih⟩⟩

/-- The last handover decides how the run ends: there the machine is taken over, or a unit has ended the
run; or all units are carried out and the machine is never taken over. -/
theorem conclusion_cases (hcourse : Course callback level beats m xs r n) :
    (∃ x, xs.getLast? = some x ∧ ¬ x.event.Ends ∧ x.Takes ∧ n = x.after ∧ r = n.report .cancelled) ∨
      (∃ x s outcome, xs.getLast? = some x ∧ x.event = .stepped s ∧ s.outcome = some outcome ∧
        outcome ≠ .cancelled ∧ n = x.after ∧ r = n.report outcome) ∨
      (∀ x ∈ xs, ¬ x.event.Ends ∧ x.Keeps) ∧ xs.map (·.event.key) = schedule m.cursor beats ∧
        r.outcome ≠ .cancelled := by
  induction hcourse with
  | exhausted m =>
    refine Or.inr (Or.inr ⟨fun x hx => absurd hx List.not_mem_nil, rfl, ?_⟩)
    show (if m.OnTarget then Outcome.won else .notReached) ≠ .cancelled
    split
    · exact nofun
    · exact nofun
  | takenPaused m beat beats hp htakes =>
    subst hp
    exact Or.inl ⟨_, rfl, not_ends_atPause, htakes, rfl, rfl⟩
  | takenStepped m beat beats hp hkeeps hend hs htakes =>
    subst hp hs
    exact Or.inl ⟨_, rfl, not_ends_atStep, htakes, rfl, rfl⟩
  | ended m beat beats hp hkeeps hend hs =>
    subst hp hs
    refine Or.inr (Or.inl ⟨_, _, _, rfl, rfl, rfl, ?_, rfl, rfl⟩)
    rcases ending_cases hend with ⟨rfl, -⟩ | ⟨rfl, -⟩
    · exact nofun
    · exact nofun
  | next m beat hp hkeeps hend hs hkeeps' hrest ih =>
    subst hp hs
    -- the last handover of the rest is the last of all
    rcases ih with ⟨x, hx, hrest⟩ | ⟨x, step, outcome, hx, hrest⟩ | ⟨hkept, hschedule, hr⟩
    · exact Or.inl ⟨x, by simp [List.getLast?_cons, hx], hrest⟩
    · exact Or.inr (Or.inl ⟨x, step, outcome, by simp [List.getLast?_cons, hx], hrest⟩)
    · refine Or.inr (Or.inr ⟨?_, ?_, hr⟩)
      · exact List.forall_mem_cons.2 ⟨⟨not_ends_atPause, hkeeps⟩,
          List.forall_mem_cons.2 ⟨⟨not_ends_atStep, hkeeps'⟩, hkept⟩⟩
      · rw [cursor_carry] at hschedule
        rw [List.map_cons, List.map_cons, hschedule]
        rfl

/-- Whoever takes the machine over before the end of the run has the last handover, and the run leaves
the machine as it was handed back. -/
theorem eq_of_takes {earlier later : List (Handover ε)} {x : Handover ε}
    (hcourse : Course callback level beats m (earlier ++ x :: later) r n) (hends : ¬ x.event.Ends)
    (htakes : x.Takes) : later = [] ∧ n = x.after ∧ r = n.report .cancelled := by
  obtain rfl : later = [] := hcourse.eq_nil_of_append (Or.inr htakes.not_keeps)
  have hlast : (earlier ++ [x]).getLast? = some x := List.getLast?_concat
  refine ⟨rfl, ?_⟩
  rcases hcourse.conclusion_cases with
    ⟨y, hy, -, -, hn, hr⟩ | ⟨y, s, outcome, hy, hstep, houtcome, -⟩ | ⟨hkept, -⟩
  · obtain rfl : y = x := Option.some.inj (hy.symm.trans hlast)
    exact ⟨hn, hr⟩
  · obtain rfl : y = x := Option.some.inj (hy.symm.trans hlast)
    rw [hstep, Event.Ends, houtcome] at hends
    exact absurd rfl hends
  · exact absurd (hkept x (by simp)).2 htakes.not_keeps

/-- A run is cancelled, or it ends where it would end if it was left alone, but for what the caller does
at the unit that ended it. -/
theorem cancelled_or_concluded (hcourse : Course callback level beats m xs r n) :
    r.outcome = .cancelled ∨
      (r = ((conclude level beats m).settle callback).report (conclude level beats m).outcome ∧
        n = (conclude level beats m).settle callback) := by
  induction hcourse with
  | exhausted m => exact Or.inr ⟨rfl, rfl⟩
  | takenPaused m beat beats hp | takenStepped m beat beats hp => exact Or.inl rfl
  | ended m beat beats hp hkeeps hend hs =>
    subst hp hs
    rw [conclude_of_ending hend]
    exact Or.inr ⟨rfl, rfl⟩
  | next m beat hp hkeeps hend hs hkeeps' hrest ih =>
    rw [conclude_of_going_on hend]
    exact ih

theorem outcome_ne_cancelled (hcourse : Course callback level beats m xs r n)
    (h : m.Underway t level beats) (hpassive : callback.Passive) : r.outcome ≠ .cancelled := by
  rcases hcourse.conclusion_cases with
    ⟨x, hx, -, htakes, -⟩ | ⟨x, s, outcome, -, -, -, hne, -, rfl⟩ | ⟨-, -, hne⟩
  · obtain ⟨hplayed, -⟩ := hcourse.of_mem h x (List.mem_of_getLast? hx)
    have hkeeps : x.Keeps := by
      rw [hplayed]
      exact hpassive x.event x.before
    exact absurd hkeeps htakes.not_keeps
  · exact hne
  · exact hne

/-- The commit after a pause finds its unit highlighted, or the machine taken over. -/
theorem commitStep_ne_notHighlighted (hcourse : Course callback level beats m xs r n)
    (h : m.Underway t level beats) (hfenced : callback.Fenced) {x : Handover ε} (hx : x ∈ xs)
    {u : Highlight} (hu : x.event = .paused u) : (x.after.commitStep t).1 ≠ .notHighlighted := by
  obtain ⟨hplayed, howns, hhighlight⟩ := hcourse.of_mem h x hx
  have howns : x.before.Owns t := howns (by rw [hu]; exact id)
  have hhighlight : x.before.highlight = some u := hhighlight u hu
  have hcases : x.Keeps ∨ x.Takes := hplayed ▸ hfenced.keeps_or_takes x.event x.before
  rcases hcases with hkeeps | htakes
  · rw [show x.after = x.before from hkeeps]
    exact commitStep_ne_notHighlighted_of_highlight hhighlight
  · rw [commitStep_of_not_owns (htakes.not_owns howns)]
    exact nofun

end Course

/-! ## Runs from their start -/

section
variable {program : Program} {units : List Beat} {l? : Option Level}

/-- A run that is started takes its course from the machine at its beginning, and its notes are those of
its handovers. -/
theorem run_of_start (hfenced : callback.Fenced)
    (hstart : m.start program l? = some (t, m.launched level units)) :
    ∃ r notes n, m.run callback program l? = (some r, notes, n) ∧
      notes.toList = (m.handovers callback program l?).flatMap (·.notes) ∧
      Course callback level units (m.launched level units) (m.handovers callback program l?) r n := by
  obtain rfl : t = ⟨m.generation + 1⟩ := by
    obtain ⟨-, -, -, -, -, -, ht, -⟩ := start_eq_some_iff.1 hstart
    exact ht
  have hrounds : units.length < (m.launched level units).units.size + 1 := by simp [launched]
  obtain ⟨xs, r, n, hrecorded, hcourse⟩ :=
    (underway_launched m level units).exists_course hfenced hrounds #[]
  have hwritten : m.run callback.recorded program l? = (some r, xs.toArray, n) := by
    rw [run, hstart]
    simp only [hrecorded, Array.empty_append]
  have hhandovers : m.handovers callback program l? = xs := by rw [handovers, hwritten]
  rw [run_eq_recorded, hwritten, hhandovers]
  exact ⟨r, _, n, rfl, rfl, hcourse⟩

/-- An accepted run takes its course. -/
theorem run_course {r : RunReport} {notes : Array ε} (hfenced : callback.Fenced)
    (hrun : m.run callback program l? = (some r, notes, n)) :
    ∃ level units, m.start program l? = some (⟨m.generation + 1⟩, m.launched level units) ∧
      program.isEmpty = false ∧ program.unrollWithin m.maxUnits = .ok units ∧
      notes.toList = (m.handovers callback program l?).flatMap (·.notes) ∧
      Course callback level units (m.launched level units) (m.handovers callback program l?) r n := by
  cases hstart : m.start program l? with
  | none =>
    rw [run_of_start_eq_none hstart] at hrun
    cases hrun
  | some started =>
    obtain ⟨t, m₁⟩ := started
    obtain ⟨level, units, -, hempty, -, hunits, rfl, rfl⟩ := start_eq_some_iff.1 hstart
    obtain ⟨r', notes', n', hrun', hnotes, hcourse⟩ := run_of_start hfenced hstart
    rw [hrun] at hrun'
    cases hrun'
    exact ⟨level, units, rfl, hempty, hunits, hnotes, hcourse⟩

/-- A run that is not left alone is cancelled, unless that was after its end. -/
theorem run_of_fenced (hstart : m.start program l? = some (t, m.launched level units))
    (hfenced : callback.Fenced) :
    (∃ report notes n, m.run callback program l? = (some report, notes, n) ∧
      report.outcome = .cancelled) ∨
    ∃ notes, m.run callback program l? =
      (some (((m.concluded level units).settle callback).report (m.concluded level units).outcome),
        notes, (m.concluded level units).settle callback) := by
  obtain ⟨r, notes, n, hrun, -, hcourse⟩ := run_of_start hfenced hstart
  rcases hcourse.cancelled_or_concluded with hcancelled | ⟨rfl, rfl⟩
  · exact Or.inl ⟨r, notes, n, hrun, hcancelled⟩
  · exact Or.inr ⟨notes, hrun⟩

/-- A run that is left alone comes to its conclusion. -/
theorem run_of_passive (hstart : m.start program l? = some (t, m.launched level units))
    (hpassive : callback.Passive) :
    ∃ notes, m.run callback program l? =
      (some ((m.concluded level units).machine.report (m.concluded level units).outcome), notes,
        (m.concluded level units).machine) := by
  obtain ⟨r, notes, n, hrun, -, hcourse⟩ := run_of_start hpassive.fenced hstart
  rcases hcourse.cancelled_or_concluded with hcancelled | ⟨rfl, rfl⟩
  · exact absurd hcancelled (hcourse.outcome_ne_cancelled (underway_launched m level units) hpassive)
  · rw [Conclusion.settle_of_passive hpassive] at hrun
    exact ⟨notes, hrun⟩

end

/-- The handovers of a run with a script, in order. -/
def scriptHandovers (m : Machine) (request : RunRequest) (script : Script) : List (Handover Note) :=
  m.handovers (Callback.watching request.watch script.play) request.program request.level

end Machine

end RobotPuzzle
