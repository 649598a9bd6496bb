import RobotPuzzle.Program.Edit
import RobotPuzzle.Proofs.Machine.Coherence

/-!
# Two looks at the target

A run looks for the target in two places: at each landing, which ends it on the target, and once more when its
units have run out. The second look finds the robot on the target only if it has never left its start: a run
in which the robot has landed anywhere goes on from landing to landing off the target.

What belongs to a run is told by its ticket, whatever else is asked of the machine in between.

## Main definitions

- `Machine.committedWith` — the units committed with a ticket
- `Machine.AtStart` — the robot has been nowhere but at its start
- `Machine.Searching`, `Machine.Seeking` — a run that goes on has not found its target
- `Machine.Spent` — a ticket with which nothing will be committed any more

## Main statements

- `Machine.Seeking.perform`, `Machine.Spent.perform` — every call keeps both
- `Machine.looks_agree_afterCalls` — what both looks at the target find
-/

namespace RobotPuzzle

namespace Machine

variable {m n : Machine} {level : Level} {h : Highlight} {t : Ticket} {past : List Exchange} {x : Exchange}
  {step : Step}

/-! ## The units of one run -/

/-- The units committed with a ticket, in order. -/
def committedWith (t : Ticket) (past : List Exchange) : List Step :=
  committed (past.filter fun x => x.call = .commitStep t)

theorem committedWith_append (t : Ticket) (past later : List Exchange) :
    committedWith t (past ++ later) = committedWith t past ++ committedWith t later := by
  simp [committedWith, committed]

theorem committedWith_cons (t : Ticket) (x : Exchange) (past : List Exchange) :
    committedWith t (x :: past) = committedWith t [x] ++ committedWith t past :=
  committedWith_append t [x] past

/-- An exchange with another ticket, or one that commits nothing. -/
theorem committedWith_singleton_eq_nil (hx : x.call = .commitStep t → x.step? = none) :
    committedWith t [x] = [] := by
  by_cases hcall : x.call = .commitStep t
  · simp [committedWith, committed, hcall, hx hcall]
  · simp [committedWith, committed, hcall]

theorem committedWith_singleton (hcall : x.call = .commitStep t) (hstep : x.step? = some step) :
    committedWith t [x] = [step] := by
  simp [committedWith, committed, hcall, hstep]

/-! ## Robots that stay where they are -/

/-- A unit that does not land the robot leaves it where it is, and shows it nowhere else. -/
theorem carry_of_landing?_eq_none (hnone : (m.carry level h).1.landing? = none) :
    (m.carry level h).2.robot.position = m.robot.position ∧
      ∀ s ∈ (m.carry level h).2.trace, s ∈ m.trace ∨ s.position = m.robot.position := by
  rcases carry_cases m level h with hsame | ⟨robot, action, hrecord, hleads⟩
  · rw [hsame]
    exact ⟨rfl, fun s hs => Or.inl hs⟩
  · have htrace : (m.carry level h).2.trace = m.trace.push (robot.snapshot action) := by
      rw [hrecord]
      rfl
    have hlands : ¬(robot.snapshot action).Lands := by
      rcases carry_landing_cases m level h with ⟨cell, -, hcell, -⟩ | ⟨-, hsame | ⟨s, hpush, hs⟩⟩
      · rw [hnone] at hcell
        cases hcell
      · have hsize := congrArg Array.size (htrace.symm.trans hsame)
        simp at hsize
      · rwa [(Array.push_eq_push.1 (htrace.symm.trans hpush)).1]
    -- what is recorded is no landing, so it is a turn or a wait
    have hposition : (robot.snapshot action).position = m.robot.position := by
      generalize robot.snapshot action = s at hlands hleads
      cases hleads with
      | turned | waited => rfl
      | stepped => exact absurd (Or.inl rfl) hlands
      | jumped => exact absurd (Or.inr rfl) hlands
    refine ⟨?_, fun s hs => ?_⟩
    · rw [hrecord]
      exact hposition
    · rw [htrace] at hs
      rcases Array.mem_push.1 hs with hs | rfl
      · exact Or.inl hs
      · exact Or.inr hposition

/-- The robot and everything in its history are at the start of the level. -/
def AtStart (m : Machine) (level : Level) : Prop :=
  m.robot.position = level.start ∧ ∀ s ∈ m.trace, s.position = level.start

theorem AtStart.launched (m : Machine) (level : Level) (units : List Beat) :
    (m.launched level units).AtStart level :=
  ⟨rfl, by simp [Machine.launched, Robot.initial, Robot.snapshot]⟩

theorem AtStart.carry (hm : m.AtStart level) (hnone : (m.carry level h).1.landing? = none) :
    (m.carry level h).2.AtStart level := by
  obtain ⟨hposition, htrace⟩ := carry_of_landing?_eq_none hnone
  refine ⟨hposition.trans hm.1, fun s hs => ?_⟩
  rcases htrace s hs with hs | hs
  · exact hm.2 s hs
  · exact hs.trans hm.1

/-! ## The search for the target -/

/-- After these units of a run the target has not been found: either none of them has landed the robot, which
is still at the start, or one has, and the robot stands elsewhere than on the target. -/
def Searching (m : Machine) (level : Level) (steps : List Step) : Prop :=
  ((∀ step ∈ steps, step.effect.landing? = none) ∧ m.AtStart level) ∨
    ((∃ step ∈ steps, step.effect.landing? ≠ none) ∧ m.robot.position ≠ level.target)

theorem ending_of_landing {e : Effect} (hland : e.landing? = some level.target) :
    ending level e = some (.won, .complete) := by
  cases e with
  | moved cell | jumped cell => exact if_pos (Option.some.inj hland)
  | marker | blocked | turned | waited | stopped => cases hland

/-- The search goes on with a unit that leaves the run going on. -/
theorem Searching.carry {steps : List Step} (hm : m.Searching level steps)
    (hend : ending level (m.carry level h).1 = none) (heffect : step.effect = (m.carry level h).1) :
    (m.carry level h).2.Searching level (steps ++ [step]) := by
  rcases carry_landing_cases m level h with ⟨cell, s, hland, -, hposition, -⟩ | ⟨hnone, -⟩
  · refine Or.inr ⟨⟨step, by simp, ?_⟩, ?_⟩
    · rw [heffect, hland]
      exact Option.some_ne_none cell
    · rw [hposition]
      exact ne_target_of_going_on hend hland
  · rcases hm with ⟨hnever, hstart⟩ | ⟨⟨earlier, hearlier, hlanded⟩, hoff⟩
    · refine Or.inl ⟨?_, hstart.carry hnone⟩
      rw [List.forall_mem_append, List.forall_mem_singleton, heffect]
      exact ⟨hnever, hnone⟩
    · refine Or.inr ⟨⟨earlier, List.mem_append_left _ hearlier, hlanded⟩, ?_⟩
      rwa [(carry_of_landing?_eq_none hnone).1]

/-! ## The invariant -/

/-- A run that goes on has not found its target, and no unit is committed with a ticket that is yet to
come. -/
structure Seeking (m : Machine) (past : List Exchange) : Prop where
  searching : ∀ t, m.Owns t → ∃ level, m.level = some level ∧ m.Searching level (committedWith t past)
  unissued : ∀ t : Ticket, m.generation < t.generation → committedWith t past = []

namespace Seeking

theorem new (maxUnits : Nat) : Seeking (new maxUnits) [] where
  searching _ howns := by cases howns.2
  unissued _ _ := rfl

/-- At most the highlight has changed, and nothing was committed. -/
theorem unchanged (hm : Seeking m past) (hx : x.step? = none) (highlight : Option Highlight) :
    Seeking { m with highlight := highlight } (past ++ [x]) := by
  have hpast : ∀ t, committedWith t (past ++ [x]) = committedWith t past := by
    intro t
    rw [committedWith_append, committedWith_singleton_eq_nil fun _ => hx, List.append_nil]
  refine ⟨fun t howns => ?_, fun t ht => ?_⟩
  · rw [hpast]
    exact hm.searching t howns
  · rw [hpast]
    exact hm.unissued t ht

/-- No ticket that is yet to come is used in an exchange. -/
theorem unissued_concat (hm : Seeking m past) (hgeneration : m.generation ≤ n.generation)
    (hx : x.step? = none ∨ ∃ t, m.Owns t ∧ x.call = .commitStep t) :
    ∀ t : Ticket, n.generation < t.generation → committedWith t (past ++ [x]) = [] := by
  intro t ht
  rw [committedWith_append, hm.unissued t (Nat.lt_of_le_of_lt hgeneration ht), List.nil_append]
  refine committedWith_singleton_eq_nil fun hcall => ?_
  rcases hx with hx | ⟨u, howns, hcall'⟩
  · exact hx
  · obtain rfl : u = t := Call.commitStep.inj (hcall'.symm.trans hcall)
    have hsame := howns.1
    omega

/-- No run goes on any more. -/
theorem ceased (hm : Seeking m past) (hgeneration : m.generation ≤ n.generation) (hstatus : n.status ≠ .running)
    (hx : x.step? = none ∨ ∃ t, m.Owns t ∧ x.call = .commitStep t) : Seeking n (past ++ [x]) where
  searching _ howns := absurd howns.2 hstatus
  unissued := hm.unissued_concat hgeneration hx

/-- A run begins with the robot at its start. -/
theorem launched (hm : Seeking m past) (level : Level) (units : List Beat) (hx : x.step? = none) :
    Seeking (m.launched level units) (past ++ [x]) where
  searching t howns := by
    have hnone : committedWith t (past ++ [x]) = [] := by
      refine hm.unissued_concat (Nat.le_refl m.generation) (Or.inl hx) t ?_
      rw [howns.1]
      exact Nat.lt_succ_self m.generation
    rw [hnone]
    exact ⟨level, rfl, Or.inl ⟨by simp, .launched m level units⟩⟩
  unissued := hm.unissued_concat (Nat.le_succ m.generation) (Or.inl hx)

/-- A unit has been committed that leaves the run going on. -/
theorem carry (hm : Seeking m past) (howns : m.Owns t) (hl : m.level = some level)
    (hend : ending level (m.carry level h).1 = none) (hcall : x.call = .commitStep t)
    (hstep : x.step? = some step) (heffect : step.effect = (m.carry level h).1) :
    Seeking (m.carry level h).2 (past ++ [x]) where
  searching u hu := by
    obtain rfl : u = t := by
      obtain ⟨generation⟩ := u
      obtain ⟨generation'⟩ := t
      rw [Owns, generation_carry] at hu
      exact congrArg Ticket.mk (hu.1.trans howns.1.symm)
    obtain ⟨bound, hbound, hsearching⟩ := hm.searching u howns
    obtain rfl : bound = level := Option.some.inj (hbound.symm.trans hl)
    rw [committedWith_append, committedWith_singleton hcall hstep]
    exact ⟨bound, (level_carry m bound h).trans hl, hsearching.carry hend heffect⟩
  unissued := hm.unissued_concat (Nat.le_of_eq (generation_carry m level h).symm) (Or.inr ⟨t, howns, hcall⟩)

/-- Every call keeps the invariant. -/
theorem perform (hm : Seeking m past) (c : Call) :
    Seeking (m.perform c).2 (past ++ [⟨c, (m.perform c).1⟩]) := by
  have htransition := transition_perform m c
  generalize (m.perform c).1 = answer at htransition ⊢
  generalize (m.perform c).2 = after at htransition ⊢
  cases htransition with
  | loaded | reset => exact hm.ceased (Nat.le_succ _) (by simp [loadLevel]) (Or.inl rfl)
  | launched program level units => exact hm.launched level units rfl
  | exhausted t howns => exact hm.ceased (Nat.le_refl _) (by simp [finish]) (Or.inl rfl)
  | committed t level h howns _ hl hend => exact hm.carry howns hl hend rfl rfl rfl
  | ended t level h outcome status howns _ _ hend =>
    exact hm.ceased (Nat.le_of_eq (generation_carry m level h).symm) (status_ne_running_of_ending hend) (Or.inr ⟨t, howns, rfl⟩)
  | unbound t h howns _ hl =>
    -- a run that goes on has a level
    obtain ⟨level, hlevel, -⟩ := hm.searching t howns
    rw [hl] at hlevel
    cases hlevel
  | highlighted => exact hm.unchanged rfl _
  | refused | staleBegin | staleCommit | again | notHighlighted => exact hm.unchanged rfl m.highlight

theorem afterCalls (hm : Seeking m past) (calls : List Call) :
    Seeking (m.afterCalls calls) (past ++ m.history calls) :=
  afterCalls_induction (fun _ _ => perform) hm calls

end Seeking

/-! ## Tickets of runs that are over -/

/-- The ticket is not yet to come, and the machine does not listen to it. -/
def Spent (m : Machine) (t : Ticket) : Prop := t.generation ≤ m.generation ∧ ¬m.Owns t

namespace Spent

/-- A ticket is spent where no run goes on. -/
theorem of_status_ne_running (hgeneration : t.generation ≤ m.generation) (hstatus : m.status ≠ .running) :
    m.Spent t :=
  ⟨hgeneration, fun howns => hstatus howns.2⟩

/-- Every call leaves a spent ticket spent. -/
theorem perform (hm : m.Spent t) (c : Call) : (m.perform c).2.Spent t := by
  have htransition := transition_perform m c
  generalize (m.perform c).1 = answer at htransition
  generalize (m.perform c).2 = after at htransition ⊢
  obtain ⟨hgeneration, hnot⟩ := hm
  cases htransition with
  | loaded | reset => exact of_status_ne_running (Nat.le_succ_of_le hgeneration) (by simp [loadLevel])
  | launched program level units =>
    refine ⟨Nat.le_succ_of_le hgeneration, fun howns => ?_⟩
    have hlater : t.generation = m.generation + 1 := howns.1
    omega
  | exhausted => exact of_status_ne_running hgeneration (by simp [finish])
  | committed u level h =>
    rw [Spent, Owns, generation_carry, status_carry]
    exact ⟨hgeneration, hnot⟩
  | ended u level h outcome status _ _ _ hend =>
    refine of_status_ne_running ?_ (status_ne_running_of_ending hend)
    exact Nat.le_trans hgeneration (Nat.le_of_eq (generation_carry m level h).symm)
  | refused | staleBegin | staleCommit | again | highlighted | notHighlighted | unbound =>
    exact ⟨hgeneration, hnot⟩

/-- Nothing is committed with a spent ticket, whatever calls are made. -/
theorem committedWith_history (hm : m.Spent t) (calls : List Call) :
    committedWith t (m.history calls) = [] := by
  induction calls generalizing m with
  | nil => rfl
  | cons c rest ih =>
    rw [history, committedWith_cons, ih (hm.perform c), List.append_nil]
    refine committedWith_singleton_eq_nil fun hcall => ?_
    obtain rfl : c = .commitStep t := hcall
    rw [Machine.perform, commitStep_of_not_owns hm.2]
    rfl

end Spent

/-! ## Both looks -/

/-- While the target has not been found, the robot is on it only if it has never left its start there. -/
theorem Searching.onTarget_iff {steps : List Step} (hm : m.Searching level steps) (hl : m.level = some level) :
    m.OnTarget ↔ level.start = level.target ∧ ∀ step ∈ steps, step.effect.landing? = none := by
  have hposition : m.OnTarget ↔ m.robot.position = level.target := by simp [OnTarget, hl]
  rw [hposition]
  rcases hm with ⟨hnever, hstart⟩ | ⟨⟨step, hstep, hlanded⟩, hoff⟩
  · rw [hstart.1]
    exact ⟨fun htarget => ⟨htarget, hnever⟩, And.left⟩
  · exact ⟨fun htarget => absurd htarget hoff, fun hnever => absurd (hnever.2 step hstep) hlanded⟩

theorem Searching.atStart {steps : List Step} (hm : m.Searching level steps)
    (hnever : ∀ step ∈ steps, step.effect.landing? = none) : m.AtStart level := by
  rcases hm with ⟨-, hstart⟩ | ⟨⟨step, hstep, hlanded⟩, -⟩
  · exact hstart
  · exact absurd (hnever step hstep) hlanded

/-- A run whose units have run out is won if the robot is on the target. -/
theorem beginStep_of_finished {outcome : Outcome} (hfinished : (m.beginStep t).1 = .finished outcome) :
    m.Owns t ∧ outcome = (if m.OnTarget then .won else .notReached) ∧
      (m.beginStep t).2 = m.finish .idle := by
  have htransition := transition_perform m (.beginStep t)
  simp only [Machine.perform, hfinished] at htransition
  generalize (m.beginStep t).2 = after at htransition ⊢
  cases htransition with
  | exhausted _ howns => exact ⟨howns, rfl, rfl⟩

/-- A landing on the target ends the run in its own commit, and the ticket is spent. -/
theorem commitStep_of_landing (hstep : (m.commitStep t).1 = .applied step) :
    ∃ level, m.level = some level ∧ (step.effect.landing? = some level.target →
      step.outcome = some .won ∧ (m.commitStep t).2.status = .complete ∧ (m.commitStep t).2.Spent t) := by
  have htransition := transition_perform m (.commitStep t)
  simp only [Machine.perform, hstep] at htransition
  generalize (m.commitStep t).2 = after at htransition ⊢
  cases htransition with
  | committed _ level h _ _ hl hend =>
    exact ⟨level, hl, fun hland => absurd rfl (ne_target_of_going_on hend hland)⟩
  | ended _ level h outcome status howns _ hl hend =>
    refine ⟨level, hl, fun hland => ?_⟩
    rw [ending_of_landing hland] at hend
    obtain ⟨rfl, rfl⟩ := Prod.mk.inj (Option.some.inj hend)
    refine ⟨rfl, rfl, .of_status_ne_running ?_ Status.noConfusion⟩
    exact Nat.le_of_eq (howns.1.trans (generation_carry m level h).symm)

/-- The two looks at the target agree, whatever calls have been made. A run that is exhausted is won if and
only if its level starts on the target and no unit of the run has landed the robot; then the robot and
everything in the history are at the start, and a run in which the robot has landed anywhere has not reached
the target. A unit that lands the robot on the target ends the run in its own commit, as won and with the level
completed, and no unit of the run is ever committed after it. -/
theorem looks_agree_afterCalls (maxUnits : Nat) (calls : List Call) (t : Ticket) :
    let m := (new maxUnits).afterCalls calls
    let past := (new maxUnits).history calls
    (∀ outcome, (m.beginStep t).1 = .finished outcome → ∃ level, m.level = some level ∧
        (outcome = .won ↔
          level.start = level.target ∧ ∀ step ∈ committedWith t past, step.effect.landing? = none) ∧
        (outcome = .won → ∀ s ∈ (m.beginStep t).2.trace, s.position = level.start) ∧
        ((∃ step ∈ committedWith t past, step.effect.landing? ≠ none) → outcome = .notReached)) ∧
      ∀ step, (m.commitStep t).1 = .applied step → ∃ level, m.level = some level ∧
        (step.effect.landing? = some level.target →
          step.outcome = some .won ∧ (m.commitStep t).2.status = .complete ∧
            ∀ later, committedWith t ((m.commitStep t).2.history later) = []) := by
  intro m past
  have hm : Seeking m past := (Seeking.new maxUnits).afterCalls calls
  constructor
  · intro outcome hfinished
    obtain ⟨howns, houtcome, hafter⟩ := beginStep_of_finished hfinished
    obtain ⟨level, hl, hsearching⟩ := hm.searching t howns
    have hwon : outcome = .won ↔
        level.start = level.target ∧ ∀ step ∈ committedWith t past, step.effect.landing? = none := by
      rw [← hsearching.onTarget_iff hl, houtcome]
      split <;> simp [*]
    refine ⟨level, hl, hwon, fun h => ?_, fun hlanded => ?_⟩
    · rw [hafter]
      exact (hsearching.atStart (hwon.1 h).2).2
    · obtain ⟨step, hstep, hland⟩ := hlanded
      have hoff : ¬m.OnTarget := fun htarget =>
        hland (((hsearching.onTarget_iff hl).1 htarget).2 step hstep)
      rw [houtcome, if_neg hoff]
  · intro step hstep
    obtain ⟨level, hl, hends⟩ := commitStep_of_landing hstep
    refine ⟨level, hl, fun hland => ?_⟩
    obtain ⟨houtcome, hstatus, hspent⟩ := hends hland
    exact ⟨houtcome, hstatus, hspent.committedWith_history⟩

/-- Where the start is the target, a run that only turns is won at its exhaustion, and the machine is idle. -/
example :
    let level : Level := { (default : Level) with size := 1 }
    let m := (new defaultMaxUnits).afterCalls
      [.start (.ofForest (.command () .turnLeft .nil)) (some level), .beginStep ⟨1⟩, .commitStep ⟨1⟩]
    (m.beginStep ⟨1⟩).1 = .finished .won ∧ (m.beginStep ⟨1⟩).2.status = .idle ∧ m.trace.size = 2 := by
  decide

end Machine

end RobotPuzzle
