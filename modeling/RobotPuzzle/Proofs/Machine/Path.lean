import Mathlib.Data.List.Chain
import RobotPuzzle.Board.Validity
import RobotPuzzle.Proofs.Machine.Transition

/-!
# The history is a path

The machine keeps a history of snapshots, and clients may bind levels, start, reset and step it in any
order. Whatever they do, the history is that of one run on the bound level: it begins where the level
places the robot, every snapshot shows what the robot may do after the one before, and the last one shows
the robot as it stands. A call takes such a history one snapshot further, begins another or drops it.

## Main definitions

- `Snapshot.robot` — the robot a snapshot shows
- `Level.IsPath` — a history that a robot can have on a level
- `Machine.OnPath` — the history of the machine is a path of the bound level up to where the robot is
- `Machine.Traced` — the history is empty while no run goes on, or such a path

## Main statements

- `Level.IsPath.free_of_valid` — a path of a valid level is on free cells only
- `Machine.Traced.perform` — no call leaves the path
- `Machine.isPath_afterCalls` — after every history of calls the trace is a path, or empty without a run
-/

namespace RobotPuzzle

/-- The robot a snapshot shows. -/
def Snapshot.robot (s : Snapshot) : Robot := ⟨s.position, s.rotation⟩

@[simp] theorem Robot.robot_snapshot (robot : Robot) (action : Option Action) :
    (robot.snapshot action).robot = robot := rfl

/-! ## Paths of a level -/

/-- A history that a robot can have on a level: it begins with the robot as the level places it, and
every snapshot shows what the robot may do after the one before. -/
structure Level.IsPath (level : Level) (history : List Snapshot) : Prop where
  head : history.head? = some ((Robot.initial level).snapshot none)
  steps : history.IsChain fun s t => s.robot.Leads level t

namespace Level.IsPath

variable {level : Level} {history : List Snapshot} {s t : Snapshot}

theorem initial (level : Level) : level.IsPath [(Robot.initial level).snapshot none] :=
  ⟨rfl, List.isChain_singleton _⟩

/-- A path goes on with what the robot may do after its last snapshot. -/
theorem concat (h : level.IsPath history) (hlast : history.getLast? = some s)
    (hleads : s.robot.Leads level t) : level.IsPath (history ++ [t]) := by
  constructor
  · rw [List.head?_append, h.head, Option.some_or]
  · rw [List.isChain_append]
    refine ⟨h.steps, List.isChain_singleton t, ?_⟩
    intro x hx y hy
    obtain rfl : s = x := Option.some.inj (hlast.symm.trans hx)
    obtain rfl : t = y := by simpa using hy
    exact hleads

/-- What holds at the start of a level and is kept by everything a robot may do holds all along. -/
theorem induction {P : Robot → Prop} (h : level.IsPath history) (hinitial : P (.initial level))
    (hleads : ∀ robot s, Robot.Leads level robot s → P robot → P s.robot) :
    ∀ s ∈ history, P s.robot := by
  refine h.steps.induction (fun s => P s.robot) history (fun s t hst hs => hleads s.robot t hst hs) ?_
  intro hne
  have hhead := h.head
  rw [List.head?_eq_some_head hne, Option.some.injEq] at hhead
  rwa [hhead]

/-- Rotations are multiples of a quarter turn. -/
theorem dvd_rotation (h : level.IsPath history) : ∀ s ∈ history, 90 ∣ s.rotation := by
  refine h.induction (P := fun robot => 90 ∣ robot.rotation) ?_ ?_
  · exact level.facing.dvd_degrees
  · intro robot s hleads hrobot
    cases hleads with
    | turned degrees hquarter =>
      have hdegrees : 90 ∣ degrees := by omega
      exact Int.dvd_add hrobot hdegrees
    | waited | stepped | jumped => exact hrobot

/-- The robot of a valid level is on free cells all along. -/
theorem free_of_valid (h : level.IsPath history) (hvalid : level.Valid) :
    ∀ s ∈ history, level.Free s.position := by
  refine h.induction (P := fun robot => level.Free robot.position) hvalid.start_free ?_
  intro robot s hleads hrobot
  cases hleads with
  | turned | waited => exact hrobot
  | stepped steps hstep hfree => exact hfree
  | jumped hfree => exact hfree

end Level.IsPath

/-! ## The machine on its path -/

namespace Machine

variable {m : Machine} {level : Level}

/-- The history of the machine is a path of the bound level, and its last snapshot shows the robot. -/
structure OnPath (level : Level) (m : Machine) : Prop where
  level_eq : m.level = some level
  path : level.IsPath m.trace.toList
  last : m.trace.back?.map Snapshot.robot = some m.robot

namespace OnPath

theorem launched (m : Machine) (level : Level) (units : List Beat) :
    (m.launched level units).OnPath level :=
  ⟨rfl, .initial level, rfl⟩

/-- Level, history and robot are all there is to it. -/
theorem congr {n : Machine} (h : m.OnPath level) (hlevel : n.level = m.level)
    (htrace : n.trace = m.trace) (hrobot : n.robot = m.robot) : n.OnPath level := by
  obtain ⟨hl, hpath, hlast⟩ := h
  exact ⟨hlevel.trans hl, htrace ▸ hpath, by rw [htrace, hrobot, hlast]⟩

/-- The history goes on with what the robot may do next. -/
theorem record (h : m.OnPath level) {robot : Robot} {action : Option Action}
    (hleads : m.robot.Leads level (robot.snapshot action)) : (m.record robot action).OnPath level := by
  obtain ⟨s, hs, hrobot⟩ := Option.map_eq_some_iff.1 h.last
  refine ⟨h.level_eq, ?_, ?_⟩
  · rw [Machine.record, Array.toList_push]
    rw [← hrobot] at hleads
    exact h.path.concat (by rw [Array.getLast?_toList, hs]) hleads
  · rw [Machine.record, Array.back?_push, Option.map_some, Robot.robot_snapshot]

theorem carry (h : m.OnPath level) (hl : Highlight) : (m.carry level hl).2.OnPath level := by
  have htaken : m.takeUp.OnPath level := h.congr rfl rfl rfl
  rcases carry_cases m level hl with hsame | ⟨robot, action, hrecord, hleads⟩
  · rwa [hsame]
  · rw [hrecord]
    exact htaken.record hleads

end OnPath

/-- The history is empty and no run goes on, or it is a path of the bound level. -/
def Traced (m : Machine) : Prop :=
  (m.trace = #[] ∧ m.status ≠ .running) ∨ ∃ level, m.OnPath level

namespace Traced

/-- A run that goes on has a history. -/
theorem onPath (h : m.Traced) (hrunning : m.status = .running) (hlevel : m.level = some level) :
    m.OnPath level := by
  rcases h with ⟨-, hidle⟩ | ⟨bound, hpath⟩
  · exact absurd hrunning hidle
  · obtain rfl : bound = level := Option.some.inj (hpath.level_eq.symm.trans hlevel)
    exact hpath

/-- A call that leaves level, history and robot alone and starts no run. -/
theorem congr {n : Machine} (h : m.Traced) (hlevel : n.level = m.level) (htrace : n.trace = m.trace)
    (hrobot : n.robot = m.robot) (hstatus : n.status = .running → m.status = .running) : n.Traced := by
  rcases h with ⟨hempty, hidle⟩ | ⟨level, hpath⟩
  · exact Or.inl ⟨htrace.trans hempty, mt hstatus hidle⟩
  · exact Or.inr ⟨level, hpath.congr hlevel htrace hrobot⟩

theorem new (maxUnits : Nat) : (new maxUnits).Traced := Or.inl ⟨rfl, by simp [Machine.new]⟩

/-- No call leaves the path. -/
theorem perform (h : m.Traced) (c : Call) : (m.perform c).2.Traced := by
  have htransition := transition_perform m c
  generalize (m.perform c).1 = answer at htransition
  generalize (m.perform c).2 = after at htransition ⊢
  cases htransition with
  | loaded level => exact Or.inl ⟨rfl, by simp [loadLevel]⟩
  | reset => exact Or.inl ⟨rfl, by simp⟩
  | launched program level units => exact Or.inr ⟨level, .launched m level units⟩
  | exhausted t => exact h.congr rfl rfl rfl (by simp [finish])
  | committed t level u howns _ hl => exact Or.inr ⟨level, (h.onPath howns.2 hl).carry u⟩
  | ended t level u outcome status howns _ hl =>
    have hcarried := (h.onPath howns.2 hl).carry u
    exact Or.inr ⟨level, hcarried.congr rfl rfl rfl⟩
  | unbound | refused | staleBegin | staleCommit | again | highlighted | notHighlighted =>
    exact h.congr rfl rfl rfl id

end Traced

theorem Reachable.traced {maxUnits : Nat} (h : Reachable maxUnits m) : m.Traced :=
  h.induction (P := Traced) (.new maxUnits) fun _ c hm => hm.perform c

/-- Whatever calls have been made, the trace is a path of the bound level, whether the level is valid or
not, or it is empty and no run goes on. The last snapshot of a path shows the robot, all rotations are
multiples of a quarter turn, and on a level without faults every snapshot is on a free cell. -/
theorem isPath_afterCalls (maxUnits : Nat) (calls : List Call) :
    let m := (new maxUnits).afterCalls calls
    (m.trace = #[] ∧ m.status ≠ .running) ∨ ∃ level, m.level = some level ∧ level.IsPath m.trace.toList ∧
      m.trace.back?.map Snapshot.robot = some m.robot ∧
      (∀ s ∈ m.trace, 90 ∣ s.rotation) ∧
      (level.faults = [] → ∀ s ∈ m.trace, level.Free s.position) := by
  intro m
  have htraced : m.Traced := Reachable.traced ⟨calls, rfl⟩
  refine htraced.imp id ?_
  rintro ⟨level, hlevel, hpath, hlast⟩
  refine ⟨level, hlevel, hpath, hlast, ?_, ?_⟩
  · exact fun s hs => hpath.dvd_rotation s (Array.mem_toList_iff.2 hs)
  · intro hfaults s hs
    exact hpath.free_of_valid (level.faults_eq_nil_iff.1 hfaults) s (Array.mem_toList_iff.2 hs)

end Machine

end RobotPuzzle
