import RobotPuzzle.Machine.Basic

/-!
# Calls as data

Everything a client can ask of the machine, as a value, with what the machine answers. A history of a
machine is a list of calls, made by any number of clients with any tickets.

## Main definitions

- `Machine.Call`, `Machine.Answer`, `Machine.perform` — a call, its answer, and carrying it out
- `Machine.afterCalls` — the machine after a list of calls
- `Machine.Reachable` — the machines a history leads to
- `Machine.drive` — take a run on, unit by unit
-/

namespace RobotPuzzle

namespace Machine

/-- Something a client asks of the machine. -/
inductive Call
  | loadLevel (level : Level)
  | start (program : Program) (level : Option Level)
  | reset
  | beginStep (ticket : Ticket)
  | commitStep (ticket : Ticket)
deriving DecidableEq

/-- What the machine answers. -/
inductive Answer
  | done
  /-- The ticket of a run that was started, none if it was not. -/
  | started (ticket : Option Ticket)
  | began (answer : Begin)
  | committed (answer : Commit)
deriving DecidableEq, Repr

/-- Carry out a call. -/
def perform (m : Machine) : Call → Answer × Machine
  | .loadLevel level => (.done, m.loadLevel level)
  | .start program level =>
    match m.start program level with
    | some (ticket, next) => (.started (some ticket), next)
    | none => (.started none, m)
  | .reset => (.done, m.reset)
  | .beginStep ticket =>
    let (answer, next) := m.beginStep ticket
    (.began answer, next)
  | .commitStep ticket =>
    let (answer, next) := m.commitStep ticket
    (.committed answer, next)

/-- The machine after a list of calls. -/
def afterCalls (m : Machine) (calls : List Call) : Machine :=
  calls.foldl (fun n c => (n.perform c).2) m

/-- The answers to a list of calls. -/
def answers (m : Machine) : List Call → List Answer
  | [] => []
  | c :: rest => (m.perform c).1 :: answers (m.perform c).2 rest

/-- The machine can be reached from a new one with this bound on units. -/
def Reachable (maxUnits : Nat) (m : Machine) : Prop :=
  ∃ calls, m = (new maxUnits).afterCalls calls

theorem reachable_new (maxUnits : Nat) : Reachable maxUnits (new maxUnits) := ⟨[], rfl⟩

theorem Reachable.perform {maxUnits : Nat} {m : Machine} (h : Reachable maxUnits m) (c : Call) :
    Reachable maxUnits (m.perform c).2 := by
  obtain ⟨calls, rfl⟩ := h
  exact ⟨calls ++ [c], by simp [afterCalls]⟩

/-- A property of a new machine that every call keeps holds of every reachable machine. -/
theorem Reachable.induction {maxUnits : Nat} {P : Machine → Prop} (hnew : P (new maxUnits))
    (hstep : ∀ (m : Machine) (c : Call), P m → P (m.perform c).2) {m : Machine}
    (h : Reachable maxUnits m) : P m := by
  obtain ⟨calls, rfl⟩ := h
  unfold afterCalls
  suffices ∀ n, P n → P (calls.foldl (fun n (c : Call) => (n.perform c).2) n) from this _ hnew
  induction calls with
  | nil => exact fun n hn => hn
  | cons c rest ih => exact fun n hn => ih _ (hstep n c hn)

/-- Take a run on by at most `steps` units, each highlighted and committed, and list what the machine
answers. The list ends with the first answer other than a commit that leaves the run going on; the
highlights before commits are left out. -/
def drive (m : Machine) (ticket : Ticket) : Nat → List Answer × Machine
  | 0 => ([], m)
  | steps + 1 =>
    match m.beginStep ticket with
    | (.highlighted _, m₁) =>
      match m₁.commitStep ticket with
      | (.applied step, m₂) =>
        if step.outcome.isSome then ([.committed (.applied step)], m₂)
        else
          let (rest, m₃) := drive m₂ ticket steps
          (.committed (.applied step) :: rest, m₃)
      | (answer, m₂) => ([.committed answer], m₂)
    | (answer, m₁) => ([.began answer], m₁)

end Machine

end RobotPuzzle
