import RobotPuzzle.Catalog.Shipped
import RobotPuzzle.Program.Edit
import RobotPuzzle.Proofs.Machine.Transition

/-!
# Every run is a first run

A start leaves nothing of earlier runs behind but the generation, and the generation counts for nothing
except against that of a ticket. A machine with a past can therefore not be told from a new one by whoever
starts a run on it and drives it with the ticket of that run.

## Main definitions

- `Machine.Reading` — everything a machine shows
- `Machine.Use`, `Machine.Reply`, `Machine.use` — what the holder of a ticket does, and what comes of it
- `Machine.later`, `Ticket.later` — the same machine and ticket some generations later

## Main statements

- `Machine.use_later` — the generation does not matter to the holder of a ticket
- `Machine.start_afterCalls_like_new` — a run on a machine with a past is like a run on a new one
-/

namespace RobotPuzzle

/-- The ticket some generations later. -/
def Ticket.later (t : Ticket) (k : Nat) : Ticket := ⟨t.generation + k⟩

namespace Machine

/-- Everything a machine shows. -/
structure Reading where
  status : Status
  robot : Robot
  trace : Array Snapshot
  highlighted : Option NodeId
  currentStep : Option Nat
  executed : Nat
  unrolledLength : Nat
  level : Option Level
deriving DecidableEq

/-- Everything the machine shows. -/
def reading (m : Machine) : Reading :=
  ⟨m.status, m.robot, m.trace, m.highlightedId, m.currentStep, m.cursor, m.units.size, m.level⟩

/-- Something the holder of a ticket does. -/
inductive Use
  | beginStep
  | commitStep
  | reset
  | read
deriving DecidableEq, Repr

/-- What comes of it. -/
inductive Reply
  | answered (answer : Answer)
  | shown (reading : Reading)
deriving DecidableEq

/-- The holder of a ticket does something with the machine. -/
def use (m : Machine) (t : Ticket) : Use → Reply × Machine
  | .beginStep => (.answered (m.perform (.beginStep t)).1, (m.perform (.beginStep t)).2)
  | .commitStep => (.answered (m.perform (.commitStep t)).1, (m.perform (.commitStep t)).2)
  | .reset => (.answered (m.perform .reset).1, (m.perform .reset).2)
  | .read => (.shown m.reading, m)

/-- The machine after some uses. -/
def afterUses (m : Machine) (t : Ticket) (uses : List Use) : Machine :=
  uses.foldl (fun n u => (n.use t u).2) m

/-- What comes of some uses. -/
def replies (m : Machine) (t : Ticket) : List Use → List Reply
  | [] => []
  | u :: rest => (m.use t u).1 :: replies (m.use t u).2 t rest

/-- The machine some generations later. -/
def later (m : Machine) (k : Nat) : Machine := { m with generation := m.generation + k }

variable {m n : Machine} {t : Ticket} {k maxUnits : Nat} {level : Level}

/-! ## The generation does not matter -/

theorem owns_later : (m.later k).Owns (t.later k) ↔ m.Owns t := by
  simp [Owns, later, Ticket.later]

theorem onTarget_later : (m.later k).OnTarget ↔ m.OnTarget := Iff.rfl

theorem reset_later : (m.later k).reset = m.reset.later k := by
  have hcount : m.generation + k + 1 = m.generation + 1 + k := Nat.add_right_comm _ _ _
  simp only [reset, later, hcount]
  rfl

theorem move_later (d : Direction) (steps : Int) (action : Option Action) (effect : Cell → Effect) :
    (m.later k).move level d steps action effect =
      ((m.move level d steps action effect).1, (m.move level d steps action effect).2.later k) := by
  by_cases hfree : level.Free (m.robot.position.offset d steps)
  · have hfree' : level.Free ((m.later k).robot.position.offset d steps) := hfree
    simp only [move, if_pos hfree, if_pos hfree']
    rfl
  · have hfree' : ¬ level.Free ((m.later k).robot.position.offset d steps) := hfree
    simp only [move, if_neg hfree, if_neg hfree']
    rfl

theorem carry_later (h : Highlight) :
    (m.later k).carry level h = ((m.carry level h).1, (m.carry level h).2.later k) := by
  unfold carry
  split
  · rfl
  · cases h.beat.kind with
    | forward | back | jump => exact move_later (m := m.takeUp) _ _ _ _
    | turnLeft | turnRight | wait | stop | loop => rfl

theorem beginStep_later :
    (m.later k).beginStep (t.later k) = ((m.beginStep t).1, (m.beginStep t).2.later k) := by
  by_cases howns : m.Owns t
  · have howns' : (m.later k).Owns (t.later k) := owns_later.2 howns
    cases hh : m.highlight with
    | some h =>
      have hh' : (m.later k).highlight = some h := hh
      simp [beginStep, howns, howns', hh, hh']
    | none =>
      have hh' : (m.later k).highlight = none := hh
      cases hbeat : m.units[m.cursor]? with
      | some beat =>
        have hbeat' : (m.later k).units[(m.later k).cursor]? = some beat := hbeat
        simp only [beginStep, howns, howns', hh, hh', hbeat, hbeat', not_true_eq_false, if_false]
        rfl
      | none =>
        have hbeat' : (m.later k).units[(m.later k).cursor]? = none := hbeat
        simp only [beginStep, howns, howns', hh, hh', hbeat, hbeat', not_true_eq_false, if_false,
          onTarget_later]
        rfl
  · rw [beginStep_of_not_owns howns, beginStep_of_not_owns (mt owns_later.1 howns)]

theorem commitStep_later :
    (m.later k).commitStep (t.later k) = ((m.commitStep t).1, (m.commitStep t).2.later k) := by
  by_cases howns : m.Owns t
  · have howns' : (m.later k).Owns (t.later k) := owns_later.2 howns
    cases hh : m.highlight with
    | none =>
      have hh' : (m.later k).highlight = none := hh
      simp [commitStep, howns, howns', hh, hh']
    | some h =>
      cases hl : m.level with
      | none =>
        have hh' : (m.later k).highlight = some h := hh
        have hl' : (m.later k).level = none := hl
        simp only [commitStep, howns, howns', hh, hh', hl, hl', not_true_eq_false, if_false]
        rfl
      | some level =>
        rw [commitStep_of_highlight howns hh hl,
          commitStep_of_highlight (m := m.later k) howns' hh hl, carry_later]
        cases ending level (m.carry level h).1 with
        | none => rfl
        | some result => rfl
  · rw [commitStep_of_not_owns howns, commitStep_of_not_owns (mt owns_later.1 howns)]

/-- The holder of a ticket cannot tell at which generation the machine is. -/
theorem use_later (u : Use) :
    (m.later k).use (t.later k) u = ((m.use t u).1, (m.use t u).2.later k) := by
  cases u with
  | beginStep => simp only [use, perform, beginStep_later]
  | commitStep => simp only [use, perform, commitStep_later]
  | reset => simp only [use, perform, reset_later]
  | read => rfl

theorem afterUses_later (uses : List Use) :
    (m.later k).afterUses (t.later k) uses = (m.afterUses t uses).later k ∧
      (m.later k).replies (t.later k) uses = m.replies t uses := by
  induction uses generalizing m with
  | nil => exact ⟨rfl, rfl⟩
  | cons u rest ih =>
    obtain ⟨hafter, hreplies⟩ := ih (m := (m.use t u).2)
    constructor
    · simpa only [afterUses, List.foldl_cons, use_later] using hafter
    · simp only [replies, use_later, hreplies]

/-! ## A start leaves nothing behind -/

theorem maxUnits_perform (m : Machine) (c : Call) : (m.perform c).2.maxUnits = m.maxUnits := by
  have hcarry : ∀ level h, (m.carry level h).2.maxUnits = m.maxUnits := by
    intro level h
    obtain ⟨robot, trace, he⟩ := exists_carry_eq m level h
    rw [he]
    rfl
  have htransition := transition_perform m c
  generalize (m.perform c).1 = answer at htransition
  generalize (m.perform c).2 = after at htransition ⊢
  cases htransition with
  | committed t level h => exact hcarry level h
  | ended t level h => exact hcarry level h
  | loaded | reset | launched | exhausted | highlighted | unbound => rfl
  | refused | staleBegin | staleCommit | again | notHighlighted => rfl

theorem Reachable.maxUnits_eq (h : Reachable maxUnits m) : m.maxUnits = maxUnits := by
  refine h.induction (P := fun n => n.maxUnits = maxUnits) rfl ?_
  intro n c hn
  rw [maxUnits_perform, hn]

/-- A launch overwrites everything but the generation, which it counts up, and the bound on units. -/
theorem launched_eq_later (hmax : m.maxUnits = maxUnits) (level : Level) (units : List Beat) :
    m.launched level units = ((new maxUnits).launched level units).later m.generation := by
  subst hmax
  have hcount : m.generation + 1 = 0 + 1 + m.generation := by omega
  simp only [launched, later, hcount]
  rfl

/-- Whatever calls have been made, if no run goes on then the machine starts a run exactly if a new one
does. Whoever drives it with the ticket of that run, and whoever reads or resets it meanwhile, meets the
same answers and sees the same as with the new machine; the two differ by the generation the machine had
and by nothing else. -/
theorem start_afterCalls_like_new (maxUnits : Nat) (calls : List Call)
    (hstatus : ((new maxUnits).afterCalls calls).status ≠ .running) (program : Program)
    (level : Option Level) :
    let m := (new maxUnits).afterCalls calls
    ((m.start program level).isSome ↔ ((new maxUnits).start program level).isSome) ∧
      ∀ t n t₀ n₀, m.start program level = some (t, n) →
        (new maxUnits).start program level = some (t₀, n₀) → ∀ uses,
          n.replies t uses = n₀.replies t₀ uses ∧
          (n.afterUses t uses).reading = (n₀.afterUses t₀ uses).reading ∧
          n.afterUses t uses = (n₀.afterUses t₀ uses).later m.generation := by
  intro m
  have hmax : m.maxUnits = maxUnits := Reachable.maxUnits_eq ⟨calls, rfl⟩
  have hidle : (new maxUnits).status ≠ .running := by simp [new]
  constructor
  · simp only [Option.isSome_iff_exists, Prod.exists, start_eq_some_iff, hmax]
    constructor
    · rintro ⟨_, _, l, units, hlevel, hempty, -, hunits, -⟩
      exact ⟨_, _, l, units, hlevel, hempty, hidle, hunits, rfl, rfl⟩
    · rintro ⟨_, _, l, units, hlevel, hempty, -, hunits, -⟩
      exact ⟨_, _, l, units, hlevel, hempty, hstatus, hunits, rfl, rfl⟩
  · intro t n t₀ n₀ hstart hstart₀ uses
    obtain ⟨l, units, hlevel, -, -, hunits, rfl, rfl⟩ := start_eq_some_iff.1 hstart
    obtain ⟨l₀, units₀, hlevel₀, -, -, hunits₀, rfl, rfl⟩ := start_eq_some_iff.1 hstart₀
    obtain rfl : l₀ = l := Option.some.inj (hlevel₀.symm.trans hlevel)
    obtain rfl : units₀ = units := by
      rw [hmax] at hunits
      exact Except.ok.inj (hunits₀.symm.trans hunits)
    -- machine and ticket are those of the new machine, both as many generations later
    have hticket : (⟨m.generation + 1⟩ : Ticket) =
        Ticket.later ⟨(new maxUnits).generation + 1⟩ m.generation := by
      simp only [Ticket.later, new]
      congr 1
      omega
    obtain ⟨hafter, hreplies⟩ := afterUses_later (m := (new maxUnits).launched l₀ units₀)
      (t := ⟨(new maxUnits).generation + 1⟩) (k := m.generation) uses
    rw [launched_eq_later hmax, hticket, hafter, hreplies]
    exact ⟨rfl, rfl, rfl⟩

/-- Two steps. -/
def twoSteps : Program := .ofForest (.command () .forward (.command () .forward .nil))

/-- A client completes the first shipped level in two steps. -/
def completing : List Call :=
  [.start twoSteps Catalog.shipped.levels.head?, .beginStep ⟨1⟩, .commitStep ⟨1⟩, .beginStep ⟨1⟩,
    .commitStep ⟨1⟩]

/-- A second run of the two steps, on the machine that has completed the level with them, goes like the
first. -/
theorem start_afterCalls_like_new_completed :
    ((new 2).afterCalls completing).status = .complete ∧
      ∃ t n t₀ n₀,
        ((new 2).afterCalls completing).start twoSteps Catalog.shipped.levels.head? = some (t, n) ∧
        (new 2).start twoSteps Catalog.shipped.levels.head? = some (t₀, n₀) ∧
        ∀ uses, n.replies t uses = n₀.replies t₀ uses := by
  have hcomplete : ((new 2).afterCalls completing).status = .complete := by decide
  have hlike := start_afterCalls_like_new 2 completing (by rw [hcomplete]; decide) twoSteps
    Catalog.shipped.levels.head?
  have hstart₀ : ((new 2).start twoSteps Catalog.shipped.levels.head?).isSome := by decide
  obtain ⟨⟨t, n⟩, hstart⟩ := Option.isSome_iff_exists.1 (hlike.1.2 hstart₀)
  obtain ⟨⟨t₀, n₀⟩, hstart₀⟩ := Option.isSome_iff_exists.1 hstart₀
  refine ⟨hcomplete, t, n, t₀, n₀, hstart, hstart₀, ?_⟩
  intro uses
  exact (hlike.2 t n t₀ n₀ hstart hstart₀ uses).1

end Machine

end RobotPuzzle
