import RobotPuzzle.Catalog.Shipped
import RobotPuzzle.Proofs.Machine.FreshStart
import RobotPuzzle.Proofs.Program.Denotation

/-!
# Limits on the number of units

A program is refused if its length is beyond a limit. The length stops at the ceiling, so it is the number
of units only below it, and what that does to the comparison is seen at one limit alone: a limit under the
ceiling is kept for every program, and the ceiling itself as a limit refuses nothing, so that a longer
program is unrolled under it.

## Main definitions

- `Program.Respects` — an answer about the units of a program keeps to a limit

## Main statements

- `Program.respects_unrollWithin_iff` — the limits that are kept
- `Machine.Reachable.size_units_le` — no run has more units than the machine allows
- `Program.unrollWithin_afterEdits` — the same for authored programs and the runs they start
-/

namespace RobotPuzzle

namespace Program

variable {p : Program} {limit : Nat} {units : List Beat}

/-- What is answered about the units of a program keeps to a limit: it is all of them if they are within
the limit, and a refusal if they are not. -/
def Respects (p : Program) (limit : Nat) : Except TooLong (List Beat) → Prop
  | .ok units => units = p.forest.unroll ∧ units.length ≤ limit
  | .error _ => limit < p.forest.unroll.length

/-- Below the ceiling the length that stops there is as good as the number of units. -/
theorem unrollWithin_of_lt_ceiling (p : Program) (hlimit : limit < lengthCeiling) :
    p.unrollWithin limit =
      if p.forest.unroll.length ≤ limit then .ok p.forest.unroll
      else .error ⟨min p.forest.unroll.length lengthCeiling, limit⟩ := by
  rw [unrollWithin_eq]
  by_cases hfits : p.forest.unroll.length ≤ limit
  · have hmin : ¬ limit < min p.forest.unroll.length lengthCeiling := by omega
    rw [if_neg hmin, if_pos hfits]
  · have hmin : limit < min p.forest.unroll.length lengthCeiling := by omega
    rw [if_pos hmin, if_neg hfits]

/-- From the ceiling on nothing is refused, since no length is beyond it. -/
theorem unrollWithin_of_ceiling_le (p : Program) (hlimit : lengthCeiling ≤ limit) :
    p.unrollWithin limit = .ok p.forest.unroll := by
  have hmin : ¬ limit < min p.forest.unroll.length lengthCeiling := by omega
  rw [unrollWithin_eq, if_neg hmin]

/-- A limit is kept exactly if it is under the ceiling or the units are within it anyway. -/
theorem respects_unrollWithin_iff :
    p.Respects limit (p.unrollWithin limit) ↔ limit < lengthCeiling ∨ p.forest.unroll.length ≤ limit := by
  rcases Nat.lt_or_ge limit lengthCeiling with hlimit | hlimit
  · refine iff_of_true ?_ (Or.inl hlimit)
    rw [unrollWithin_of_lt_ceiling p hlimit]
    by_cases hfits : p.forest.unroll.length ≤ limit
    · rw [if_pos hfits]
      exact ⟨rfl, hfits⟩
    · rw [if_neg hfits]
      exact Nat.lt_of_not_le hfits
  · rw [unrollWithin_of_ceiling_le p hlimit, or_iff_right (Nat.not_lt.2 hlimit)]
    exact and_iff_right rfl

theorem length_le_of_unrollWithin (hlimit : limit < lengthCeiling) (h : p.unrollWithin limit = .ok units) :
    units.length ≤ limit := by
  have hrespects := respects_unrollWithin_iff.2 (Or.inl hlimit : _ ∨ p.forest.unroll.length ≤ limit)
  rw [h] at hrespects
  exact hrespects.2

end Program

namespace Machine

variable {m : Machine} {maxUnits : Nat}

/-- A call leaves the units, drops them, or brings in those of a program that is not refused. -/
theorem size_units_perform_le (hmax : m.maxUnits < lengthCeiling) (hm : m.units.size ≤ m.maxUnits)
    (c : Call) : (m.perform c).2.units.size ≤ m.maxUnits := by
  have htransition := transition_perform m c
  generalize (m.perform c).1 = answer at htransition
  generalize (m.perform c).2 = after at htransition ⊢
  cases htransition with
  | loaded | reset => exact Nat.zero_le _
  | launched program level units _ _ hunits => exact Program.length_le_of_unrollWithin hmax hunits
  | committed t level h => rwa [units_carry]
  | ended t level h => exact (congrArg Array.size (units_carry m level h)).trans_le hm
  | refused | staleBegin | staleCommit | again | highlighted | exhausted | notHighlighted | unbound =>
    exact hm

/-- No run of a machine has more units than it allows, if it allows fewer than the ceiling. -/
theorem Reachable.size_units_le (h : Reachable maxUnits m) (hmax : maxUnits < lengthCeiling) :
    m.units.size ≤ maxUnits := by
  have hboth : m.maxUnits = maxUnits ∧ m.units.size ≤ maxUnits := by
    refine h.induction (P := fun n => n.maxUnits = maxUnits ∧ n.units.size ≤ maxUnits)
      ⟨rfl, Nat.zero_le _⟩ ?_
    rintro n c ⟨rfl, hn⟩
    exact ⟨maxUnits_perform n c, size_units_perform_le hmax hn c⟩
  exact hboth.2

end Machine

namespace Program

/-- Whatever operations build a program, a limit on its units is kept exactly if it is under the ceiling
or the tree of the program has no more units anyway. A limit under the ceiling tells the programs apart by
their true number of units; from the ceiling on none is refused. A machine with that limit, whatever calls
it has had, starts the program with all its units, and no run of it has more units than the limit unless
the limit is the ceiling. -/
theorem unrollWithin_afterEdits (edits : List Edit) (limit : Nat) :
    let p := empty.afterEdits edits
    ∃ f, p.IsTree p.roots f ∧ p.forest = f ∧
      (p.Respects limit (p.unrollWithin limit) ↔ limit < lengthCeiling ∨ f.unroll.length ≤ limit) ∧
      (limit < lengthCeiling →
        p.unrollWithin limit =
          if f.unroll.length ≤ limit then .ok f.unroll
          else .error ⟨min f.unroll.length lengthCeiling, limit⟩) ∧
      (lengthCeiling ≤ limit → p.unrollWithin limit = .ok f.unroll) ∧
      ∀ calls, let m := (Machine.new limit).afterCalls calls
        (limit < lengthCeiling → m.units.size ≤ limit) ∧
        ∀ level t n, m.start p level = some (t, n) →
          n.units.toList = f.unroll ∧
            (n.units.size ≤ limit ↔ limit < lengthCeiling ∨ f.unroll.length ≤ limit) := by
  intro p
  have hp : p.WellFormed := Authored.wellFormed ⟨edits, rfl⟩
  refine ⟨p.forest, hp.isTree_forest, rfl, respects_unrollWithin_iff, unrollWithin_of_lt_ceiling p,
    unrollWithin_of_ceiling_le p, ?_⟩
  intro calls m
  have hm : m.Reachable limit := ⟨calls, rfl⟩
  refine ⟨hm.size_units_le, ?_⟩
  intro level t n hstart
  obtain ⟨l, units, -, -, -, hunits, -, rfl⟩ := Machine.start_eq_some_iff.1 hstart
  rw [hm.maxUnits_eq] at hunits
  obtain rfl : units = p.forest.unroll := by
    rw [eq_unroll_of_unrollWithin hunits, unroll_eq_unroll_forest]
  have hrespects := @respects_unrollWithin_iff p limit
  rw [hunits] at hrespects
  exact ⟨rfl, (and_iff_right rfl).symm.trans hrespects⟩

/-- Three loops of 2^32 - 1 rounds around a step. -/
def towering : List Edit :=
  [.appendLoop 4294967295 none, .appendLoop 4294967295 (some 0), .appendLoop 4294967295 (some 1),
    .append .forward (some 2)]

/-- With the ceiling as the limit nothing keeps the towering program from being unrolled, nor a machine
that allows so many units from starting it. -/
theorem unrollWithin_towering :
    let p := empty.afterEdits towering
    lengthCeiling < p.forest.unroll.length ∧ p.unrollWithin lengthCeiling = .ok p.forest.unroll ∧
      ¬ p.Respects lengthCeiling (p.unrollWithin lengthCeiling) ∧
      ∃ level t n, (Machine.new lengthCeiling).start p level = some (t, n) ∧
        lengthCeiling < n.units.size := by
  intro p
  have hlong : lengthCeiling < p.forest.unroll.length := by
    rw [Forest.length_unroll]
    decide
  have hunits := unrollWithin_of_ceiling_le p (Nat.le_refl lengthCeiling)
  refine ⟨hlong, hunits, ?_, Catalog.shipped.levels.head?, ?_⟩
  · rw [respects_unrollWithin_iff]
    omega
  · refine ⟨_, _, Machine.start_eq_some_iff.2 ⟨_, _, rfl, rfl, nofun, hunits, rfl, rfl⟩, ?_⟩
    exact hlong

end Program

end RobotPuzzle
