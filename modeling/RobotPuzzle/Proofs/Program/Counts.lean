import Mathlib.Data.List.Induction
import RobotPuzzle.Proofs.Program.Removal
import RobotPuzzle.Proofs.Program.Reordering

/-!
# Where repeat counts come from

A loop has the repeat count of the last edit that gave it one. No edit makes a count up: it leaves the counts
it finds, or gives one of its own, at least 1. A bound on the counts of the edits is a bound on the counts of
the program, and of its tree.

## Main definitions

- `Edit.count?` — the repeat count that comes with an edit

## Main statements

- `Program.WellFormed.count?_perform` — the counts after an edit
- `Program.count?_afterEdits_le` — a bound on every count of an authored program
- `Program.IsTree.exists_count?` — the counts of a tree are those of its loops
-/

namespace RobotPuzzle

/-- The repeat count that comes with an edit. -/
def Edit.count? : Edit → Option Nat
  | .appendLoop count _ => some count
  | .setCount _ count => some count
  | .append _ _ | .remove _ | .clear | .reorder _ _ _ => none

namespace Program

variable {p q : Program} {id : NodeId} {ids : List NodeId} {n : Nat}

/-! ## One edit -/

theorem WellFormed.count?_insert (h : p.WellFormed) {kind : Kind} {count : Nat} {parent : Option NodeId}
    {new : NodeId} (hinsert : p.insert (.ofKind kind count) parent = some (new, q))
    (hn : q.count? id = some n) : p.count? id = some n ∨ n = max count 1 := by
  obtain ⟨-, ids, -, rfl⟩ := insert_eq_some_iff.1 hinsert
  rw [count?_grow h.get?_nextId] at hn
  split at hn
  · exact Or.inr (Op.count?_ofKind hn)
  · exact Or.inl hn

/-- A count after an edit was there before, or the edit brings it: the count it comes with, raised to 1, or
the one of a loop made without any. -/
theorem WellFormed.count?_perform (h : p.WellFormed) (e : Edit) (hn : (e.perform p).2.count? id = some n) :
    p.count? id = some n ∨ n = defaultCount ∨ ∃ count, e.count? = some count ∧ n = max count 1 := by
  revert hn
  cases e with
  | append kind parent =>
    refine Edit.ofAddition_induction (P := fun q => q.count? id = some n → _) Or.inl fun _ q hq hn => ?_
    exact (h.count?_insert hq hn).imp_right Or.inl
  | appendLoop count parent =>
    refine Edit.ofAddition_induction (P := fun q => q.count? id = some n → _) Or.inl fun _ q hq hn => ?_
    exact (h.count?_insert hq hn).imp_right fun hnew => Or.inr ⟨count, rfl, hnew⟩
  | remove removed =>
    refine Edit.ofChange_induction (P := fun q => q.count? id = some n → _) Or.inl fun q hq hn => ?_
    rw [count?_of_remove hq, Option.ite_none_left_eq_some] at hn
    exact Or.inl hn.2
  | clear =>
    intro hn
    cases hn
  | reorder parent source dest =>
    refine Edit.ofChange_induction (P := fun q => q.count? id = some n → _) Or.inl fun q hq hn => ?_
    exact Or.inl (count?_of_reorder hq ▸ hn)
  | setCount changed count =>
    refine Edit.ofChange_induction (P := fun q => q.count? id = some n → _) Or.inl fun q hq hn => ?_
    obtain ⟨body, -, rfl⟩ := setCount_eq_some_iff.1 hq
    exact (count?_recount hn).imp_right fun hnew => Or.inr ⟨count, rfl, hnew⟩

/-! ## Every authored program -/

/-- No count of an authored program is larger than those of its edits and the one of a loop made without. -/
theorem count?_afterEdits_le {edits : List Edit} {bound : Nat} (hdefault : defaultCount ≤ bound)
    (hedits : ∀ e ∈ edits, ∀ count, e.count? = some count → count ≤ bound)
    (hn : (empty.afterEdits edits).count? id = some n) : n ≤ bound := by
  induction edits using List.reverseRecOn generalizing id n with
  | nil => cases hn
  | append_singleton edits e ih =>
    rw [List.forall_mem_append, List.forall_mem_singleton] at hedits
    have hafter : empty.afterEdits (edits ++ [e]) = (e.perform (empty.afterEdits edits)).2 := by
      simp [afterEdits]
    have hone : 1 ≤ bound := Nat.le_trans (by decide) hdefault
    have hp : (empty.afterEdits edits).WellFormed := Authored.wellFormed ⟨edits, rfl⟩
    rw [hafter] at hn
    rcases hp.count?_perform e hn with hold | rfl | ⟨count, hcount, rfl⟩
    · exact ih hedits.1 hold
    · exact hdefault
    · exact Nat.max_le.2 ⟨hedits.2 count hcount, hone⟩

/-- The counts of a tree are those of its loops. -/
theorem IsTree.exists_count? {f : Forest NodeId} (h : p.IsTree ids f) (hn : n ∈ f.counts) :
    ∃ id, p.count? id = some n := by
  induction h with
  | nil => cases hn
  | command hop hrest ih => exact ih hn
  | loop hop hbody hrest ihbody ihrest =>
    rw [Forest.counts, List.mem_cons, List.mem_append] at hn
    rcases hn with rfl | hn | hn
    · exact ⟨_, (op?_eq_loop_iff.1 hop).1⟩
    · exact ihbody hn
    · exact ihrest hn

end Program

end RobotPuzzle
