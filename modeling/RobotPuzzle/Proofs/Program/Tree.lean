import RobotPuzzle.Program.Unrolling

/-!
# One tree behind all walks

Walking over a program, unrolling it and measuring its unrolled length are three recursions over
sequences of ids. Each is a reading of the tree under the sequence, cut off at the same depth, so what
is shown of the tree holds of all of them.

## Main statements

- `Program.labels_forestFrom` — the ids met by a walk
- `Program.unroll_forestFrom` — the units of a sequence
- `Program.unrolledLength_forestFrom` — the length of a sequence, up to the ceiling
-/

namespace RobotPuzzle

namespace Program

theorem forestFrom_succ_cons (p : Program) (depth : Nat) (id : NodeId) (ids : List NodeId) :
    p.forestFrom (depth + 1) (id :: ids) =
      match p.get? id with
      | none => p.forestFrom (depth + 1) ids
      | some ⟨_, _, .command c⟩ => .command id c (p.forestFrom (depth + 1) ids)
      | some ⟨_, _, .loop count body⟩ =>
        .loop id count (p.forestFrom depth body) (p.forestFrom (depth + 1) ids) := rfl

/-- The ids a walk meets are the labels of the tree. -/
theorem labels_forestFrom (p : Program) (depth : Nat) (ids : List NodeId) :
    (p.forestFrom depth ids).labels = p.walkFrom depth ids := by
  induction depth generalizing ids with
  | zero => rfl
  | succ depth ihd =>
    induction ids with
    | nil => rfl
    | cons id ids ih =>
      rw [forestFrom_succ_cons]
      simp only [walkFrom, List.flatMap_cons] at ih ⊢
      cases hget : p.get? id with
      | none => simpa using ih
      | some node =>
        obtain ⟨nodeId, nodeParent, op⟩ := node
        cases op with
        | command c =>
          cases depth <;> simp [Forest.labels, ih, Op.body, walkFrom]
        | loop count body => simp [Forest.labels, ih, ihd, Op.body]

/-- The units of a sequence are those of the tree. -/
theorem unroll_forestFrom (p : Program) (depth : Nat) (ids : List NodeId) :
    (p.forestFrom depth ids).unroll = p.unrollFrom depth ids := by
  induction depth generalizing ids with
  | zero => rfl
  | succ depth ihd =>
    induction ids with
    | nil => rfl
    | cons id ids ih =>
      rw [forestFrom_succ_cons]
      simp only [unrollFrom, List.flatMap_cons] at ih ⊢
      cases hget : p.get? id with
      | none => simpa using ih
      | some node =>
        obtain ⟨nodeId, nodeParent, op⟩ := node
        cases op with
        | command c => simp [Forest.unroll, ih]
        | loop count body => simp [Forest.unroll, ih, ihd]

/-- Saturating sums over a list, with the part that is summed already. -/
private theorem unrolledLength_foldl (p : Program) (depth total : Nat) (ids : List NodeId)
    (ihd : ∀ body, min (p.forestFrom depth body).unrolledLength lengthCeiling =
      p.unrolledLengthFrom depth body) :
    ids.foldl (fun total id =>
      match p.get? id with
      | none => total
      | some ⟨_, _, .command _⟩ => saturatingAdd total 1
      | some ⟨_, _, .loop count body⟩ =>
        saturatingAdd total
          (saturatingAdd 1 (saturatingMul (p.unrolledLengthFrom depth body) count)))
      (min total lengthCeiling) =
      min (total + (p.forestFrom (depth + 1) ids).unrolledLength) lengthCeiling := by
  -- the sum so far is cut off at the ceiling, which the next saturating operation does not notice
  induction ids generalizing total with
  | nil => rfl
  | cons id ids ih =>
    rw [forestFrom_succ_cons, List.foldl_cons]
    cases hget : p.get? id with
    | none => exact ih total
    | some node =>
      obtain ⟨nodeId, nodeParent, op⟩ := node
      cases op with
      | command c =>
        simp only [Forest.unrolledLength]
        rw [saturatingAdd_min, saturatingAdd, ih, Nat.add_assoc]
      | loop count body =>
        simp only [Forest.unrolledLength]
        rw [saturatingAdd_min, ← ihd, saturatingMul_min]
        have hsum : saturatingAdd total
            (saturatingAdd 1 (saturatingMul (p.forestFrom depth body).unrolledLength count)) =
            min (total + (1 + count * (p.forestFrom depth body).unrolledLength)) lengthCeiling := by
          unfold saturatingAdd saturatingMul
          rw [Nat.mul_comm count]
          omega
        rw [hsum, ih, Nat.add_assoc]

/-- The length of a sequence is that of the tree, up to the ceiling. -/
theorem unrolledLength_forestFrom (p : Program) (depth : Nat) (ids : List NodeId) :
    min (p.forestFrom depth ids).unrolledLength lengthCeiling = p.unrolledLengthFrom depth ids := by
  induction depth generalizing ids with
  | zero => rfl
  | succ depth ihd =>
    have h := unrolledLength_foldl p depth 0 ids ihd
    rw [Nat.zero_add, Nat.zero_min] at h
    exact h.symm

end Program

end RobotPuzzle
