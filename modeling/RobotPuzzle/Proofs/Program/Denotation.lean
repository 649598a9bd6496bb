import RobotPuzzle.Proofs.Program.WellFormed

/-!
# The tree a program denotes

The walks over a program are cut off at a depth. The tree of a program can be told without one: every
id stands for its node, and a loop for itself and the tree under its body, however deep that goes. A
well-formed program has exactly one such tree. It is the one its walks go through, so unrolling a program
is unrolling its tree, and the length computed without unrolling is the length of that, up to the
ceiling.

## Main definitions

- `Program.op?` — what a live node does
- `Program.unitsFrom` — the units of one instruction
- `Program.IsTree` — the tree under a sequence of ids, with no bound on its depth

## Main statements

- `Program.WellFormed.isTree_iff` — a well-formed program has one tree
- `Program.unroll_afterEdits` — the units and the length of every authored program
-/

namespace RobotPuzzle

/-- Every unit comes from an instruction of the tree. -/
theorem Forest.id_mem_labels {f : Forest NodeId} {b : Beat} (hb : b ∈ f.unroll) : b.id ∈ f.labels := by
  induction f with
  | nil => cases hb
  | command id c rest ih =>
    rcases List.mem_cons.1 hb with rfl | hb
    · exact List.mem_cons_self
    · exact List.mem_cons_of_mem _ (ih hb)
  | loop id count body rest ihbody ihrest =>
    rcases List.mem_cons.1 hb with rfl | hb
    · exact List.mem_cons_self
    · refine List.mem_cons_of_mem _ (List.mem_append.2 ?_)
      rcases List.mem_append.1 hb with hb | hb
      · obtain ⟨units, hunits, hb⟩ := List.mem_flatten.1 hb
        rw [List.eq_of_mem_replicate hunits] at hb
        exact Or.inl (ihbody hb)
      · exact Or.inr (ihrest hb)

namespace Program

variable {p q : Program} {id top : NodeId} {parent : Option NodeId} {ids others : List NodeId}
  {f g : Forest NodeId} {depth : Nat}

/-- What a live node does. -/
def op? (p : Program) (id : NodeId) : Option Op := (p.get? id).map (·.op)

/-- The tree under a sequence of ids: every id is live, a command stands for itself, and a loop for
itself and the tree under its body. -/
inductive IsTree (p : Program) : List NodeId → Forest NodeId → Prop
  | nil : IsTree p [] .nil
  | command {id : NodeId} {c : Command} {ids : List NodeId} {rest : Forest NodeId}
    (hop : p.op? id = some (.command c)) (hrest : IsTree p ids rest) :
    IsTree p (id :: ids) (.command id c rest)
  | loop {id : NodeId} {count : Nat} {body ids : List NodeId} {inner rest : Forest NodeId}
    (hop : p.op? id = some (.loop count body)) (hbody : IsTree p body inner)
    (hrest : IsTree p ids rest) : IsTree p (id :: ids) (.loop id count inner rest)

/-! ## What a node does -/

theorem loopBody?_eq_bind_op? (p : Program) (id : NodeId) : p.loopBody? id = (p.op? id).bind Op.body? := by
  rw [loopBody?_eq_bind, op?, Option.bind_map]
  rfl

theorem op?_eq_loop_iff {count : Nat} {body : List NodeId} :
    p.op? id = some (.loop count body) ↔ p.count? id = some count ∧ p.loopBody? id = some body := by
  rw [op?, count?, loopBody?_eq_bind]
  cases p.get? id with
  | none => simp
  | some node => cases hop : node.op <;> simp [hop, Op.count?, Op.body?]

theorem op?_eq_none_iff : p.op? id = none ↔ p.kind? id = none := by
  rw [op?, kind?, Option.map_eq_none_iff, Option.map_eq_none_iff]

theorem op?_eq_command_iff {c : Command} : p.op? id = some (.command c) ↔ p.kind? id = some c.kind := by
  rw [op?, kind?]
  cases p.get? id with
  | none => simp
  | some node =>
    cases hop : node.op with
    | command d => simp [hop, Op.kind, Command.kind_inj]
    | loop count body => simp [hop, Op.kind, c.kind_ne_loop.symm]

/-- The tree of a sequence goes by what its first node does. -/
theorem forestFrom_succ_cons_op? (p : Program) (depth : Nat) (id : NodeId) (ids : List NodeId) :
    p.forestFrom (depth + 1) (id :: ids) =
      match p.op? id with
      | none => p.forestFrom (depth + 1) ids
      | some (.command c) => .command id c (p.forestFrom (depth + 1) ids)
      | some (.loop count body) =>
        .loop id count (p.forestFrom depth body) (p.forestFrom (depth + 1) ids) := by
  rw [forestFrom_succ_cons, op?]
  cases p.get? id with
  | none => rfl
  | some node =>
    obtain ⟨nodeId, nodeParent, op⟩ := node
    cases op <;> rfl

/-- The units of one instruction, with at most `depth` levels of its body. -/
def unitsFrom (p : Program) (depth : Nat) (id : NodeId) : List Beat :=
  match p.op? id with
  | none => []
  | some (.command c) => [.ofCommand id c]
  | some (.loop count body) => .ofLoop id :: (List.replicate count (p.unrollFrom depth body)).flatten

/-- A sequence is unrolled instruction by instruction. -/
theorem unrollFrom_succ (p : Program) (depth : Nat) (ids : List NodeId) :
    p.unrollFrom (depth + 1) ids = ids.flatMap (p.unitsFrom depth) := by
  refine List.flatMap_congr fun id _ => ?_
  rw [unitsFrom, op?]
  cases p.get? id with
  | none => rfl
  | some node =>
    obtain ⟨nodeId, nodeParent, op⟩ := node
    cases op with
    | command c => rfl
    | loop count body => simp

/-- What an instruction unrolls to comes from instructions it encloses. -/
theorem encloses_of_mem_unitsFrom {b : Beat} (hb : b ∈ p.unitsFrom depth id) : p.Encloses id b.id := by
  have hwalk : b.id ∈ p.walkFrom (depth + 1) [id] := by
    rw [← labels_forestFrom]
    apply Forest.id_mem_labels
    rw [unroll_forestFrom, unrollFrom_succ, List.flatMap_singleton]
    exact hb
  obtain ⟨i, hi, -, hencloses⟩ := encloses_of_mem_walkFrom hwalk
  rwa [← List.mem_singleton.1 hi]

/-! ## One tree at most -/

namespace IsTree

/-- A walk that goes deep enough finds the whole tree. -/
theorem forestFrom_eq (h : p.IsTree ids f) (hdepth : f.size ≤ depth) : p.forestFrom depth ids = f := by
  induction h generalizing depth with
  | nil => cases depth <;> rfl
  | command hop hrest ih =>
    cases depth with
    | zero => simp [Forest.size] at hdepth
    | succ depth =>
      rw [Forest.size] at hdepth
      rw [forestFrom_succ_cons_op?, hop]
      simp only [ih (Nat.le_of_succ_le hdepth)]
  | loop hop hbody hrest ihbody ihrest =>
    cases depth with
    | zero => simp [Forest.size] at hdepth
    | succ depth =>
      rw [Forest.size] at hdepth
      rw [forestFrom_succ_cons_op?, hop]
      simp only [ihbody (show _ ≤ depth by omega), ihrest (show _ ≤ depth + 1 by omega)]

theorem unique (hf : p.IsTree ids f) (hg : p.IsTree ids g) : f = g := by
  rw [← hf.forestFrom_eq (Nat.le_max_left f.size g.size), hg.forestFrom_eq (Nat.le_max_right _ _)]

/-- A tree is still there if its own nodes do what they did. -/
theorem of_op? (h : p.IsTree ids f) (hop : ∀ i ∈ f.labels, q.op? i = p.op? i) : q.IsTree ids f := by
  induction h with
  | nil => exact .nil
  | command hid _ ih =>
    simp only [Forest.labels, List.forall_mem_cons] at hop
    exact .command (hop.1.trans hid) (ih hop.2)
  | loop hid _ _ ihbody ihrest =>
    simp only [Forest.labels, List.forall_mem_cons, List.forall_mem_append] at hop
    exact .loop (hop.1.trans hid) (ihbody hop.2.1) (ihrest hop.2.2)

end IsTree

/-! ## The tree of a well-formed program -/

namespace WellFormed

/-- A walk over live ids from an id on finds a tree, if it goes at least as deep as there are nodes. -/
theorem isTree_forestFrom_of_above (h : p.WellFormed) (hlive : ∀ i ∈ ids, (p.get? i).isSome)
    (hle : ∀ i ∈ ids, top ≤ i) (hdepth : p.above top ≤ depth) : p.IsTree ids (p.forestFrom depth ids) := by
  -- a body begins after its loop, so fewer nodes are left for it to hold
  induction depth generalizing top ids with
  | zero =>
    cases ids with
    | nil => exact .nil
    | cons id ids =>
      have hdead := get?_eq_none_of_above (Nat.le_zero.1 hdepth) (hle id List.mem_cons_self)
      have hid := hlive id List.mem_cons_self
      simp [hdead] at hid
  | succ depth ihd =>
    induction ids with
    | nil => exact .nil
    | cons id ids ih =>
      have hrest := ih (fun i hi => hlive i (List.mem_cons_of_mem _ hi))
        fun i hi => hle i (List.mem_cons_of_mem _ hi)
      obtain ⟨node, hget⟩ := Option.isSome_iff_exists.1 (hlive id List.mem_cons_self)
      have hop : p.op? id = some node.op := by rw [op?, hget, Option.map_some]
      rw [forestFrom_succ_cons_op?]
      cases hnode : node.op with
      | command c =>
        rw [hnode] at hop
        simp only [hop]
        exact .command hop hrest
      | loop count body =>
        rw [hnode] at hop
        simp only [hop]
        have hlt := above_succ_lt hget (hle id List.mem_cons_self)
        have hbody : p.sequence? (some id) = some body := (op?_eq_loop_iff.1 hop).2
        have hafter : ∀ i ∈ body, id + 1 ≤ i := by
          intro i hi
          exact h.lt_of_parent? ((h.mem_sequence_iff_parent? hbody).1 hi)
        exact .loop hop
          (ihd (fun i hi => h.isSome_of_mem_sequence hbody hi) hafter (by omega)) hrest

/-- Every sequence of a well-formed program has a tree. -/
theorem isTree_forestFrom (h : p.WellFormed) (hids : p.sequence? parent = some ids) :
    p.IsTree ids (p.forestFrom p.nodeCount ids) :=
  h.isTree_forestFrom_of_above (fun _ hi => h.isSome_of_mem_sequence hids hi)
    (fun _ _ => Nat.zero_le _) (p.above_le_nodeCount 0)

theorem isTree_forest (h : p.WellFormed) : p.IsTree p.roots p.forest :=
  h.isTree_forestFrom (sequence?_none p)

/-- The tree holds every node. -/
theorem size_forest (h : p.WellFormed) : p.forest.size = p.nodeCount := by
  rw [← Forest.length_labels, forest, labels_forestFrom]
  exact h.isForest.nodeCount_eq.symm

/-- A well-formed program has one tree. -/
theorem isTree_iff (h : p.WellFormed) : p.IsTree p.roots f ↔ f = p.forest := by
  constructor
  · exact fun hf => hf.unique h.isTree_forest
  · rintro rfl
    exact h.isTree_forest

end WellFormed

/-! ## Its units -/

theorem unroll_eq_unroll_forest (p : Program) : p.unroll = p.forest.unroll :=
  (unroll_forestFrom p p.nodeCount p.roots).symm

/-- A program that is not empty has units. -/
theorem WellFormed.unroll_ne_nil (h : p.WellFormed) (hempty : p.isEmpty = false) : p.unroll ≠ [] := by
  have htree := h.isTree_forest
  rw [unroll_eq_unroll_forest]
  rw [isEmpty, List.isEmpty_eq_false_iff] at hempty
  generalize p.roots = ids, p.forest = f at htree hempty ⊢
  cases htree with
  | nil => exact absurd rfl hempty
  | command | loop => exact List.cons_ne_nil _ _

/-- An empty program has none. -/
theorem unroll_of_isEmpty (hempty : p.isEmpty = true) : p.unroll = [] := by
  rw [isEmpty, List.isEmpty_iff] at hempty
  rw [unroll, hempty]
  cases p.nodeCount <;> rfl

theorem unrolledLength_eq_min (p : Program) :
    p.unrolledLength = min p.forest.unroll.length lengthCeiling := by
  rw [Forest.length_unroll]
  exact (unrolledLength_forestFrom p p.nodeCount p.roots).symm

/-- A program is unrolled in full if its units, counted up to the ceiling, are within the limit. -/
theorem unrollWithin_eq (p : Program) (limit : Nat) :
    p.unrollWithin limit =
      if limit < min p.forest.unroll.length lengthCeiling then
        .error ⟨min p.forest.unroll.length lengthCeiling, limit⟩
      else .ok p.forest.unroll := by
  rw [unrollWithin, unrolledLength_eq_min, unroll_eq_unroll_forest]

/-- Whatever operations build a program, it has one tree; its units are the units of the tree, and its
length is their number, up to the ceiling. -/
theorem unroll_afterEdits (edits : List Edit) :
    let p := empty.afterEdits edits
    (∀ f, p.IsTree p.roots f ↔ f = p.forest) ∧
      p.unroll = p.forest.unroll ∧
      p.unrolledLength = min p.forest.unroll.length lengthCeiling := by
  intro p
  have hp : p.WellFormed := Authored.wellFormed ⟨edits, rfl⟩
  exact ⟨fun _ => hp.isTree_iff, p.unroll_eq_unroll_forest, p.unrolledLength_eq_min⟩

end Program

end RobotPuzzle
