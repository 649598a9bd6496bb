import Mathlib.Logic.Relation
import RobotPuzzle.Proofs.Program.Lookup
import RobotPuzzle.Proofs.Program.Tree

/-!
# Nesting

Walks over a program go down level by level and are cut off at a depth. In a well-formed program ids
grow from a loop to what stands in it, so nesting is never deeper than there are nodes: a walk to that
depth is a walk to the end, and it meets exactly what is enclosed by the ids it begins with.

## Main definitions

- `Program.Holds`, `Program.Encloses` — an instruction stands in a loop, directly or at any depth
- `Program.above` — the number of nodes from an id on, which bounds the depth below it

## Main statements

- `Program.WellFormed.forestFrom_eq` — at the depth of a well-formed program nothing is cut off
- `Program.WellFormed.mem_walkFrom_iff` — what a walk meets
- `Program.WellFormed.walk_perm` — a walk from the top level meets every node once
-/

namespace RobotPuzzle

namespace Program

variable {p : Program} {id top : NodeId} {parent : Option NodeId} {ids : List NodeId} {node : Node}

/-- The instruction stands in the body of the loop. -/
def Holds (p : Program) (loopId id : NodeId) : Prop := id ∈ p.children loopId

/-- The instruction is the other one, or stands in it at any depth. -/
def Encloses (p : Program) : NodeId → NodeId → Prop := Relation.ReflTransGen p.Holds

/-- The number of nodes from an id on. -/
def above (p : Program) (id : NodeId) : Nat := p.nodes.countP (id ≤ ·.id)

/-! ## Sequences, parents and nodes -/

namespace WellFormed

theorem get?_of_mem (h : p.WellFormed) (hnode : node ∈ p.nodes) : p.get? node.id = some node :=
  get?_of_mem_of_nodup h.ids_nodup hnode

theorem mem_sequence_iff_parent? (h : p.WellFormed) (hids : p.sequence? parent = some ids) :
    id ∈ ids ↔ p.parent? id = some parent := by
  rw [h.mem_sequence_iff parent ids hids id, parent?_eq_some_iff]

theorem isSome_of_parent? (h : p.WellFormed) (hparent : p.parent? id = some parent) :
    (p.sequence? parent).isSome := by
  obtain ⟨node, hget, rfl⟩ := parent?_eq_some_iff.1 hparent
  exact h.parent_live node (mem_of_get? hget)

theorem lt_of_parent? (h : p.WellFormed) {loopId : NodeId}
    (hparent : p.parent? id = some (some loopId)) : loopId < id := by
  obtain ⟨node, hget, hloop⟩ := parent?_eq_some_iff.1 hparent
  have hlt := h.parent_lt node (mem_of_get? hget) loopId hloop
  rwa [id_of_get? hget] at hlt

theorem isSome_of_mem_sequence (h : p.WellFormed) (hids : p.sequence? parent = some ids)
    (hid : id ∈ ids) : (p.get? id).isSome :=
  isSome_of_parent?_eq_some ((h.mem_sequence_iff_parent? hids).1 hid)

/-- What stands in a loop is what names it as its parent. -/
theorem holds_iff (h : p.WellFormed) {loopId : NodeId} :
    p.Holds loopId id ↔ p.parent? id = some (some loopId) := by
  unfold Holds children
  constructor
  · intro hid
    cases hbody : p.loopBody? loopId with
    | none => simp [hbody] at hid
    | some ids =>
      have hids : p.sequence? (some loopId) = some ids := hbody
      rw [hbody, Option.getD_some] at hid
      exact (h.mem_sequence_iff_parent? hids).1 hid
  · intro hparent
    obtain ⟨ids, hids⟩ := Option.isSome_iff_exists.1 (h.isSome_of_parent? hparent)
    have hbody : p.loopBody? loopId = some ids := hids
    rw [hbody, Option.getD_some]
    exact (h.mem_sequence_iff_parent? hids).2 hparent

theorem isSome_of_holds (h : p.WellFormed) {loopId : NodeId} (hholds : p.Holds loopId id) :
    (p.get? id).isSome :=
  isSome_of_parent?_eq_some (h.holds_iff.1 hholds)

theorem lt_of_holds (h : p.WellFormed) {loopId : NodeId} (hholds : p.Holds loopId id) :
    loopId < id :=
  h.lt_of_parent? (h.holds_iff.1 hholds)

theorem le_of_encloses (h : p.WellFormed) (hencloses : p.Encloses top id) : top ≤ id := by
  induction hencloses with
  | refl => exact Nat.le_refl _
  | tail _ hholds ih => exact Nat.le_trans ih (Nat.le_of_lt (h.lt_of_holds hholds))

theorem isSome_of_encloses (h : p.WellFormed) (htop : (p.get? top).isSome)
    (hencloses : p.Encloses top id) : (p.get? id).isSome := by
  cases hencloses with
  | refl => exact htop
  | tail _ hholds => exact h.isSome_of_holds hholds

/-- An instruction stands in one loop at most. -/
theorem holds_unique (h : p.WellFormed) {loopId other : NodeId} (hholds : p.Holds loopId id)
    (hother : p.Holds other id) : loopId = other :=
  Option.some.inj (Option.some.inj ((h.holds_iff.1 hholds).symm.trans (h.holds_iff.1 hother)))

/-- No instruction stands in itself at any depth. -/
theorem wellFounded_holds (h : p.WellFormed) :
    WellFounded fun id loopId => p.Holds loopId id := by
  -- ids grow on the way down, and no live id reaches the next one
  refine Subrelation.wf ?_ (measure fun id : NodeId => p.nextId - id).wf
  intro id loopId hholds
  obtain ⟨node, hget⟩ := Option.isSome_iff_exists.1 (h.isSome_of_holds hholds)
  have hlt := h.lt_of_holds hholds
  have hnext := h.ids_lt node (mem_of_get? hget)
  rw [id_of_get? hget] at hnext
  exact Nat.sub_lt_sub_left (Nat.lt_trans hlt hnext) hlt

end WellFormed

/-! ## Depth -/

theorem get?_eq_none_of_above (habove : p.above top = 0) (hle : top ≤ id) : p.get? id = none := by
  cases hget : p.get? id with
  | none => rfl
  | some node =>
    rw [above, List.countP_eq_zero] at habove
    have hnot := habove node (mem_of_get? hget)
    rw [id_of_get? hget] at hnot
    exact absurd hle (by simpa using hnot)

/-- Below a live id there are fewer nodes than from the id on. -/
theorem above_succ_lt (hget : p.get? id = some node) (hle : top ≤ id) :
    p.above (id + 1) < p.above top := by
  -- the nodes from `top` on are those after the id, and the id itself among the others
  have hsplit := List.countP_eq_countP_filter_add p.nodes (top ≤ ·.id) (id + 1 ≤ ·.id)
  have hafter : (p.nodes.filter (id + 1 ≤ ·.id)).countP (top ≤ ·.id) = p.above (id + 1) := by
    rw [List.countP_filter, above]
    refine List.countP_congr fun x _ => ?_
    simp only [Bool.and_eq_true, decide_eq_true_eq, and_iff_right_iff_imp]
    exact fun hx => Nat.le_trans hle (Nat.le_of_succ_le hx)
  have hnode : 0 < (p.nodes.filter fun x => !decide (id + 1 ≤ x.id)).countP (top ≤ ·.id) := by
    rw [List.countP_pos_iff]
    refine ⟨node, List.mem_filter.2 ⟨mem_of_get? hget, ?_⟩, ?_⟩
    · simp [id_of_get? hget]
    · simpa [id_of_get? hget] using hle
  rw [hafter] at hsplit
  calc p.above (id + 1) < p.above (id + 1) + _ := Nat.lt_add_of_pos_right hnode
    _ = p.above top := hsplit.symm

theorem above_le_nodeCount (p : Program) (id : NodeId) : p.above id ≤ p.nodeCount :=
  List.countP_le_length

theorem forestFrom_of_dead (depth : Nat) (hdead : ∀ id ∈ ids, p.get? id = none) :
    p.forestFrom depth ids = .nil := by
  cases depth with
  | zero => rfl
  | succ depth =>
    induction ids with
    | nil => rfl
    | cons id ids ih =>
      rw [forestFrom_succ_cons, hdead id List.mem_cons_self]
      exact ih fun i hi => hdead i (List.mem_cons_of_mem _ hi)

namespace WellFormed

/-- Trees of sequences from an id on are the same at all depths at which nothing is cut off. -/
theorem forestFrom_congr_depth (h : p.WellFormed) {depth depth' : Nat} (hle : ∀ i ∈ ids, top ≤ i)
    (hdepth : p.above top ≤ depth) (hdepth' : p.above top ≤ depth') :
    p.forestFrom depth ids = p.forestFrom depth' ids := by
  -- on both depths at once; a body begins after its loop, so fewer nodes are left for it to hold
  induction depth generalizing top depth' ids with
  | zero =>
    have hdead : ∀ i ∈ ids, p.get? i = none := fun i hi =>
      get?_eq_none_of_above (Nat.le_zero.1 hdepth) (hle i hi)
    rw [forestFrom_of_dead 0 hdead, forestFrom_of_dead depth' hdead]
  | succ depth ihd =>
    cases depth' with
    | zero =>
      have hdead : ∀ i ∈ ids, p.get? i = none := fun i hi =>
        get?_eq_none_of_above (Nat.le_zero.1 hdepth') (hle i hi)
      rw [forestFrom_of_dead _ hdead, forestFrom_of_dead _ hdead]
    | succ depth' =>
      induction ids with
      | nil => rfl
      | cons id ids ih =>
        have hrest := ih fun i hi => hle i (List.mem_cons_of_mem _ hi)
        rw [forestFrom_succ_cons, forestFrom_succ_cons, hrest]
        cases hget : p.get? id with
        | none => rfl
        | some node =>
          obtain ⟨nodeId, nodeParent, op⟩ := node
          cases op with
          | command c => rfl
          | loop count body =>
            have hlt := above_succ_lt hget (hle id List.mem_cons_self)
            have hbody : ∀ i ∈ body, id + 1 ≤ i := by
              intro i hi
              refine h.lt_of_holds ?_
              rwa [Holds, children_of_get? hget]
            have hsame : p.forestFrom depth body = p.forestFrom depth' body :=
              ihd hbody (by omega) (by omega)
            simp only [hsame]

/-- At the depth of a well-formed program no tree is cut off. -/
theorem forestFrom_eq (h : p.WellFormed) {depth : Nat} (hdepth : p.nodeCount ≤ depth)
    (ids : List NodeId) : p.forestFrom depth ids = p.forestFrom p.nodeCount ids :=
  h.forestFrom_congr_depth (fun _ _ => Nat.zero_le _)
    (Nat.le_trans (p.above_le_nodeCount 0) hdepth) (p.above_le_nodeCount 0)

end WellFormed

/-! ## What a walk meets -/

theorem mem_walkFrom_succ {depth : Nat} {x : NodeId} :
    x ∈ p.walkFrom (depth + 1) ids ↔ ∃ i ∈ ids, ∃ node, p.get? i = some node ∧
      (x = i ∨ x ∈ p.walkFrom depth node.op.body) := by
  simp only [walkFrom, List.mem_flatMap]
  refine exists_congr fun i => and_congr_right fun _ => ?_
  cases p.get? i with
  | none => simp
  | some node => simp

theorem walkFrom_succ_eq_flatMap (p : Program) (depth : Nat) (ids : List NodeId) :
    p.walkFrom (depth + 1) ids = ids.flatMap fun id => p.walkFrom (depth + 1) [id] := by
  simp [walkFrom]

theorem walkFrom_succ_singleton {depth : Nat} (hget : p.get? id = some node) :
    p.walkFrom (depth + 1) [id] = id :: p.walkFrom depth node.op.body := by
  simp [walkFrom, hget]

/-- What a walk meets is enclosed by a live id it begins with. -/
theorem encloses_of_mem_walkFrom {depth : Nat} {x : NodeId} (hx : x ∈ p.walkFrom depth ids) :
    ∃ i ∈ ids, (p.get? i).isSome ∧ p.Encloses i x := by
  induction depth generalizing ids with
  | zero => simp [walkFrom] at hx
  | succ depth ih =>
    obtain ⟨i, hi, node, hget, rfl | hbody⟩ := mem_walkFrom_succ.1 hx
    · exact ⟨x, hi, by simp [hget], .refl⟩
    · obtain ⟨j, hj, -, hencloses⟩ := ih hbody
      have hholds : p.Holds i j := by rwa [Holds, children_of_get? hget]
      exact ⟨i, hi, by simp [hget], .head hholds hencloses⟩

namespace WellFormed

private theorem mem_walkFrom_of_encloses (h : p.WellFormed) {depth : Nat} {x : NodeId}
    (hle : ∀ i ∈ ids, top ≤ i) (hdepth : p.above top ≤ depth) (hid : id ∈ ids)
    (hlive : (p.get? id).isSome) (hencloses : p.Encloses id x) : x ∈ p.walkFrom depth ids := by
  -- each level down the chain of loops uses up the id it leaves, so the depth lasts to its end
  induction depth generalizing top ids id with
  | zero =>
    have hdead := get?_eq_none_of_above (Nat.le_zero.1 hdepth) (hle id hid)
    simp [hdead] at hlive
  | succ depth ih =>
    obtain ⟨node, hget⟩ := Option.isSome_iff_exists.1 hlive
    refine mem_walkFrom_succ.2 ⟨id, hid, node, hget, ?_⟩
    rcases hencloses.cases_head with rfl | ⟨j, hholds, hrest⟩
    · exact Or.inl rfl
    · right
      have hlt := above_succ_lt hget (hle id hid)
      have hbody : ∀ i ∈ node.op.body, id + 1 ≤ i := by
        intro i hi
        refine h.lt_of_holds ?_
        rwa [Holds, children_of_get? hget]
      have hj : j ∈ node.op.body := by rwa [Holds, children_of_get? hget] at hholds
      exact ih hbody (by omega) hj (h.isSome_of_holds hholds) hrest

/-- At the depth of a well-formed program a walk meets exactly what its live ids enclose. -/
theorem mem_walkFrom_iff (h : p.WellFormed) {x : NodeId} :
    x ∈ p.walkFrom p.nodeCount ids ↔ ∃ i ∈ ids, (p.get? i).isSome ∧ p.Encloses i x := by
  refine ⟨encloses_of_mem_walkFrom, ?_⟩
  rintro ⟨i, hi, hlive, hencloses⟩
  exact h.mem_walkFrom_of_encloses (fun _ _ => Nat.zero_le _) (p.above_le_nodeCount 0) hi hlive hencloses

/-- Every live instruction is enclosed by one on the top level. -/
theorem exists_root_encloses (h : p.WellFormed) (hlive : (p.get? id).isSome) :
    ∃ root ∈ p.roots, (p.get? root).isSome ∧ p.Encloses root id := by
  induction id using Nat.strong_induction_on with
  | _ id ih =>
    obtain ⟨parent, hparent⟩ : ∃ parent, p.parent? id = some parent := by
      rwa [← Option.isSome_iff_exists, parent?, Option.isSome_map]
    cases parent with
    | none =>
      have hroot : id ∈ p.roots := (h.mem_sequence_iff_parent? (sequence?_none p)).2 hparent
      exact ⟨id, hroot, hlive, .refl⟩
    | some loopId =>
      have hholds : p.Holds loopId id := h.holds_iff.2 hparent
      obtain ⟨body, hbody⟩ := Option.isSome_iff_exists.1 (h.isSome_of_parent? hparent)
      obtain ⟨loopNode, count, hgetLoop, -⟩ := loopBody?_eq_some_iff.1 hbody
      obtain ⟨root, hroot, hrootLive, hencloses⟩ :=
        ih loopId (h.lt_of_holds hholds) (by simp [hgetLoop])
      exact ⟨root, hroot, hrootLive, hencloses.tail hholds⟩

theorem mem_walk_iff (h : p.WellFormed) : id ∈ p.walk ↔ (p.get? id).isSome := by
  rw [walk, h.mem_walkFrom_iff]
  constructor
  · rintro ⟨root, -, hlive, hencloses⟩
    exact h.isSome_of_encloses hlive hencloses
  · intro hlive
    exact h.exists_root_encloses hlive

/-- Two instructions of one sequence enclose nothing in common. -/
theorem eq_of_encloses (h : p.WellFormed) (hids : p.sequence? parent = some ids) {i j x : NodeId}
    (hi : i ∈ ids) (hj : j ∈ ids) (hix : p.Encloses i x) (hjx : p.Encloses j x) : i = j := by
  -- one of the two encloses the other, as every instruction stands in one loop at most
  have hcomparable : p.Encloses i j ∨ p.Encloses j i := by
    have hunique : Relator.RightUnique (Function.swap p.Holds) :=
      fun _ _ _ hb hc => h.holds_unique hb hc
    have htotal := Relation.ReflTransGen.total_of_right_unique hunique
      (Relation.reflTransGen_swap.2 hix) (Relation.reflTransGen_swap.2 hjx)
    rcases htotal with hji | hij
    · exact Or.inr (Relation.reflTransGen_swap.1 hji)
    · exact Or.inl (Relation.reflTransGen_swap.1 hij)
  have hsame : ∀ a b, a ∈ ids → b ∈ ids → p.Encloses a b → a = b := by
    intro a b ha hb hab
    rcases hab.cases_tail with rfl | ⟨loopId, haLoop, hholds⟩
    · rfl
    · -- the loop that holds `b` holds `a` as well, and is enclosed by `a`
      have hloop : parent = some loopId :=
        Option.some.inj (((h.mem_sequence_iff_parent? hids).1 hb).symm.trans (h.holds_iff.1 hholds))
      have ha' : p.parent? a = some (some loopId) := hloop ▸ (h.mem_sequence_iff_parent? hids).1 ha
      have hlt := h.lt_of_parent? ha'
      exact absurd (h.le_of_encloses haLoop) (Nat.not_le.2 hlt)
  rcases hcomparable with hij | hji
  · exact hsame i j hi hj hij
  · exact (hsame j i hj hi hji).symm

/-- A walk from a sequence meets nothing twice. -/
theorem nodup_walkFrom (h : p.WellFormed) (depth : Nat) (hids : p.sequence? parent = some ids) :
    (p.walkFrom depth ids).Nodup := by
  induction depth generalizing parent ids with
  | zero => exact List.nodup_nil
  | succ depth ih =>
    rw [walkFrom_succ_eq_flatMap, List.nodup_flatMap]
    constructor
    · intro i hi
      obtain ⟨node, hget⟩ := Option.isSome_iff_exists.1 (h.isSome_of_mem_sequence hids hi)
      rw [walkFrom_succ_singleton hget, List.nodup_cons]
      constructor
      · intro hmem
        obtain ⟨j, hj, -, hencloses⟩ := encloses_of_mem_walkFrom hmem
        have hholds : p.Holds i j := by rwa [Holds, children_of_get? hget]
        exact absurd (h.le_of_encloses hencloses) (Nat.not_le.2 (h.lt_of_holds hholds))
      · cases hop : node.op with
        | command c => cases depth <;> simp [Op.body, walkFrom]
        | loop count body =>
          have hbody : p.sequence? (some i) = some body :=
            loopBody?_eq_some_iff.2 ⟨node, count, hget, hop⟩
          exact ih hbody
    · refine (h.sequence_nodup parent ids hids).imp_of_mem ?_
      intro i j hi hj hne x hxi hxj
      obtain ⟨i', hi', -, hix⟩ := encloses_of_mem_walkFrom hxi
      obtain ⟨j', hj', -, hjx⟩ := encloses_of_mem_walkFrom hxj
      obtain rfl := List.mem_singleton.1 hi'
      obtain rfl := List.mem_singleton.1 hj'
      exact hne (h.eq_of_encloses hids hi hj hix hjx)

/-- A walk from the top level meets every node once. -/
theorem walk_perm (h : p.WellFormed) : p.walk.Perm (p.nodes.map (·.id)) := by
  have hnodup : p.walk.Nodup := h.nodup_walkFrom p.nodeCount (sequence?_none p)
  rw [List.perm_ext_iff_of_nodup hnodup h.ids_nodup]
  intro id
  rw [h.mem_walk_iff, List.mem_map, get?, List.find?_isSome]
  simp

end WellFormed

end Program

end RobotPuzzle
