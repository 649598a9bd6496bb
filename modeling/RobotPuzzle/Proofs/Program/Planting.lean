import RobotPuzzle.Proofs.Program.Denotation

/-!
# Planting a tree

A tree is made a program by adding its instructions one by one, each loop before its body. Every addition
leaves the instructions that are there already alone, apart from the one sequence it adds to, so what has
been planted stays. The program of a tree is then the tree itself, with its instructions numbered in the
order in which they are written.

## Main definitions

- `Forest.numberFrom` — a tree with its instructions numbered in order
- `Program.Extends` — a program with more instructions under one parent
- `Program.Planted` — a program with a tree at the end of one sequence, and nothing else changed

## Main statements

- `Forest.map_eq_numberFrom` — relabelling a tree by numbers that count up is numbering it
- `Program.planted_plant` — what is planted is found again
- `Program.forest_ofForest`, `Program.labels_ofForest` — the tree of the program of a tree, and its ids
-/

namespace RobotPuzzle

/-! ## Numbered trees -/

namespace Forest

variable {α β : Type}

/-- The tree with its instructions numbered from `n` on, in the order in which they are written. -/
def numberFrom : Forest α → Nat → Forest Nat
  | nil, _ => nil
  | command _ c rest, n => command n c (rest.numberFrom (n + 1))
  | loop _ count body rest, n =>
    loop n count (body.numberFrom (n + 1)) (rest.numberFrom (n + 1 + body.size))

theorem numberFrom_command (a : α) (c : Command) (rest : Forest α) (n : Nat) :
    (command a c rest).numberFrom n = command n c (rest.numberFrom (n + 1)) := rfl

theorem numberFrom_loop (a : α) (count : Nat) (body rest : Forest α) (n : Nat) :
    (loop a count body rest).numberFrom n =
      loop n count (body.numberFrom (n + 1)) (rest.numberFrom (n + 1 + body.size)) := rfl

theorem labels_numberFrom (f : Forest α) (n : Nat) :
    (f.numberFrom n).labels = List.range' n f.size := by
  induction f generalizing n with
  | nil => rfl
  | command a c rest ih => rw [numberFrom_command, labels, ih, size, List.range'_succ]
  | loop a count body rest ihbody ihrest =>
    rw [numberFrom_loop, labels, ihbody, ihrest, size, List.range'_succ, List.range'_append_1]

@[simp] theorem size_numberFrom (f : Forest α) (n : Nat) : (f.numberFrom n).size = f.size := by
  rw [← length_labels, labels_numberFrom, List.length_range']

@[simp] theorem counts_numberFrom (f : Forest α) (n : Nat) : (f.numberFrom n).counts = f.counts := by
  induction f generalizing n with
  | nil => rfl
  | command a c rest ih => rw [numberFrom_command, counts, counts, ih]
  | loop a count body rest ihbody ihrest => rw [numberFrom_loop, counts, counts, ihbody, ihrest]

/-- Numbering forgets the labels. -/
theorem numberFrom_map (φ : α → β) (f : Forest α) (n : Nat) :
    (f.map φ).numberFrom n = f.numberFrom n := by
  induction f generalizing n with
  | nil => rfl
  | command a c rest ih => rw [map_command, numberFrom_command, numberFrom_command, ih]
  | loop a count body rest ihbody ihrest =>
    rw [map_loop, numberFrom_loop, numberFrom_loop, ihbody, ihrest, size_map]

theorem shape_numberFrom (f : Forest α) (n : Nat) : (f.numberFrom n).shape = f.shape := by
  induction f generalizing n with
  | nil => rfl
  | command a c rest ih =>
    simp only [shape] at ih
    simp only [shape, numberFrom_command, map_command, ih]
  | loop a count body rest ihbody ihrest =>
    simp only [shape] at ihbody ihrest
    simp only [shape, numberFrom_loop, map_loop, ihbody, ihrest]

theorem shape_eq_self (f : Forest Unit) : f.shape = f := by
  induction f with
  | nil => rfl
  | command a c rest ih => exact congrArg (command a c) ih
  | loop a count body rest ihbody ihrest => exact congrArg₂ (loop a count) ihbody ihrest

/-- Relabelling a tree by numbers that count up is numbering it. -/
theorem map_eq_numberFrom {φ : α → Nat} {f : Forest α} {n : Nat}
    (h : f.labels.map φ = List.range' n f.size) : f.map φ = f.numberFrom n := by
  induction f generalizing n with
  | nil => rfl
  | command a c rest ih =>
    rw [labels, size, List.range'_succ, List.map_cons, List.cons.injEq] at h
    rw [map_command, numberFrom_command, h.1, ih h.2]
  | loop a count body rest ihbody ihrest =>
    rw [labels, size, List.range'_succ, List.map_cons, List.cons.injEq, List.map_append,
      ← List.range'_append_1] at h
    obtain ⟨hbody, hrest⟩ := List.append_inj h.2 (by simp)
    rw [map_loop, numberFrom_loop, h.1, ihbody hbody, ihrest hrest]

end Forest

/-! ## More instructions under one parent -/

namespace Program

variable {p q r : Program} {id : NodeId} {parent other : Option NodeId} {ids : List NodeId}

/-- The program has what the other one had and more under one parent: no other sequence is longer, and no
instruction does anything else. -/
structure Extends (p : Program) (parent : Option NodeId) (q : Program) : Prop where
  wellFormed : q.WellFormed
  nextId_le : p.nextId ≤ q.nextId
  op?_eq : ∀ i < p.nextId, parent ≠ some i → q.op? i = p.op? i
  count?_eq : ∀ i < p.nextId, q.count? i = p.count? i
  roots_eq : parent ≠ none → q.roots = p.roots

/-- The loop of a sequence is a node that is there already. -/
theorem WellFormed.lt_of_sequence? (h : p.WellFormed) (hids : p.sequence? (some id) = some ids) :
    id < p.nextId := by
  obtain ⟨node, count, hget, -⟩ := loopBody?_eq_some_iff.1 hids
  rw [← id_of_get? hget]
  exact h.ids_lt node (mem_of_get? hget)

namespace Extends

theorem refl (h : p.WellFormed) (parent : Option NodeId) : p.Extends parent p :=
  ⟨h, Nat.le_refl _, fun _ _ _ => rfl, fun _ _ => rfl, fun _ => rfl⟩

/-- More instructions under the same parent, or in the first new one. -/
theorem trans (h : p.Extends parent r) (h' : r.Extends other q)
    (hother : other = parent ∨ other = some p.nextId) : p.Extends parent q where
  wellFormed := h'.wellFormed
  nextId_le := Nat.le_trans h.nextId_le h'.nextId_le
  op?_eq i hi hne := by
    have hother' : other ≠ some i := by
      rcases hother with rfl | rfl
      · exact hne
      · simpa using Nat.ne_of_gt hi
    rw [h'.op?_eq i (Nat.lt_of_lt_of_le hi h.nextId_le) hother', h.op?_eq i hi hne]
  count?_eq i hi := by
    rw [h'.count?_eq i (Nat.lt_of_lt_of_le hi h.nextId_le), h.count?_eq i hi]
  roots_eq hne := by
    have hother' : other ≠ none := by
      rcases hother with rfl | rfl
      · exact hne
      · simp
    rw [h'.roots_eq hother', h.roots_eq hne]

/-- The sequences that were there are the same, apart from the one that is longer. -/
theorem sequence?_eq (h : p.Extends parent q) (hne : other ≠ parent)
    (hold : ∀ i, other = some i → i < p.nextId) : q.sequence? other = p.sequence? other := by
  cases other with
  | none => rw [sequence?_none, sequence?_none, h.roots_eq hne.symm]
  | some i =>
    have hop := h.op?_eq i (hold i rfl) hne.symm
    rw [sequence?, sequence?, loopBody?_eq_bind_op?, loopBody?_eq_bind_op?, hop]

/-- A tree stays that neither is under the parent nor holds it. -/
theorem isTree (h : p.Extends parent q) {f : Forest NodeId} (htree : p.IsTree ids f)
    (hold : ∀ i ∈ f.labels, i < p.nextId ∧ parent ≠ some i) : q.IsTree ids f :=
  htree.of_op? fun i hi => h.op?_eq i (hold i hi).1 (hold i hi).2

end Extends

/-! ## One more instruction -/

section
variable {op : Op}

theorem WellFormed.op?_grow_nextId (h : p.WellFormed) :
    (p.grow op parent ids).op? p.nextId = some op := by
  rw [op?, get?_grow h.get?_nextId, if_pos rfl, Option.map_some]

theorem WellFormed.sequence?_grow_parent (h : p.WellFormed) (hids : p.sequence? parent = some ids) :
    (p.grow op parent ids).sequence? parent = some (ids ++ [p.nextId]) := by
  rw [sequence?_grow h.get?_nextId hids, if_neg (h.ne_nextId_of_sequence? hids), if_pos rfl]

/-- An instruction without anything in it changes nothing but the sequence it is put into. -/
theorem WellFormed.extends_grow (h : p.WellFormed) (op : Op) (hids : p.sequence? parent = some ids)
    (hbody : ∀ ids, op.body? = some ids → ids = []) (hcount : ∀ count, op.count? = some count → 1 ≤ count) :
    p.Extends parent (p.grow op parent ids) where
  wellFormed := h.insert hbody hcount (insert_eq_some_iff.2 ⟨rfl, ids, hids, rfl⟩)
  nextId_le := Nat.le_succ _
  op?_eq i hi hne := by
    rw [op?, get?_grow h.get?_nextId, if_neg (Nat.ne_of_lt hi), get?_setSequence]
    simp only [if_neg hne, Option.map_id', op?]
  count?_eq i hi := by rw [count?_grow h.get?_nextId, if_neg (Nat.ne_of_lt hi)]
  roots_eq hne := by
    have hroots : (p.grow op parent ids).sequence? none = _ := sequence?_grow h.get?_nextId hids none
    rw [if_neg (by simp), if_neg hne.symm] at hroots
    exact Option.some.inj hroots

end

/-! ## A tree -/

variable {α : Type} {body rest : Forest α} {a : α} {c : Command} {count : Nat}

/-- What is planted is found again at the end of the sequence, numbered in the order in which it is
written, and nothing else changes. -/
structure Planted (p : Program) (parent : Option NodeId) (ids : List NodeId) (f : Forest α)
    (q : Program) : Prop where
  more : p.Extends parent q
  nextId_eq : q.nextId = p.nextId + f.size
  found : ∃ new, q.sequence? parent = some (ids ++ new) ∧ q.IsTree new (f.numberFrom p.nextId)

namespace Planted

theorem nil (h : p.WellFormed) (hids : p.sequence? parent = some ids) :
    p.Planted parent ids (.nil : Forest α) p :=
  ⟨.refl h parent, rfl, [], by rwa [List.append_nil], .nil⟩

theorem command (h : p.WellFormed) (hids : p.sequence? parent = some ids)
    (hrest : (p.grow (.command c) parent ids).Planted parent (ids ++ [p.nextId]) rest q) :
    p.Planted parent ids (.command a c rest) q := by
  have hgrown := h.extends_grow (.command c) hids (by simp [Op.body?]) (by simp [Op.count?])
  obtain ⟨new, hnew, htree⟩ := hrest.found
  refine ⟨hgrown.trans hrest.more (Or.inl rfl), ?_, p.nextId :: new, by simpa using hnew, ?_⟩
  · rw [hrest.nextId_eq, Forest.size, Nat.add_comm rest.size, ← Nat.add_assoc]
    rfl
  · refine .command ?_ htree
    rw [hrest.more.op?_eq p.nextId (Nat.lt_succ_self _) (h.ne_nextId_of_sequence? hids)]
    exact h.op?_grow_nextId

/-- After the body of a new loop, the loop is the last of its sequence. -/
theorem sequence?_of_body (h : p.WellFormed) (hids : p.sequence? parent = some ids)
    (hbody : (p.grow (.loop count []) parent ids).Planted (some p.nextId) [] body r) :
    r.sequence? parent = some (ids ++ [p.nextId]) := by
  rw [hbody.more.sequence?_eq (h.ne_nextId_of_sequence? hids), h.sequence?_grow_parent hids]
  rintro i rfl
  exact Nat.lt_succ_of_lt (h.lt_of_sequence? hids)

/-- The loop holds what was planted in it. -/
theorem op?_of_body (h : p.WellFormed) {new : List NodeId}
    (hbody : (p.grow (.loop count []) parent ids).Planted (some p.nextId) [] body r)
    (hnew : r.sequence? (some p.nextId) = some new) : r.op? p.nextId = some (.loop count new) := by
  refine op?_eq_loop_iff.2 ⟨?_, hnew⟩
  rw [hbody.more.count?_eq p.nextId (Nat.lt_succ_self _), count?_grow h.get?_nextId, if_pos rfl]
  rfl

theorem loop (h : p.WellFormed) (hids : p.sequence? parent = some ids) (hcount : 1 ≤ count)
    (hbody : (p.grow (.loop count []) parent ids).Planted (some p.nextId) [] body r)
    (hrest : r.Planted parent (ids ++ [p.nextId]) rest q) :
    p.Planted parent ids (.loop a count body rest) q := by
  have hgrown := h.extends_grow (.loop count []) hids (by simp [Op.body?])
    (by simpa [Op.count?] using hcount)
  have hne := h.ne_nextId_of_sequence? hids
  have hnext : r.nextId = p.nextId + 1 + body.size := hbody.nextId_eq
  obtain ⟨inner, hinner, htree⟩ := hbody.found
  obtain ⟨new, hnew, htrees⟩ := hrest.found
  refine ⟨(hgrown.trans hbody.more (Or.inr rfl)).trans hrest.more (Or.inl rfl), ?_,
    p.nextId :: new, by simpa using hnew, ?_⟩
  · rw [hrest.nextId_eq, hnext, Forest.size, Nat.add_assoc, Nat.add_assoc, Nat.add_comm 1]
  · rw [List.nil_append] at hinner
    have hlt : p.nextId < r.nextId := Nat.lt_of_lt_of_le (Nat.lt_succ_self _) hbody.more.nextId_le
    refine .loop ?_ (hrest.more.isTree htree ?_) (hnext ▸ htrees)
    · rw [hrest.more.op?_eq p.nextId hlt hne, op?_of_body h hbody hinner]
    · -- the body has new ids only, and the parent is an old one
      intro i hi
      rw [Forest.labels_numberFrom, List.mem_range'_1] at hi
      refine ⟨hnext ▸ hi.2, ?_⟩
      rintro rfl
      exact absurd (h.lt_of_sequence? hids) (Nat.not_lt.2 (Nat.le_of_succ_le hi.1))

end Planted

/-- Planting a tree whose loops repeat at least once. -/
theorem planted_plant (f : Forest α) (h : p.WellFormed) (hids : p.sequence? parent = some ids)
    (hcounts : ∀ n ∈ f.counts, 1 ≤ n) : p.Planted parent ids f (p.plant parent f) := by
  induction f generalizing p parent ids with
  | nil => exact .nil h hids
  | command a c rest ih =>
    have hinsert : p.append c.kind parent = some (p.nextId, p.grow (.command c) parent ids) := by
      rw [append, Op.ofKind, Kind.command?_kind]
      exact insert_eq_some_iff.2 ⟨rfl, ids, hids, rfl⟩
    have hgrown := h.extends_grow (.command c) hids (by simp [Op.body?]) (by simp [Op.count?])
    rw [plant, hinsert]
    exact .command h hids (ih hgrown.wellFormed (h.sequence?_grow_parent hids) hcounts)
  | loop a count body rest ihbody ihrest =>
    simp only [Forest.counts, List.forall_mem_cons, List.forall_mem_append] at hcounts
    have hinsert : p.appendLoop count parent =
        some (p.nextId, p.grow (.loop count []) parent ids) := by
      rw [appendLoop, Op.ofKind, Kind.command?, Nat.max_eq_left hcounts.1]
      exact insert_eq_some_iff.2 ⟨rfl, ids, hids, rfl⟩
    have hgrown := h.extends_grow (.loop count []) hids (by simp [Op.body?])
      (by simpa [Op.count?] using hcounts.1)
    have hempty : (p.grow (.loop count []) parent ids).sequence? (some p.nextId) = some [] := by
      rw [sequence?_grow h.get?_nextId hids, if_pos rfl]
      rfl
    have hbody := ihbody hgrown.wellFormed hempty hcounts.2.1
    rw [plant, hinsert]
    exact .loop h hids hcounts.1 hbody
      (ihrest hbody.more.wellFormed (Planted.sequence?_of_body h hids hbody) hcounts.2.2)

theorem planted_ofForest (f : Forest α) (hcounts : ∀ n ∈ f.counts, 1 ≤ n) :
    empty.Planted none [] f (ofForest f) :=
  planted_plant f authored_empty.wellFormed (sequence?_none empty) hcounts

/-- The program of a tree is the tree, with its instructions numbered in the order in which they are
written. -/
theorem forest_ofForest (f : Forest α) (hcounts : ∀ n ∈ f.counts, 1 ≤ n) :
    (ofForest f).forest = f.numberFrom 0 := by
  have hplanted := planted_ofForest f hcounts
  obtain ⟨new, hnew, htree⟩ := hplanted.found
  obtain rfl : (ofForest f).roots = new := Option.some.inj hnew
  exact (hplanted.more.wellFormed.isTree_iff.1 htree).symm

/-- The ids of the program of a tree count up in the order in which the instructions are written. -/
theorem labels_ofForest (f : Forest α) (hcounts : ∀ n ∈ f.counts, 1 ≤ n) :
    (ofForest f).forest.labels = List.range (ofForest f).nodeCount := by
  have hsize := (planted_ofForest f hcounts).more.wellFormed.size_forest
  rw [← hsize, forest_ofForest f hcounts, Forest.labels_numberFrom, Forest.size_numberFrom,
    List.range_eq_range']

end Program

end RobotPuzzle
