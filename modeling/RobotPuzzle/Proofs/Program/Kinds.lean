import RobotPuzzle.Proofs.Program.Counts

/-!
# Kinds in use

The kinds a program uses are read off its nodes, while only its units are ever executed. In a well-formed
program they are the same: every node stands in the tree, and no loop repeats its body zero times, so that
every node has a unit, and a unit has the kind of its node.

## Main statements

- `Program.WellFormed.mem_kindsUsed_iff` — the kinds of the nodes are those of the units
-/

namespace RobotPuzzle

/-- Every instruction of a tree without zero counts has a unit. -/
theorem Forest.exists_mem_unroll {f : Forest NodeId} {id : NodeId} (hcounts : ∀ n ∈ f.counts, 1 ≤ n)
    (hid : id ∈ f.labels) : ∃ b ∈ f.unroll, b.id = id := by
  induction f with
  | nil => cases hid
  | command label c rest ih =>
    rcases List.mem_cons.1 hid with rfl | hid
    · exact ⟨_, List.mem_cons_self, rfl⟩
    · obtain ⟨b, hb, hbid⟩ := ih hcounts hid
      exact ⟨b, List.mem_cons_of_mem _ hb, hbid⟩
  | loop label count body rest ihbody ihrest =>
    simp only [counts, List.forall_mem_cons, List.forall_mem_append] at hcounts
    obtain ⟨hcount, hbody, hrest⟩ := hcounts
    simp only [labels, List.mem_cons, List.mem_append] at hid
    simp only [unroll, List.mem_cons, List.mem_append, List.mem_flatten]
    rcases hid with rfl | hid | hid
    · exact ⟨_, Or.inl rfl, rfl⟩
    · -- the body is there at least once
      obtain ⟨b, hb, hbid⟩ := ihbody hbody hid
      exact ⟨b, Or.inr (Or.inl ⟨_, List.mem_replicate.2 ⟨by omega, rfl⟩, hb⟩), hbid⟩
    · obtain ⟨b, hb, hbid⟩ := ihrest hrest hid
      exact ⟨b, Or.inr (Or.inr hb), hbid⟩

namespace Program

variable {p : Program} {ids : List NodeId} {f : Forest NodeId} {k : Kind}

theorem kind?_of_op? {id : NodeId} {op : Op} (h : p.op? id = some op) : p.kind? id = some op.kind := by
  obtain ⟨node, hget, rfl⟩ := Option.map_eq_some_iff.1 h
  rw [kind?, hget, Option.map_some]

/-- A unit has the kind of the instruction it comes from. -/
theorem IsTree.kind?_of_mem_unroll (h : p.IsTree ids f) {b : Beat} (hb : b ∈ f.unroll) :
    p.kind? b.id = some b.kind := by
  induction h with
  | nil => cases hb
  | command hop hrest ih =>
    rcases List.mem_cons.1 hb with rfl | hb
    · exact kind?_of_op? hop
    · exact ih hb
  | loop hop hbody hrest ihbody ihrest =>
    rcases List.mem_cons.1 hb with rfl | hb
    · exact kind?_of_op? hop
    · rcases List.mem_append.1 hb with hb | hb
      · obtain ⟨units, hunits, hb⟩ := List.mem_flatten.1 hb
        rw [List.eq_of_mem_replicate hunits] at hb
        exact ihbody hb
      · exact ihrest hb

theorem nodup_kindsUsed (p : Program) : p.kindsUsed.Nodup := (by decide : Kind.all.Nodup).filter _

namespace WellFormed

theorem mem_kindsUsed_iff_kind? (h : p.WellFormed) : k ∈ p.kindsUsed ↔ ∃ id, p.kind? id = some k := by
  simp only [kindsUsed, List.mem_filter, Kind.mem_all, true_and, List.any_eq_true, decide_eq_true_eq]
  constructor
  · rintro ⟨node, hnode, rfl⟩
    exact ⟨node.id, by rw [kind?, h.get?_of_mem hnode, Option.map_some]⟩
  · rintro ⟨id, hid⟩
    obtain ⟨node, hget, hkind⟩ := Option.map_eq_some_iff.1 hid
    exact ⟨node, mem_of_get? hget, hkind⟩

theorem one_le_of_mem_counts (h : p.WellFormed) {n : Nat} (hn : n ∈ p.forest.counts) : 1 ≤ n := by
  obtain ⟨id, hcount⟩ := h.isTree_forest.exists_count? hn
  exact h.one_le_of_count? hcount

/-- The kinds a program uses are those of its units. -/
theorem mem_kindsUsed_iff (h : p.WellFormed) : k ∈ p.kindsUsed ↔ ∃ b ∈ p.unroll, b.kind = k := by
  rw [h.mem_kindsUsed_iff_kind?, unroll_eq_unroll_forest]
  constructor
  · rintro ⟨id, hid⟩
    obtain ⟨node, hget, -⟩ := Option.map_eq_some_iff.1 hid
    -- a live node is met by the walk, whose ids are the labels of the tree
    have hlabel : id ∈ p.forest.labels := by
      rw [forest, labels_forestFrom]
      exact h.mem_walk_iff.2 (Option.isSome_iff_exists.2 ⟨node, hget⟩)
    obtain ⟨b, hb, rfl⟩ := Forest.exists_mem_unroll (fun _ => h.one_le_of_mem_counts) hlabel
    exact ⟨b, hb, Option.some.inj ((h.isTree_forest.kind?_of_mem_unroll hb).symm.trans hid)⟩
  · rintro ⟨b, hb, rfl⟩
    exact ⟨b.id, h.isTree_forest.kind?_of_mem_unroll hb⟩

end WellFormed

end Program

end RobotPuzzle
