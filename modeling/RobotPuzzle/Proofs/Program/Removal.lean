import RobotPuzzle.Proofs.Program.Denotation

/-!
# What a removal leaves

Taking out an instruction edits the one sequence it stands in and drops the nodes at and below it. Every
other node keeps what it names and does, except that a loop around the instruction has one id less in its
body. Unrolling the rest is then unrolling everything and leaving out the units of what was taken out,
in every copy of every loop around it.

## Main statements

- `Program.WellFormed.sequence?_of_remove` — the sequences that are left
- `Program.WellFormed.unroll_of_remove` — the units that are left
- `Program.remove_afterEdits` — removal from an authored program, whether it applies or not
-/

namespace RobotPuzzle

namespace Program

variable {p q : Program} {id i : NodeId} {parent : Option NodeId} {ids : List NodeId} {depth : Nat}

/-! ## The nodes that are left -/

/-- A removal applies to live ids, and to no others. -/
theorem WellFormed.isSome_remove_iff (h : p.WellFormed) : (p.remove id).isSome ↔ (p.get? id).isSome := by
  simp only [Option.isSome_iff_exists, remove_eq_some_iff]
  constructor
  · rintro ⟨q, node, siblings, hget, -⟩
    exact ⟨node, hget⟩
  · rintro ⟨node, hget⟩
    obtain ⟨siblings, hsiblings⟩ := Option.isSome_iff_exists.1 (h.parent_live node (mem_of_get? hget))
    exact ⟨_, node, siblings, hget, hsiblings, rfl⟩

section
variable (hremove : p.remove id = some q)
include hremove

theorem isSome_get?_of_remove : (p.get? id).isSome := by
  obtain ⟨node, siblings, hget, -⟩ := remove_eq_some_iff.1 hremove
  rw [hget]
  rfl

theorem parent?_of_remove : q.parent? i = if i ∈ p.subtree id then none else p.parent? i := by
  obtain ⟨node, siblings, -, -, rfl⟩ := remove_eq_some_iff.1 hremove
  rw [parent?_prune, parent?_setSequence]

theorem kind?_of_remove : q.kind? i = if i ∈ p.subtree id then none else p.kind? i := by
  obtain ⟨node, siblings, -, -, rfl⟩ := remove_eq_some_iff.1 hremove
  rw [kind?_prune, kind?_setSequence]

theorem count?_of_remove : q.count? i = if i ∈ p.subtree id then none else p.count? i := by
  obtain ⟨node, siblings, -, -, rfl⟩ := remove_eq_some_iff.1 hremove
  rw [count?_prune, count?_setSequence]

theorem isSome_get?_of_remove_iff : (q.get? i).isSome ↔ (p.get? i).isSome ∧ i ∉ p.subtree id := by
  rw [← Option.isSome_map (f := Node.parent), ← Option.isSome_map (f := Node.parent)]
  show (q.parent? i).isSome ↔ (p.parent? i).isSome ∧ _
  rw [parent?_of_remove hremove]
  split <;> simp_all

theorem nextId_of_remove : q.nextId = p.nextId := by
  obtain ⟨node, siblings, -, -, rfl⟩ := remove_eq_some_iff.1 hremove
  exact nextId_setSequence

theorem nodeCount_le_of_remove : q.nodeCount ≤ p.nodeCount := by
  obtain ⟨node, siblings, -, -, rfl⟩ := remove_eq_some_iff.1 hremove
  have hprune : ((p.setSequence node.parent (siblings.filter (· ≠ id))).prune (p.subtree id)).nodeCount ≤
      (p.setSequence node.parent (siblings.filter (· ≠ id))).nodeCount := List.length_filter_le _ _
  rwa [nodeCount_setSequence] at hprune

end

/-! ## The sequences that are left -/

namespace WellFormed

variable (h : p.WellFormed) (hremove : p.remove id = some q)
include h hremove

/-- A sequence goes with its loop, and otherwise loses what was taken out and keeps its order. -/
theorem sequence?_of_remove :
    q.sequence? parent =
      if ∃ i ∈ p.subtree id, parent = some i then none
      else (p.sequence? parent).map (·.filter (· ∉ p.subtree id)) := by
  have hlive := isSome_get?_of_remove hremove
  obtain ⟨node, siblings, hget, hsiblings, rfl⟩ := remove_eq_some_iff.1 hremove
  rw [h.sequence?_remove hget hsiblings]
  split
  · rfl
  · rename_i hkept
    refine Option.map_congr fun old hold => List.filter_congr fun i hi => ?_
    -- of a sequence that stays, only the instruction itself can be taken out
    have hgone := h.mem_subtree_iff_parent? hlive ((h.mem_sequence_iff_parent? hold).1 hi)
    simp only [hkept, or_false] at hgone
    simp only [hgone, ne_eq]

theorem roots_of_remove : q.roots = p.roots.filter (· ∉ p.subtree id) := by
  have hroots : q.sequence? none = _ := h.sequence?_of_remove hremove
  simpa using hroots

/-- A loop that stays repeats as often as before what is left of its body. -/
theorem op?_loop_of_remove {count : Nat} {body : List NodeId} (hi : i ∉ p.subtree id)
    (hop : p.op? i = some (.loop count body)) :
    q.op? i = some (.loop count (body.filter (· ∉ p.subtree id))) := by
  obtain ⟨hcount, hbody⟩ := op?_eq_loop_iff.1 hop
  refine op?_eq_loop_iff.2 ⟨?_, ?_⟩
  · rw [count?_of_remove hremove, if_neg hi, hcount]
  · have hsequence : q.sequence? (some i) = _ := h.sequence?_of_remove hremove
    have hkept : ¬ ∃ j ∈ p.subtree id, some i = some j := by
      rintro ⟨j, hj, heq⟩
      obtain rfl := Option.some.inj heq
      exact hi hj
    rw [if_neg hkept] at hsequence
    simpa [sequence?, hbody] using hsequence

/-! ## The units that are left -/

/-- Nothing is left of an instruction that was taken out. -/
theorem filter_unitsFrom_of_mem_subtree (hi : i ∈ p.subtree id) :
    (p.unitsFrom depth i).filter (·.id ∉ p.subtree id) = [] := by
  have hlive := isSome_get?_of_remove hremove
  rw [List.filter_eq_nil_iff]
  intro b hb
  simp only [decide_eq_true_eq, not_not]
  exact (h.mem_subtree_iff hlive).2
    (((h.mem_subtree_iff hlive).1 hi).trans (encloses_of_mem_unitsFrom hb))

theorem unitsFrom_of_remove (hi : i ∉ p.subtree id)
    (hbody : ∀ ids, q.unrollFrom depth (ids.filter (· ∉ p.subtree id)) =
      (p.unrollFrom depth ids).filter (·.id ∉ p.subtree id)) :
    q.unitsFrom depth i = (p.unitsFrom depth i).filter (·.id ∉ p.subtree id) := by
  cases hop : p.op? i with
  | none =>
    have hdead : q.op? i = none := by
      rw [op?_eq_none_iff] at hop ⊢
      rw [kind?_of_remove hremove, if_neg hi, hop]
    rw [unitsFrom, unitsFrom, hop, hdead]
    rfl
  | some op =>
    cases op with
    | command c =>
      have hsame : q.op? i = some (.command c) := by
        rw [op?_eq_command_iff] at hop ⊢
        rw [kind?_of_remove hremove, if_neg hi, hop]
      rw [unitsFrom, unitsFrom, hop, hsame]
      simp [Beat.ofCommand, hi]
    | loop count body =>
      rw [unitsFrom, unitsFrom, hop, h.op?_loop_of_remove hremove hi hop]
      have hmarker : decide ((Beat.ofLoop i).id ∉ p.subtree id) = true := decide_eq_true hi
      dsimp only
      rw [hbody, List.filter_cons, if_pos hmarker, List.filter_flatten, List.map_replicate]

/-- Unrolling what is left of a sequence leaves out the units of what was taken out. -/
theorem unrollFrom_of_remove (depth : Nat) (ids : List NodeId) :
    q.unrollFrom depth (ids.filter (· ∉ p.subtree id)) =
      (p.unrollFrom depth ids).filter (·.id ∉ p.subtree id) := by
  induction depth generalizing ids with
  | zero => rfl
  | succ depth ihd =>
    rw [unrollFrom_succ, unrollFrom_succ]
    induction ids with
    | nil => rfl
    | cons i ids ih =>
      rw [List.flatMap_cons, List.filter_append]
      by_cases hi : i ∈ p.subtree id
      · rw [List.filter_cons_of_neg (by simpa using hi), ih,
          h.filter_unitsFrom_of_mem_subtree hremove hi, List.nil_append]
      · rw [List.filter_cons_of_pos (by simpa using hi), List.flatMap_cons, ih,
          h.unitsFrom_of_remove hremove hi ihd]

theorem unroll_of_remove : q.unroll = p.unroll.filter (·.id ∉ p.subtree id) := by
  have hwalks := (h.remove hremove).isForest.walks_end p.nodeCount (nodeCount_le_of_remove hremove) q.roots
  rw [unroll, ← hwalks.2.2.1, h.roots_of_remove hremove, h.unrollFrom_of_remove hremove, unroll]

end WellFormed

/-! ## Authored programs -/

/-- Whatever operations build a program, a removal applies exactly to a live id and changes nothing
otherwise. It takes out the instruction with everything it encloses: the nodes that are left have the
parent, the kind and the repeat count they had, each of their sequences is the old one without what was
taken out, ids go on from where they were, and the units are the old ones without those of what was taken
out. -/
theorem remove_afterEdits (edits : List Edit) (id : NodeId) :
    let p := empty.afterEdits edits
    let q := ((Edit.remove id).perform p).2
    ((Edit.remove id).perform p).1 = .changed (p.get? id).isSome ∧
      (p.get? id = none → q = p) ∧
      ((p.get? id).isSome →
        (∀ i, i ∈ p.subtree id ↔ p.Encloses id i) ∧
        (∀ i, (q.get? i).isSome ↔ (p.get? i).isSome ∧ i ∉ p.subtree id) ∧
        (∀ i ∉ p.subtree id,
          q.parent? i = p.parent? i ∧ q.kind? i = p.kind? i ∧ q.count? i = p.count? i) ∧
        (∀ parent, (∀ i ∈ p.subtree id, parent ≠ some i) →
          q.sequence? parent = (p.sequence? parent).map (·.filter (· ∉ p.subtree id))) ∧
        q.nextId = p.nextId ∧
        q.unroll = p.unroll.filter (·.id ∉ p.subtree id)) := by
  intro p q
  have hp : p.WellFormed := Authored.wellFormed ⟨edits, rfl⟩
  have happlies : (p.remove id).isSome ↔ (p.get? id).isSome := hp.isSome_remove_iff
  cases hremove : p.remove id with
  | none =>
    have hdead : p.get? id = none := by simpa [hremove] using happlies
    have hunchanged : (Edit.remove id).perform p = (.changed false, p) := by
      rw [Edit.perform, hremove, Edit.ofChange]
    refine ⟨by rw [hunchanged, hdead]; rfl, fun _ => congrArg Prod.snd hunchanged, fun hlive => ?_⟩
    rw [hdead] at hlive
    cases hlive
  | some r =>
    have hlive := isSome_get?_of_remove hremove
    have hchanged : (Edit.remove id).perform p = (.changed true, r) := by
      rw [Edit.perform, hremove, Edit.ofChange]
    obtain rfl : q = r := congrArg Prod.snd hchanged
    refine ⟨by rw [hchanged, hlive], fun hdead => ?_, fun _ => ⟨?_, ?_, ?_, ?_, ?_, ?_⟩⟩
    · rw [hdead] at hlive
      cases hlive
    · exact fun i => hp.mem_subtree_iff hlive
    · exact fun i => isSome_get?_of_remove_iff hremove
    · intro i hi
      rw [parent?_of_remove hremove, kind?_of_remove hremove, count?_of_remove hremove]
      exact ⟨if_neg hi, if_neg hi, if_neg hi⟩
    · intro parent hparent
      have hkept : ¬ ∃ i ∈ p.subtree id, parent = some i := fun ⟨i, hi, heq⟩ => hparent i hi heq
      rw [hp.sequence?_of_remove hremove, if_neg hkept]
    · exact nextId_of_remove hremove
    · exact hp.unroll_of_remove hremove

end Program

end RobotPuzzle
