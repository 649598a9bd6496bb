import RobotPuzzle.Proofs.Program.Denotation

/-!
# What a reordering moves

A reordering takes one id out of a sequence and puts it in again elsewhere in the same sequence. It
writes nothing but that sequence, so that the reverse move brings back the program as it was. Unrolling
takes sequences in order, but it takes the same instructions as often as before: the units come in another
order, in every copy of every loop around them.

## Main statements

- `Program.setSequence_self`, `Program.setSequence_setSequence` — writing a sequence back
- `Program.unrollFrom_perm` — sequences in another order are unrolled to the same units
- `Program.reorder_afterEdits` — reordering of an authored program, whether it applies or not
-/

namespace RobotPuzzle

/-- As often as they are repeated, lists with the same elements have the same elements. -/
theorem perm_flatten_replicate {α : Type} {xs ys : List α} (h : xs.Perm ys) (n : Nat) :
    (List.replicate n xs).flatten.Perm (List.replicate n ys).flatten := by
  induction n with
  | zero => exact .refl []
  | succ n ih =>
    rw [List.replicate_succ, List.replicate_succ, List.flatten_cons, List.flatten_cons]
    exact h.append ih

theorem Node.withBody_withBody (node : Node) (old new : List NodeId) :
    (node.withBody old).withBody new = node.withBody new := by
  obtain ⟨id, parent, op⟩ := node
  cases op <;> rfl

namespace Program

variable {p q : Program} {id i moved : NodeId} {parent other : Option NodeId} {ids new : List NodeId}
  {source dest depth : Nat}

/-! ## Writing a sequence -/

theorem setSequence_setSequence (p : Program) (parent : Option NodeId) (old new : List NodeId) :
    (p.setSequence parent old).setSequence parent new = p.setSequence parent new := by
  cases parent with
  | none => rfl
  | some loopId =>
    simp only [setSequence, modifyNode, List.map_map, mk.injEq, and_true]
    refine List.map_congr_left fun node _ => ?_
    by_cases hid : node.id = loopId
    · simp [hid, Node.withBody_withBody]
    · simp [hid]

/-- A sequence may be written as it is. -/
theorem WellFormed.setSequence_self (h : p.WellFormed) (hids : p.sequence? parent = some ids) :
    p.setSequence parent ids = p := by
  cases parent with
  | none =>
    obtain rfl := Option.some.inj hids
    rfl
  | some loopId =>
    have hsame : ∀ node ∈ p.nodes, (if node.id = loopId then node.withBody ids else node) = node := by
      intro node hnode
      split
      · rename_i hid
        obtain ⟨found, count, hget, hop⟩ := loopBody?_eq_some_iff.1 hids
        obtain rfl : node = found := Option.some.inj ((h.get?_of_mem hnode).symm.trans (hid ▸ hget))
        obtain ⟨nodeId, nodeParent, op⟩ := node
        simp only at hop
        rw [hop]
        rfl
      · rfl
    rw [setSequence, modifyNode, List.map_congr_left hsame, List.map_id']

theorem kinds_setSequence :
    (p.setSequence parent ids).nodes.map (·.op.kind) = p.nodes.map (·.op.kind) := by
  cases parent with
  | none => rfl
  | some loopId =>
    simp only [setSequence, modifyNode, List.map_map]
    refine List.map_congr_left fun node _ => ?_
    simp only [Function.comp_apply]
    split <;> simp

theorem kindsUsed_setSequence : (p.setSequence parent ids).kindsUsed = p.kindsUsed := by
  have hany : ∀ (r : Program) (k : Kind),
      r.nodes.any (·.op.kind = k) = (r.nodes.map (·.op.kind)).any (· = k) := by
    intro r k
    rw [List.any_map]
    rfl
  simp only [kindsUsed, hany, kinds_setSequence]

/-! ## Units in another order -/

theorem unrollFrom_perm_of_perm (p : Program) (depth : Nat) (hperm : new.Perm ids) :
    (p.unrollFrom depth new).Perm (p.unrollFrom depth ids) := by
  cases depth with
  | zero => exact .refl []
  | succ depth =>
    rw [unrollFrom_succ, unrollFrom_succ]
    exact hperm.flatMap_right _

/-- Programs whose nodes do the same, each sequence of one being one of the other in some order, unroll
every sequence to the same units in some order. -/
theorem unrollFrom_perm (hkind : ∀ i, q.kind? i = p.kind? i) (hcount : ∀ i, q.count? i = p.count? i)
    (hsequence : ∀ parent old, p.sequence? parent = some old →
      ∃ new, q.sequence? parent = some new ∧ new.Perm old)
    (depth : Nat) (ids : List NodeId) : (q.unrollFrom depth ids).Perm (p.unrollFrom depth ids) := by
  induction depth generalizing ids with
  | zero => exact .refl []
  | succ depth ihd =>
    rw [unrollFrom_succ, unrollFrom_succ]
    refine List.Perm.flatMap_left ids fun i _ => ?_
    cases hop : p.op? i with
    | none =>
      have hdead : q.op? i = none := op?_eq_none_iff.2 ((hkind i).trans (op?_eq_none_iff.1 hop))
      rw [unitsFrom, unitsFrom, hop, hdead]
    | some op =>
      cases op with
      | command c =>
        have hsame : q.op? i = some (.command c) :=
          op?_eq_command_iff.2 ((hkind i).trans (op?_eq_command_iff.1 hop))
        rw [unitsFrom, unitsFrom, hop, hsame]
      | loop count body =>
        obtain ⟨hold, hbody⟩ := op?_eq_loop_iff.1 hop
        obtain ⟨body', hbody', hperm⟩ := hsequence (some i) body hbody
        have hsame : q.op? i = some (.loop count body') := op?_eq_loop_iff.2 ⟨(hcount i).trans hold, hbody'⟩
        -- the body of one pass is unrolled in another order, and so are all passes
        have hpass : (q.unrollFrom depth body').Perm (p.unrollFrom depth body) :=
          (ihd body').trans (p.unrollFrom_perm_of_perm depth hperm)
        rw [unitsFrom, unitsFrom, hop, hsame]
        exact .cons _ (perm_flatten_replicate hpass count)

/-! ## Moving an instruction -/

section
variable (hreorder : p.reorder parent source dest = some q)
include hreorder

theorem parent?_of_reorder : q.parent? i = p.parent? i := by
  obtain ⟨ids, moved, -, -, -, rfl⟩ := reorder_eq_some_iff.1 hreorder
  exact parent?_setSequence

theorem kind?_of_reorder : q.kind? i = p.kind? i := by
  obtain ⟨ids, moved, -, -, -, rfl⟩ := reorder_eq_some_iff.1 hreorder
  exact kind?_setSequence

theorem count?_of_reorder : q.count? i = p.count? i := by
  obtain ⟨ids, moved, -, -, -, rfl⟩ := reorder_eq_some_iff.1 hreorder
  exact count?_setSequence

theorem nodeCount_of_reorder : q.nodeCount = p.nodeCount := by
  obtain ⟨ids, moved, -, -, -, rfl⟩ := reorder_eq_some_iff.1 hreorder
  exact nodeCount_setSequence

/-- The sequence has the same ids at other places, and every other sequence stays. -/
theorem sequence?_of_reorder {old : List NodeId} (hold : p.sequence? other = some old) :
    ∃ new, q.sequence? other = some new ∧ new.Perm old ∧ (other ≠ parent → new = old) := by
  obtain ⟨ids, moved, hids, hmoved, hdest, rfl⟩ := reorder_eq_some_iff.1 hreorder
  rw [sequence?_setSequence (Option.isSome_iff_exists.2 ⟨ids, hids⟩)]
  by_cases hother : other = parent
  · subst hother
    obtain rfl : ids = old := Option.some.inj (hids.symm.trans hold)
    exact ⟨_, if_pos rfl, perm_move hmoved hdest, fun hne => absurd rfl hne⟩
  · exact ⟨old, by rw [if_neg hother, hold], .refl _, fun _ => rfl⟩

theorem kindsUsed_of_reorder : q.kindsUsed = p.kindsUsed := by
  obtain ⟨ids, moved, -, -, -, rfl⟩ := reorder_eq_some_iff.1 hreorder
  exact kindsUsed_setSequence

theorem nextId_of_reorder : q.nextId = p.nextId := by
  obtain ⟨ids, moved, -, -, -, rfl⟩ := reorder_eq_some_iff.1 hreorder
  exact nextId_setSequence

/-- No node but the loop whose body is reordered is written. -/
theorem get?_of_reorder (hi : parent ≠ some i) : q.get? i = p.get? i := by
  obtain ⟨ids, moved, -, -, -, rfl⟩ := reorder_eq_some_iff.1 hreorder
  rw [get?_setSequence]
  simp [hi]

theorem unroll_of_reorder : q.unroll.Perm p.unroll := by
  have hsequence : ∀ parent old, p.sequence? parent = some old →
      ∃ new, q.sequence? parent = some new ∧ new.Perm old := by
    intro other old hold
    obtain ⟨new, hnew, hperm, -⟩ := sequence?_of_reorder hreorder hold
    exact ⟨new, hnew, hperm⟩
  obtain ⟨new, hnew, hroots⟩ := hsequence none p.roots rfl
  obtain rfl := Option.some.inj hnew
  have hperm := unrollFrom_perm (fun _ => kind?_of_reorder hreorder) (fun _ => count?_of_reorder hreorder)
    hsequence p.nodeCount q.roots
  rw [unroll, nodeCount_of_reorder hreorder]
  exact hperm.trans (p.unrollFrom_perm_of_perm p.nodeCount hroots)

theorem unrolledLength_of_reorder : q.unrolledLength = p.unrolledLength := by
  have hlength := (unroll_of_reorder hreorder).length_eq
  rw [unrolledLength_eq_min, unrolledLength_eq_min, ← unroll_eq_unroll_forest, ← unroll_eq_unroll_forest,
    hlength]

end

/-! ## Moving it back -/

/-- What was moved is at its new place. -/
theorem getElem?_move (hmoved : ids[source]? = some moved) (hdest : dest < ids.length) :
    ((ids.eraseIdx source).insertIdx dest moved)[dest]? = some moved := by
  obtain ⟨hsource, -⟩ := List.getElem?_eq_some_iff.1 hmoved
  have hlength := List.length_eraseIdx_of_lt hsource
  rw [List.getElem?_insertIdx_self, if_pos (by omega)]

theorem WellFormed.reorder_back (h : p.WellFormed) (hreorder : p.reorder parent source dest = some q) :
    q.reorder parent dest source = some p := by
  obtain ⟨ids, moved, hids, hmoved, hdest, rfl⟩ := reorder_eq_some_iff.1 hreorder
  obtain ⟨hsource, hget⟩ := List.getElem?_eq_some_iff.1 hmoved
  have hlength := (perm_move hmoved hdest).length_eq
  have hback : (((ids.eraseIdx source).insertIdx dest moved).eraseIdx dest).insertIdx source moved = ids := by
    rw [List.eraseIdx_insertIdx_self, ← hget, List.insertIdx_eraseIdx_getElem hsource]
  refine reorder_eq_some_iff.2 ⟨_, moved, ?_, getElem?_move hmoved hdest, by omega, ?_⟩
  · rw [sequence?_setSequence (Option.isSome_iff_exists.2 ⟨ids, hids⟩), if_pos rfl]
  · rw [hback, setSequence_setSequence, h.setSequence_self hids]

/-! ## Authored programs -/

/-- Whatever operations build a program, a reordering applies exactly if there is such a sequence and
both positions are in it. It then puts what was at the one position to the other, and leaves the order of
the rest of the sequence, every other sequence, what the nodes name and do, and the next id as they were.
The units come in another order, and their number, the number of nodes and the kinds in use stay; the
reverse move brings back the same program. If it does not apply, nothing changes. -/
theorem reorder_afterEdits (edits : List Edit) (parent : Option NodeId) (source dest : Nat) :
    let p := empty.afterEdits edits
    let q := ((Edit.reorder parent source dest).perform p).2
    (∃ ids, p.sequence? parent = some ids ∧ source < ids.length ∧ dest < ids.length ∧
      ((Edit.reorder parent source dest).perform p).1 = .changed true ∧
      (∃ new, q.sequence? parent = some new ∧ new[dest]? = ids[source]? ∧
        new.eraseIdx dest = ids.eraseIdx source) ∧
      (∀ other, other ≠ parent → q.sequence? other = p.sequence? other) ∧
      (∀ i, q.parent? i = p.parent? i ∧ q.kind? i = p.kind? i ∧ q.count? i = p.count? i) ∧
      (∀ i, parent ≠ some i → q.get? i = p.get? i) ∧
      q.nextId = p.nextId ∧ q.nodeCount = p.nodeCount ∧ q.kindsUsed = p.kindsUsed ∧
      q.unrolledLength = p.unrolledLength ∧ q.unroll.Perm p.unroll ∧
      (Edit.reorder parent dest source).perform q = (.changed true, p)) ∨
    ((¬ ∃ ids, p.sequence? parent = some ids ∧ source < ids.length ∧ dest < ids.length) ∧
      (Edit.reorder parent source dest).perform p = (.changed false, p)) := by
  intro p q
  have hp : p.WellFormed := Authored.wellFormed ⟨edits, rfl⟩
  cases hreorder : p.reorder parent source dest with
  | none =>
    refine Or.inr ⟨?_, by rw [Edit.perform, hreorder, Edit.ofChange]⟩
    rintro ⟨ids, hids, hsource, hdest⟩
    rw [Option.eq_none_iff_forall_ne_some] at hreorder
    exact hreorder _ (reorder_eq_some_iff.2
      ⟨ids, ids[source], hids, List.getElem?_eq_getElem hsource, hdest, rfl⟩)
  | some r =>
    have hchanged : (Edit.reorder parent source dest).perform p = (.changed true, r) := by
      rw [Edit.perform, hreorder, Edit.ofChange]
    obtain rfl : q = r := congrArg Prod.snd hchanged
    have hback : (Edit.reorder parent dest source).perform q = (.changed true, p) := by
      rw [Edit.perform, hp.reorder_back hreorder, Edit.ofChange]
    obtain ⟨ids, moved, hids, hmoved, hdest, hq⟩ := reorder_eq_some_iff.1 hreorder
    have hlive : (p.sequence? parent).isSome := Option.isSome_iff_exists.2 ⟨ids, hids⟩
    have hnew : q.sequence? parent = some ((ids.eraseIdx source).insertIdx dest moved) := by
      rw [hq, sequence?_setSequence hlive, if_pos rfl]
    have hplace : ((ids.eraseIdx source).insertIdx dest moved)[dest]? = ids[source]? := by
      rw [getElem?_move hmoved hdest, hmoved]
    have hothers : ∀ other, other ≠ parent → q.sequence? other = p.sequence? other := by
      intro other hother
      rw [hq, sequence?_setSequence hlive, if_neg hother]
    refine Or.inl ⟨ids, hids, (List.getElem?_eq_some_iff.1 hmoved).1, hdest, congrArg Prod.fst hchanged,
      ⟨_, hnew, hplace, List.eraseIdx_insertIdx_self _⟩, hothers, ?_, ?_, nextId_of_reorder hreorder,
      nodeCount_of_reorder hreorder, kindsUsed_of_reorder hreorder, unrolledLength_of_reorder hreorder,
      unroll_of_reorder hreorder, hback⟩
    · exact fun i => ⟨parent?_of_reorder hreorder, kind?_of_reorder hreorder, count?_of_reorder hreorder⟩
    · exact fun i => get?_of_reorder hreorder

end Program

end RobotPuzzle
