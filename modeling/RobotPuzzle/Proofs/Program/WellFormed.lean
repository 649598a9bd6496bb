import RobotPuzzle.Proofs.Program.Nesting

/-!
# Authored programs are well-formed

Every edit of a program changes one sequence and the nodes at one end of it. Three views tell what it
does to the rest: the parent of a node, the repeat count of a loop and the sequence under a parent.
Well-formedness is a statement about these views, so keeping it is a matter of comparing them before
and after the edit.

## Main definitions

- `Program.count?`, `Program.kind?` — the repeat count of a live loop, and the kind of a live node
- `Program.IsForest` — what well-formedness makes of the arena: a finite forest under the top level

## Main statements

- `Program.WellFormed.perform` — no edit breaks well-formedness
- `Program.isForest_afterEdits` — every authored program is a forest
-/

namespace RobotPuzzle

/-- The repeat count of a loop; a command has none. -/
def Op.count? : Op → Option Nat
  | .command _ => none
  | .loop count _ => some count

theorem Op.count?_ofKind {kind : Kind} {count n : Nat} (h : (Op.ofKind kind count).count? = some n) :
    n = max count 1 := by
  cases hkind : kind.command? with
  | some c => simp [ofKind, hkind, count?] at h
  | none => simpa [ofKind, hkind, count?, eq_comm] using h

namespace Program

variable {p q : Program} {id : NodeId} {parent : Option NodeId} {ids : List NodeId} {node : Node}

/-- The repeat count of a live loop. -/
def count? (p : Program) (id : NodeId) : Option Nat := (p.get? id).bind (·.op.count?)

/-- The kind of a live node. -/
def kind? (p : Program) (id : NodeId) : Option Kind := (p.get? id).map (·.op.kind)

/-! ## Well-formedness by views -/

/-- A program is well-formed if its ids are in order and its views agree. -/
theorem WellFormed.of_views (ids_nodup : (p.nodes.map (·.id)).Nodup)
    (ids_lt : ∀ id ∈ p.nodes.map (·.id), id < p.nextId)
    (sequence_nodup : ∀ parent ids, p.sequence? parent = some ids → ids.Nodup)
    (mem_sequence : ∀ parent ids, p.sequence? parent = some ids →
      ∀ id, id ∈ ids ↔ p.parent? id = some parent)
    (parent_live : ∀ id parent, p.parent? id = some parent → (p.sequence? parent).isSome)
    (parent_lt : ∀ id loopId, p.parent? id = some (some loopId) → loopId < id)
    (count_pos : ∀ id count, p.count? id = some count → 1 ≤ count) : p.WellFormed := by
  have hget : ∀ node ∈ p.nodes, p.get? node.id = some node := fun _ hnode =>
    get?_of_mem_of_nodup ids_nodup hnode
  have hparent : ∀ node ∈ p.nodes, p.parent? node.id = some node.parent := fun node hnode =>
    parent?_eq_some_iff.2 ⟨node, hget node hnode, rfl⟩
  refine ⟨ids_nodup, ?_, sequence_nodup, ?_, ?_, ?_, ?_⟩
  · exact fun node hnode => ids_lt node.id (List.mem_map_of_mem hnode)
  · intro parent ids hids id
    rw [mem_sequence parent ids hids id, parent?_eq_some_iff]
  · exact fun node hnode => parent_live node.id node.parent (hparent node hnode)
  · intro node hnode loopId hloop
    exact parent_lt node.id loopId (by rw [hparent node hnode, hloop])
  · intro node hnode count ids hop
    exact count_pos node.id count (by simp [count?, hget node hnode, hop, Op.count?])

namespace WellFormed

theorem one_le_of_count? (h : p.WellFormed) {count : Nat} (hcount : p.count? id = some count) :
    1 ≤ count := by
  obtain ⟨⟨nodeId, nodeParent, op⟩, hget, hop⟩ := Option.bind_eq_some_iff.1 hcount
  cases op with
  | command c => simp [Op.count?] at hop
  | loop count' ids =>
    obtain rfl := Option.some.inj hop
    exact h.count_pos _ (mem_of_get? hget) _ ids rfl

/-- The next id is not in use. -/
theorem get?_nextId (h : p.WellFormed) : p.get? p.nextId = none := by
  rw [get?, List.find?_eq_none]
  intro node hnode hid
  simp only [decide_eq_true_eq] at hid
  exact Nat.lt_irrefl _ (hid ▸ h.ids_lt node hnode)

theorem id_lt_nextId (h : p.WellFormed) : ∀ id ∈ p.nodes.map (·.id), id < p.nextId := by
  intro id hid
  obtain ⟨node, hnode, rfl⟩ := List.mem_map.1 hid
  exact h.ids_lt node hnode

end WellFormed

/-! ## Edits that keep every parent -/

/-- Permuting sequences and changing repeat counts leaves a program well-formed. -/
theorem WellFormed.of_perm (h : p.WellFormed)
    (hids : q.nodes.map (·.id) = p.nodes.map (·.id)) (hnext : q.nextId = p.nextId)
    (hparent : ∀ id, q.parent? id = p.parent? id)
    (hsequence : ∀ parent ids, q.sequence? parent = some ids →
      ∃ old, p.sequence? parent = some old ∧ ids.Perm old)
    (hlive : ∀ parent, (p.sequence? parent).isSome → (q.sequence? parent).isSome)
    (hcount : ∀ id count, q.count? id = some count → 1 ≤ count) : q.WellFormed := by
  apply WellFormed.of_views
  case ids_nodup =>
    rw [hids]
    exact h.ids_nodup
  case ids_lt =>
    rw [hids, hnext]
    exact h.id_lt_nextId
  case sequence_nodup =>
    intro parent ids hq
    obtain ⟨old, hp, hperm⟩ := hsequence parent ids hq
    exact hperm.nodup_iff.2 (h.sequence_nodup parent old hp)
  case mem_sequence =>
    intro parent ids hq id
    obtain ⟨old, hp, hperm⟩ := hsequence parent ids hq
    rw [hperm.mem_iff, hparent, h.mem_sequence_iff_parent? hp]
  case parent_live =>
    intro id parent hq
    exact hlive parent (h.isSome_of_parent? (hparent id ▸ hq))
  case parent_lt =>
    intro id loopId hq
    exact h.lt_of_parent? (hparent id ▸ hq)
  case count_pos => exact hcount

@[simp] theorem parent?_setSequence : (p.setSequence parent ids).parent? id = p.parent? id := by
  rw [parent?, get?_setSequence, parent?, Option.map_map]
  refine Option.map_congr fun node _ => ?_
  simp only [Function.comp_apply]
  split <;> simp

@[simp] theorem count?_setSequence : (p.setSequence parent ids).count? id = p.count? id := by
  rw [count?, get?_setSequence, count?]
  cases p.get? id with
  | none => rfl
  | some node =>
    obtain ⟨nodeId, nodeParent, op⟩ := node
    cases op <;> simp only [Option.map_some, Option.bind_some, Node.withBody] <;> split <;> rfl

@[simp] theorem kind?_setSequence : (p.setSequence parent ids).kind? id = p.kind? id := by
  rw [kind?, get?_setSequence, kind?, Option.map_map]
  refine Option.map_congr fun node _ => ?_
  simp only [Function.comp_apply]
  split <;> simp

theorem WellFormed.reorder (h : p.WellFormed) {source dest : Nat}
    (hreorder : p.reorder parent source dest = some q) : q.WellFormed := by
  obtain ⟨ids, moved, hids, hmoved, hdest, rfl⟩ := reorder_eq_some_iff.1 hreorder
  have hparent : (p.sequence? parent).isSome := Option.isSome_iff_exists.2 ⟨ids, hids⟩
  refine h.of_perm ids_setSequence nextId_setSequence (fun _ => parent?_setSequence) ?_ ?_ ?_
  · intro other new hnew
    rw [sequence?_setSequence hparent] at hnew
    split at hnew
    · rename_i heq
      obtain rfl := Option.some.inj hnew
      exact ⟨ids, heq ▸ hids, perm_move hmoved hdest⟩
    · exact ⟨new, hnew, .refl _⟩
  · intro other hlive
    rw [sequence?_setSequence hparent]
    split
    · rfl
    · exact hlive
  · intro id count hcount
    exact h.one_le_of_count? (count?_setSequence.symm.trans hcount)

theorem count?_recount {other : NodeId} {count n : Nat} (h : (p.recount id count ids).count? other = some n) :
    p.count? other = some n ∨ n = max count 1 := by
  rw [count?, get?_recount] at h
  obtain ⟨node', hnode', hop⟩ := Option.bind_eq_some_iff.1 h
  obtain ⟨node, hnode, rfl⟩ := Option.map_eq_some_iff.1 hnode'
  by_cases hother : other = id
  · rw [if_pos hother] at hop
    exact Or.inr (Option.some.inj hop).symm
  · rw [if_neg hother] at hop
    exact Or.inl (Option.bind_eq_some_iff.2 ⟨node, hnode, hop⟩)

@[simp] theorem parent?_recount {other : NodeId} {count : Nat} :
    (p.recount id count ids).parent? other = p.parent? other := by
  rw [parent?, get?_recount, parent?, Option.map_map]
  refine Option.map_congr fun node _ => ?_
  simp only [Function.comp_apply]
  split <;> rfl

/-- A loop that is given another repeat count stays a loop. -/
theorem kind?_recount {other : NodeId} {count : Nat} (hids : p.loopBody? id = some ids) :
    (p.recount id count ids).kind? other = p.kind? other := by
  rw [kind?, get?_recount, kind?, Option.map_map]
  refine Option.map_congr fun node hnode => ?_
  simp only [Function.comp_apply]
  split
  · rename_i hother
    obtain ⟨found, old, hfound, hop⟩ := loopBody?_eq_some_iff.1 hids
    obtain rfl : node = found := Option.some.inj (hnode.symm.trans (hother ▸ hfound))
    rw [hop]
    rfl
  · rfl

theorem WellFormed.setCount (h : p.WellFormed) {count : Nat}
    (hset : p.setCount id count = some q) : q.WellFormed := by
  obtain ⟨body, hbody, rfl⟩ := setCount_eq_some_iff.1 hset
  refine h.of_perm ?_ rfl (fun _ => parent?_recount) ?_ ?_ ?_
  · simp only [recount, modifyNode, List.map_map]
    refine List.map_congr_left fun node _ => ?_
    simp only [Function.comp_apply]
    split <;> rfl
  · intro other new hnew
    rw [sequence?_recount hbody] at hnew
    exact ⟨new, hnew, .refl _⟩
  · intro other hlive
    rwa [sequence?_recount hbody]
  · intro other count' hcount
    rcases count?_recount hcount with hold | rfl
    · exact h.one_le_of_count? hold
    · exact Nat.le_max_right _ _

/-! ## An instruction at the end of a sequence -/

theorem parent?_grow {op : Op} (hfresh : p.get? p.nextId = none) :
    (p.grow op parent ids).parent? id = if id = p.nextId then some parent else p.parent? id := by
  rw [parent?, get?_grow hfresh]
  by_cases hid : id = p.nextId
  · simp [hid]
  · rw [if_neg hid, if_neg hid]
    exact parent?_setSequence

theorem count?_grow {op : Op} (hfresh : p.get? p.nextId = none) :
    (p.grow op parent ids).count? id = if id = p.nextId then op.count? else p.count? id := by
  rw [count?, get?_grow hfresh]
  by_cases hid : id = p.nextId
  · simp [hid]
  · rw [if_neg hid, if_neg hid]
    exact count?_setSequence

theorem kind?_grow {op : Op} (hfresh : p.get? p.nextId = none) :
    (p.grow op parent ids).kind? id = if id = p.nextId then some op.kind else p.kind? id := by
  rw [kind?, get?_grow hfresh]
  by_cases hid : id = p.nextId
  · simp [hid]
  · rw [if_neg hid, if_neg hid]
    exact kind?_setSequence

theorem ids_grow {op : Op} :
    (p.grow op parent ids).nodes.map (·.id) = p.nodes.map (·.id) ++ [p.nextId] := by
  simp only [grow, List.map_append, ids_setSequence, List.map_cons, List.map_nil]

namespace WellFormed

theorem sequence?_nextId (h : p.WellFormed) : p.sequence? (some p.nextId) = none := by
  rw [sequence?, loopBody?_eq_bind, h.get?_nextId, Option.bind_none]

theorem parent?_nextId (h : p.WellFormed) : p.parent? p.nextId = none := by
  rw [parent?, h.get?_nextId, Option.map_none]

/-- The next id is the parent of no instruction. -/
theorem parent?_ne_nextId (h : p.WellFormed) (id : NodeId) : p.parent? id ≠ some (some p.nextId) := by
  intro hid
  have hlive := h.isSome_of_parent? hid
  simp [h.sequence?_nextId] at hlive

theorem ne_nextId_of_sequence? (h : p.WellFormed) (hids : p.sequence? parent = some ids) :
    parent ≠ some p.nextId := by
  rintro rfl
  simp [h.sequence?_nextId] at hids

theorem nextId_notMem (h : p.WellFormed) (hids : p.sequence? parent = some ids) : p.nextId ∉ ids := by
  rw [h.mem_sequence_iff_parent? hids, h.parent?_nextId]
  simp

private theorem mem_sequence_grow (h : p.WellFormed) {op : Op} (hids : p.sequence? parent = some ids)
    (hbody : ∀ ids, op.body? = some ids → ids = []) {other : Option NodeId} {new : List NodeId}
    (hnew : (p.grow op parent ids).sequence? other = some new) (i : NodeId) :
    i ∈ new ↔ (p.grow op parent ids).parent? i = some other := by
  have hparent := h.ne_nextId_of_sequence? hids
  rw [sequence?_grow h.get?_nextId hids] at hnew
  rw [parent?_grow h.get?_nextId]
  by_cases hinside : other = some p.nextId
  · -- nothing stands in the new instruction
    rw [if_pos hinside] at hnew
    rw [hbody new hnew, hinside]
    by_cases hi : i = p.nextId
    · simp [hi, hparent]
    · simp [hi, h.parent?_ne_nextId i]
  · rw [if_neg hinside] at hnew
    by_cases hother : other = parent
    · rw [if_pos hother] at hnew
      obtain rfl := Option.some.inj hnew
      rw [List.mem_append, List.mem_singleton, h.mem_sequence_iff_parent? hids, hother]
      by_cases hi : i = p.nextId
      · simp [hi]
      · simp [hi]
    · rw [if_neg hother] at hnew
      rw [h.mem_sequence_iff_parent? hnew]
      by_cases hi : i = p.nextId
      · simp [hi, h.parent?_nextId, Ne.symm hother]
      · simp [hi]

/-- An instruction without anything in it can be put at the end of every sequence. -/
theorem insert (h : p.WellFormed) {op : Op} (hbody : ∀ ids, op.body? = some ids → ids = [])
    (hcount : ∀ count, op.count? = some count → 1 ≤ count)
    (hinsert : p.insert op parent = some (id, q)) : q.WellFormed := by
  obtain ⟨rfl, ids, hids, rfl⟩ := insert_eq_some_iff.1 hinsert
  have hfresh := h.get?_nextId
  apply WellFormed.of_views
  case ids_nodup =>
    rw [ids_grow, List.nodup_append]
    refine ⟨h.ids_nodup, List.nodup_singleton _, ?_⟩
    intro i hi j hj
    rw [List.mem_singleton.1 hj]
    exact Nat.ne_of_lt (h.id_lt_nextId i hi)
  case ids_lt =>
    intro i hi
    rw [ids_grow, List.mem_append, List.mem_singleton] at hi
    rcases hi with hold | rfl
    · exact Nat.lt_succ_of_lt (h.id_lt_nextId i hold)
    · exact Nat.lt_succ_self _
  case sequence_nodup =>
    intro other new hnew
    rw [sequence?_grow hfresh hids] at hnew
    split at hnew
    · rw [hbody new hnew]
      exact List.nodup_nil
    · split at hnew
      · obtain rfl := Option.some.inj hnew
        rw [← List.concat_eq_append, List.nodup_concat]
        exact ⟨h.nextId_notMem hids, h.sequence_nodup parent ids hids⟩
      · exact h.sequence_nodup other new hnew
  case mem_sequence => exact fun _ _ hnew => h.mem_sequence_grow hids hbody hnew
  case parent_live =>
    intro i other hi
    rw [parent?_grow hfresh] at hi
    rw [sequence?_grow hfresh hids]
    by_cases hother : other = parent
    · subst hother
      rw [if_neg (h.ne_nextId_of_sequence? hids), if_pos rfl]
      rfl
    · have hold : p.parent? i = some other := by
        by_cases hi' : i = p.nextId
        · rw [if_pos hi'] at hi
          exact absurd (Option.some.inj hi).symm hother
        · rwa [if_neg hi'] at hi
      -- the new instruction is nobody's parent yet
      have hne : other ≠ some p.nextId := fun heq => h.parent?_ne_nextId i (heq ▸ hold)
      rw [if_neg hne, if_neg hother]
      exact h.isSome_of_parent? hold
  case parent_lt =>
    intro i loopId hi
    rw [parent?_grow hfresh] at hi
    split at hi
    · rename_i hnew
      obtain rfl := Option.some.inj hi
      obtain ⟨node, count, hget, -⟩ := loopBody?_eq_some_iff.1 hids
      have hlt := h.ids_lt node (mem_of_get? hget)
      rwa [id_of_get? hget, ← hnew] at hlt
    · exact h.lt_of_parent? hi
  case count_pos =>
    intro i count hi
    rw [count?_grow hfresh] at hi
    split at hi
    · exact hcount count hi
    · exact h.one_le_of_count? hi

/-- A new instruction of any kind can be put at the end of every sequence. -/
theorem insert_ofKind (h : p.WellFormed) {kind : Kind} {count : Nat}
    (hinsert : p.insert (.ofKind kind count) parent = some (id, q)) : q.WellFormed := by
  refine h.insert ?_ ?_ hinsert
  · intro ids hbody
    cases hkind : kind.command? with
    | some c => simp [Op.ofKind, hkind, Op.body?] at hbody
    | none =>
      simp only [Op.ofKind, hkind, Op.body?, Option.some.injEq] at hbody
      exact hbody.symm
  · intro count' hcount
    rw [Op.count?_ofKind hcount]
    exact Nat.le_max_right _ _

end WellFormed

/-! ## A subtree taken out -/

theorem parent?_prune (gone : List NodeId) :
    (p.prune gone).parent? id = if id ∈ gone then none else p.parent? id := by
  rw [parent?, get?_prune]
  split <;> rfl

theorem count?_prune (gone : List NodeId) :
    (p.prune gone).count? id = if id ∈ gone then none else p.count? id := by
  rw [count?, get?_prune]
  split <;> rfl

theorem kind?_prune (gone : List NodeId) :
    (p.prune gone).kind? id = if id ∈ gone then none else p.kind? id := by
  rw [kind?, get?_prune]
  split <;> rfl

theorem ids_prune (gone : List NodeId) :
    (p.prune gone).nodes.map (·.id) = (p.nodes.map (·.id)).filter (· ∉ gone) := by
  rw [prune, List.filter_map]
  rfl

namespace WellFormed

theorem mem_subtree_iff (h : p.WellFormed) (hlive : (p.get? id).isSome) {x : NodeId} :
    x ∈ p.subtree id ↔ p.Encloses id x := by
  rw [subtree, h.mem_walkFrom_iff]
  simp [hlive]

/-- What goes with an instruction: itself, and what names a parent that goes. -/
theorem mem_subtree_iff_parent? (h : p.WellFormed) (hlive : (p.get? id).isSome) {x : NodeId}
    (hparent : p.parent? x = some parent) :
    x ∈ p.subtree id ↔ x = id ∨ ∃ loopId ∈ p.subtree id, parent = some loopId := by
  rw [h.mem_subtree_iff hlive]
  constructor
  · intro hencloses
    rcases hencloses.cases_tail with rfl | ⟨loopId, hloop, hholds⟩
    · exact Or.inl rfl
    · exact Or.inr ⟨loopId, (h.mem_subtree_iff hlive).2 hloop,
        Option.some.inj (hparent.symm.trans (h.holds_iff.1 hholds))⟩
  · rintro (rfl | ⟨loopId, hloop, rfl⟩)
    · exact .refl
    · exact ((h.mem_subtree_iff hlive).1 hloop).tail (h.holds_iff.2 hparent)

/-- Every sequence that is left is the old one without the instruction taken out. -/
theorem sequence?_remove (h : p.WellFormed) (hget : p.get? id = some node)
    (hids : p.sequence? node.parent = some ids) {other : Option NodeId} :
    ((p.setSequence node.parent (ids.filter (· ≠ id))).prune (p.subtree id)).sequence? other =
      if ∃ i ∈ p.subtree id, other = some i then none
      else (p.sequence? other).map (·.filter (· ≠ id)) := by
  rw [sequence?_prune, sequence?_setSequence (by rw [hids]; rfl)]
  congr 1
  by_cases hother : other = node.parent
  · rw [if_pos hother, hother, hids, Option.map_some]
  · rw [if_neg hother]
    cases hold : p.sequence? other with
    | none => rfl
    | some old =>
      have hid : id ∉ old := by
        rw [h.mem_sequence_iff_parent? hold, parent?, hget]
        simpa using Ne.symm hother
      rw [Option.map_some, List.filter_eq_self.2]
      intro i hi
      rw [decide_eq_true_eq]
      rintro rfl
      exact hid hi

theorem remove (h : p.WellFormed) (hremove : p.remove id = some q) : q.WellFormed := by
  obtain ⟨node, ids, hget, hids, rfl⟩ := remove_eq_some_iff.1 hremove
  have hlive : (p.get? id).isSome := by simp [hget]
  -- a node is left over exactly if it is neither the one taken out nor under a parent that goes
  have hparent : ∀ {i other}, p.parent? i = some other →
      (i ∈ p.subtree id ↔ i = id ∨ ∃ loopId ∈ p.subtree id, other = some loopId) :=
    fun hi => h.mem_subtree_iff_parent? hlive hi
  apply WellFormed.of_views
  case ids_nodup =>
    rw [ids_prune, ids_setSequence]
    exact h.ids_nodup.filter _
  case ids_lt =>
    intro i hi
    rw [ids_prune, ids_setSequence] at hi
    show i < (p.setSequence node.parent _).nextId
    rw [nextId_setSequence]
    exact h.id_lt_nextId i (List.mem_of_mem_filter hi)
  case sequence_nodup =>
    intro other new hnew
    rw [h.sequence?_remove hget hids] at hnew
    split at hnew
    · simp at hnew
    · obtain ⟨old, hold, rfl⟩ := Option.map_eq_some_iff.1 hnew
      exact (h.sequence_nodup other old hold).filter _
  case mem_sequence =>
    -- a sequence that is left loses the one id that is taken out, and all its others stay live
    intro other new hnew i
    rw [h.sequence?_remove hget hids] at hnew
    rw [parent?_prune, parent?_setSequence]
    split at hnew
    · simp at hnew
    · rename_i hkept
      obtain ⟨old, hold, rfl⟩ := Option.map_eq_some_iff.1 hnew
      rw [List.mem_filter, decide_eq_true_eq, h.mem_sequence_iff_parent? hold]
      constructor
      · rintro ⟨hi, hne⟩
        have hstays : i ∉ p.subtree id := by
          rw [hparent hi]
          exact not_or.2 ⟨hne, hkept⟩
        rw [if_neg hstays, hi]
      · intro hi
        split at hi
        · simp at hi
        · rename_i hstays
          rw [hparent hi] at hstays
          exact ⟨hi, fun heq => hstays (Or.inl heq)⟩
  case parent_live =>
    intro i other hi
    rw [parent?_prune, parent?_setSequence] at hi
    rw [h.sequence?_remove hget hids]
    split at hi
    · simp at hi
    · rename_i hstays
      rw [hparent hi] at hstays
      rw [if_neg fun hgone => hstays (Or.inr hgone), Option.isSome_map]
      exact h.isSome_of_parent? hi
  case parent_lt =>
    intro i loopId hi
    rw [parent?_prune, parent?_setSequence] at hi
    split at hi
    · simp at hi
    · exact h.lt_of_parent? hi
  case count_pos =>
    intro i count hi
    rw [count?_prune, count?_setSequence] at hi
    split at hi
    · simp at hi
    · exact h.one_le_of_count? hi

end WellFormed

/-! ## Every edit -/

namespace WellFormed

theorem of_nil (hnodes : p.nodes = []) (hroots : p.roots = []) : p.WellFormed := by
  have hget : ∀ i, p.get? i = none := by
    intro i
    rw [get?, hnodes, List.find?_nil]
  have hparent : ∀ i, p.parent? i = none := by
    intro i
    rw [parent?, hget, Option.map_none]
  have hsequence : ∀ parent ids, p.sequence? parent = some ids → ids = [] := by
    intro parent ids hids
    cases parent with
    | none => rwa [sequence?_none, hroots, Option.some.injEq, eq_comm] at hids
    | some loopId => simp [sequence?, loopBody?_eq_bind, hget] at hids
  apply WellFormed.of_views
  case ids_nodup =>
    simp [hnodes]
  case ids_lt =>
    simp [hnodes]
  case sequence_nodup =>
    intro parent ids hids
    rw [hsequence parent ids hids]
    exact List.nodup_nil
  case mem_sequence =>
    intro parent ids hids id
    simp [hsequence parent ids hids, hparent]
  case parent_live =>
    simp [hparent]
  case parent_lt =>
    simp [hparent]
  case count_pos =>
    simp [count?, hget]

/-- An edit of a well-formed program leaves a well-formed program, whether it applies or not. -/
theorem perform (h : p.WellFormed) (e : Edit) : (e.perform p).2.WellFormed := by
  cases e with
  | append kind parent => exact Edit.ofAddition_induction h fun _ _ hq => h.insert_ofKind hq
  | appendLoop count parent => exact Edit.ofAddition_induction h fun _ _ hq => h.insert_ofKind hq
  | remove id => exact Edit.ofChange_induction h fun _ hq => h.remove hq
  | clear => exact of_nil rfl rfl
  | reorder parent source dest => exact Edit.ofChange_induction h fun _ hq => h.reorder hq
  | setCount id count => exact Edit.ofChange_induction h fun _ hq => h.setCount hq

end WellFormed

theorem Authored.wellFormed (h : p.Authored) : p.WellFormed :=
  h.induction (P := WellFormed) (WellFormed.of_nil rfl rfl) fun _ e hq => hq.perform e

/-! ## A finite forest -/

/-- The arena of a program is a finite forest under the top level. -/
structure IsForest (p : Program) : Prop where
  /-- Every node is stored once, under its own id, and ids in use are below the next one. -/
  own_id : ∀ node ∈ p.nodes, p.get? node.id = some node ∧ node.id < p.nextId
  ids_nodup : (p.nodes.map (·.id)).Nodup
  /-- The top level and the bodies of loops list live ids, and none of them twice. -/
  sequence_live : ∀ parent ids, p.sequence? parent = some ids →
    ids.Nodup ∧ ∀ id ∈ ids, (p.get? id).isSome
  /-- A node stands in the sequence its parent names, which exists, and in no other. -/
  one_sequence : ∀ node ∈ p.nodes, ∀ parent,
    (∃ ids, p.sequence? parent = some ids ∧ node.id ∈ ids) ↔ parent = node.parent
  reachable : ∀ node ∈ p.nodes, ∃ root ∈ p.roots, p.Encloses root node.id
  child_after_parent : ∀ loopId id, p.Holds loopId id → loopId < id
  acyclic : ∀ id, ¬ Relation.TransGen p.Holds id id
  /-- Going from a loop to what stands in it comes to an end. -/
  wellFounded : WellFounded fun id loopId => p.Holds loopId id
  /-- No walk is cut off: going deeper than there are nodes finds nothing more. -/
  walks_end : ∀ depth, p.nodeCount ≤ depth → ∀ ids,
    p.forestFrom depth ids = p.forestFrom p.nodeCount ids ∧
    p.walkFrom depth ids = p.walkFrom p.nodeCount ids ∧
    p.unrollFrom depth ids = p.unrollFrom p.nodeCount ids ∧
    p.unrolledLengthFrom depth ids = p.unrolledLengthFrom p.nodeCount ids
  count_pos : ∀ node ∈ p.nodes, ∀ count ids, node.op = .loop count ids → 1 ≤ count
  /-- The walk from the top level meets every node once. -/
  walk_perm : p.walk.Perm (p.nodes.map (·.id))
  nodeCount_eq : p.nodeCount = p.walk.length

theorem WellFormed.isForest (h : p.WellFormed) : p.IsForest where
  own_id node hnode := ⟨h.get?_of_mem hnode, h.ids_lt node hnode⟩
  ids_nodup := h.ids_nodup
  sequence_live parent ids hids :=
    ⟨h.sequence_nodup parent ids hids, fun _ hid => h.isSome_of_mem_sequence hids hid⟩
  one_sequence := by
    intro node hnode parent
    have hnamed : p.parent? node.id = some node.parent :=
      parent?_eq_some_iff.2 ⟨node, h.get?_of_mem hnode, rfl⟩
    constructor
    · rintro ⟨ids, hids, hid⟩
      exact Option.some.inj (((h.mem_sequence_iff_parent? hids).1 hid).symm.trans hnamed)
    · rintro rfl
      obtain ⟨ids, hids⟩ := Option.isSome_iff_exists.1 (h.parent_live node hnode)
      exact ⟨ids, hids, (h.mem_sequence_iff_parent? hids).2 hnamed⟩
  reachable := by
    intro node hnode
    have hlive : (p.get? node.id).isSome := by rw [h.get?_of_mem hnode]; rfl
    obtain ⟨root, hroot, -, hencloses⟩ := h.exists_root_encloses hlive
    exact ⟨root, hroot, hencloses⟩
  child_after_parent _ _ hholds := h.lt_of_holds hholds
  acyclic := by
    intro id hcycle
    obtain ⟨loopId, hholds, hencloses⟩ := Relation.TransGen.head'_iff.1 hcycle
    exact absurd (h.le_of_encloses hencloses) (Nat.not_le.2 (h.lt_of_holds hholds))
  wellFounded := h.wellFounded_holds
  walks_end := by
    intro depth hdepth ids
    have hforest := h.forestFrom_eq hdepth ids
    refine ⟨hforest, ?_, ?_, ?_⟩
    · rw [← labels_forestFrom, hforest, labels_forestFrom]
    · rw [← unroll_forestFrom, hforest, unroll_forestFrom]
    · rw [← unrolledLength_forestFrom, hforest, unrolledLength_forestFrom]
  count_pos := h.count_pos
  walk_perm := h.walk_perm
  nodeCount_eq := by rw [h.walk_perm.length_eq, List.length_map]; rfl

/-- Whatever operations build a program, and however many of them apply, its arena is a finite
forest under the top level. -/
theorem isForest_afterEdits (edits : List Edit) : (empty.afterEdits edits).IsForest :=
  WellFormed.isForest (Authored.wellFormed ⟨edits, rfl⟩)

end Program

end RobotPuzzle
