import Mathlib.Data.List.Find
import Mathlib.Data.List.Nodup
import Mathlib.Data.List.Perm.Basic
import Mathlib.Data.Option.Basic
import RobotPuzzle.Program.Edit

/-!
# Looking up after an edit

What an edit does to a program is told by views of it: the node behind an id, the parent it names, and
the sequence under a parent. Each edit gets its equations for node and sequence here, and nothing else
opens the list of nodes.

## Main definitions

- `Program.parent?` — the parent of a live node

## Main statements

- `Program.get?_setSequence`, `Program.sequence?_setSequence` — another sequence under a parent
- `Program.get?_grow`, `Program.sequence?_grow` — an instruction at the end of a sequence
- `Program.remove_eq_some_iff`, `Program.get?_prune`, `Program.sequence?_prune` — a subtree taken out
- `Program.get?_recount`, `Program.sequence?_recount` — another repeat count
-/

namespace RobotPuzzle

namespace Node

@[simp] theorem id_withBody (node : Node) (ids : List NodeId) : (node.withBody ids).id = node.id := by
  unfold withBody
  split <;> rfl

@[simp] theorem parent_withBody (node : Node) (ids : List NodeId) :
    (node.withBody ids).parent = node.parent := by
  unfold withBody
  split <;> rfl

@[simp] theorem kind_withBody (node : Node) (ids : List NodeId) :
    (node.withBody ids).op.kind = node.op.kind := by
  obtain ⟨id, parent, op⟩ := node
  cases op <;> rfl

end Node

/-- The body of a loop; a command has none. -/
def Op.body? : Op → Option (List NodeId)
  | .command _ => none
  | .loop _ ids => some ids

namespace Program

variable {p q : Program} {id : NodeId} {parent : Option NodeId} {ids : List NodeId} {node : Node}

/-! ## The views -/

/-- What a live node names as its parent: the top level, or a loop. -/
def parent? (p : Program) (id : NodeId) : Option (Option NodeId) := (p.get? id).map (·.parent)

theorem parent?_eq_some_iff :
    p.parent? id = some parent ↔ ∃ node, p.get? id = some node ∧ node.parent = parent := by
  rw [parent?, Option.map_eq_some_iff]

theorem isSome_of_parent?_eq_some (h : p.parent? id = some parent) : (p.get? id).isSome := by
  obtain ⟨node, hget, -⟩ := parent?_eq_some_iff.1 h
  rw [hget]
  rfl

/-- Where no id is used twice, a node is found under its own id. -/
theorem get?_of_mem_of_nodup (hnodup : (p.nodes.map (·.id)).Nodup) (hnode : node ∈ p.nodes) :
    p.get? node.id = some node := by
  have hsome : (p.get? node.id).isSome := by
    rw [get?, List.find?_isSome]
    exact ⟨node, hnode, by simp⟩
  obtain ⟨other, hother⟩ := Option.isSome_iff_exists.1 hsome
  rw [hother, List.inj_on_of_nodup_map hnodup (mem_of_get? hother) hnode (id_of_get? hother)]

theorem loopBody?_eq_some_iff :
    p.loopBody? id = some ids ↔ ∃ node count, p.get? id = some node ∧ node.op = .loop count ids := by
  unfold loopBody?
  constructor
  · intro h
    split at h
    · rename_i nodeId nodeParent count body hget
      obtain rfl := Option.some.inj h
      exact ⟨_, count, hget, rfl⟩
    · simp at h
  · rintro ⟨⟨nodeId, nodeParent, op⟩, count, hget, hop⟩
    simp only at hop
    subst hop
    rw [hget]

theorem loopBody?_eq_bind (p : Program) (id : NodeId) :
    p.loopBody? id = (p.get? id).bind (·.op.body?) := by
  unfold loopBody?
  cases p.get? id with
  | none => rfl
  | some node =>
    obtain ⟨nodeId, nodeParent, op⟩ := node
    cases op <;> rfl

/-- The body of a node is what stands under its id. -/
theorem children_of_get? (h : p.get? id = some node) : p.children id = node.op.body := by
  rw [children, loopBody?_eq_bind, h]
  cases hop : node.op <;> simp [hop, Op.body?, Op.body]

/-! ## Another sequence under a parent -/

theorem get?_modifyNode {f : Node → Node} (hf : ∀ node : Node, (f node).id = node.id) (i : NodeId) :
    (p.modifyNode i f).get? id = (p.get? id).map fun node => if node.id = i then f node else node := by
  have hid : ∀ node : Node, (if node.id = i then f node else node).id = node.id := by
    intro node
    split
    · exact hf node
    · rfl
  simp only [modifyNode, get?, List.find?_map, Function.comp_def, hid]

theorem get?_setSequence :
    (p.setSequence parent ids).get? id =
      (p.get? id).map fun node => if parent = some id then node.withBody ids else node := by
  cases parent with
  | none => simp [setSequence, get?]
  | some loopId =>
    rw [setSequence, get?_modifyNode (fun node => node.id_withBody ids)]
    refine Option.map_congr fun node hnode => ?_
    rw [id_of_get? hnode]
    simp [eq_comm]

theorem ids_setSequence :
    (p.setSequence parent ids).nodes.map (·.id) = p.nodes.map (·.id) := by
  cases parent with
  | none => rfl
  | some loopId =>
    simp only [setSequence, modifyNode, List.map_map]
    refine List.map_congr_left fun node _ => ?_
    simp only [Function.comp_apply]
    split <;> simp

@[simp] theorem nodeCount_setSequence : (p.setSequence parent ids).nodeCount = p.nodeCount := by
  have hlength : ((p.setSequence parent ids).nodes.map (·.id)).length = (p.nodes.map (·.id)).length :=
    congrArg List.length ids_setSequence
  rwa [List.length_map, List.length_map] at hlength

@[simp] theorem nextId_setSequence : (p.setSequence parent ids).nextId = p.nextId := by
  cases parent <;> rfl

/-- The sequence under the parent is replaced, and every other stays. -/
theorem sequence?_setSequence (h : (p.sequence? parent).isSome) (other : Option NodeId) :
    (p.setSequence parent ids).sequence? other =
      if other = parent then some ids else p.sequence? other := by
  cases other with
  | none =>
    cases parent with
    | none => simp [setSequence]
    | some loopId => rfl
  | some i =>
    simp only [sequence?]
    split
    · rename_i hparent
      subst hparent
      obtain ⟨old, hold⟩ := Option.isSome_iff_exists.1 h
      obtain ⟨node, count, hget, hop⟩ := loopBody?_eq_some_iff.1 hold
      refine loopBody?_eq_some_iff.2 ⟨node.withBody ids, count, ?_, ?_⟩
      · simp [get?_setSequence, hget]
      · simp [Node.withBody, hop]
    · rename_i hne
      rw [loopBody?_eq_bind, loopBody?_eq_bind, get?_setSequence]
      simp [Ne.symm hne]

/-! ## An instruction at the end of a sequence -/

/-- The program with one more instruction at the end of the sequence `ids` under a parent. -/
def grow (p : Program) (op : Op) (parent : Option NodeId) (ids : List NodeId) : Program :=
  let q := p.setSequence parent (ids ++ [p.nextId])
  { q with nodes := q.nodes ++ [⟨p.nextId, parent, op⟩], nextId := p.nextId + 1 }

theorem insert_eq_some_iff {op : Op} :
    p.insert op parent = some (id, q) ↔
      id = p.nextId ∧ ∃ ids, p.sequence? parent = some ids ∧ q = p.grow op parent ids := by
  unfold insert
  rw [Option.map_eq_some_iff]
  constructor
  · rintro ⟨ids, hids, heq⟩
    simp only [Prod.mk.injEq] at heq
    exact ⟨heq.1.symm, ids, hids, heq.2.symm⟩
  · rintro ⟨rfl, ids, hids, rfl⟩
    exact ⟨ids, hids, rfl⟩

theorem get?_grow {op : Op} (hfresh : p.get? p.nextId = none) :
    (p.grow op parent ids).get? id =
      if id = p.nextId then some ⟨p.nextId, parent, op⟩
      else (p.setSequence parent (ids ++ [p.nextId])).get? id := by
  have happend : (p.grow op parent ids).get? id =
      ((p.setSequence parent (ids ++ [p.nextId])).get? id).or
        (if p.nextId = id then some ⟨p.nextId, parent, op⟩ else none) := by
    simp only [grow, get?, List.find?_append, List.find?_singleton, decide_eq_true_eq]
  rw [happend]
  by_cases h : id = p.nextId
  · subst h
    simp [get?_setSequence, hfresh]
  · simp [h, Ne.symm h]

theorem sequence?_grow {op : Op} (hfresh : p.get? p.nextId = none)
    (hids : p.sequence? parent = some ids) (other : Option NodeId) :
    (p.grow op parent ids).sequence? other =
      if other = some p.nextId then op.body?
      else if other = parent then some (ids ++ [p.nextId]) else p.sequence? other := by
  have hset : (p.setSequence parent (ids ++ [p.nextId])).sequence? other =
      if other = parent then some (ids ++ [p.nextId]) else p.sequence? other :=
    sequence?_setSequence (Option.isSome_iff_exists.2 ⟨ids, hids⟩) other
  cases other with
  | none => simpa [grow] using hset
  | some i =>
    rw [sequence?, loopBody?_eq_bind, get?_grow hfresh]
    by_cases hi : i = p.nextId
    · simp [hi]
    · rw [if_neg hi, ← loopBody?_eq_bind, if_neg (by simpa using hi)]
      exact hset

/-! ## A subtree taken out -/

/-- The program without the nodes of some ids. -/
def prune (p : Program) (gone : List NodeId) : Program :=
  { p with nodes := p.nodes.filter (·.id ∉ gone) }

theorem remove_eq_some_iff :
    p.remove id = some q ↔ ∃ node siblings, p.get? id = some node ∧
      p.sequence? node.parent = some siblings ∧
      q = (p.setSequence node.parent (siblings.filter (· ≠ id))).prune (p.subtree id) := by
  unfold remove
  simp only [Option.bind_eq_bind, Option.bind_eq_some_iff, Option.some.injEq]
  constructor
  · rintro ⟨node, hnode, siblings, hsiblings, rfl⟩
    exact ⟨node, siblings, hnode, hsiblings, rfl⟩
  · rintro ⟨node, siblings, hnode, hsiblings, rfl⟩
    exact ⟨node, hnode, siblings, hsiblings, rfl⟩

theorem get?_prune (gone : List NodeId) :
    (p.prune gone).get? id = if id ∈ gone then none else p.get? id := by
  simp only [prune, get?, List.find?_filter]
  split
  · rename_i hgone
    rw [List.find?_eq_none]
    intro node _ h
    simp only [decide_not, Bool.not_eq_true', decide_eq_false_iff_not, decide_eq_true_eq] at h
    exact h.1 (h.2 ▸ hgone)
  · rename_i hkept
    refine List.find?_congr fun node _ => ?_
    by_cases h : node.id = id
    · simp [h, hkept]
    · simp [h]

theorem sequence?_prune (gone : List NodeId) (other : Option NodeId) :
    (p.prune gone).sequence? other =
      if ∃ i ∈ gone, other = some i then none else p.sequence? other := by
  cases other with
  | none => simp [prune]
  | some i =>
    rw [sequence?, loopBody?_eq_bind, get?_prune]
    by_cases hi : i ∈ gone
    · simp [hi]
    · simp [hi, ← loopBody?_eq_bind, sequence?]

/-! ## Another repeat count -/

/-- The program with another repeat count, and the body it has, at a loop. -/
def recount (p : Program) (id : NodeId) (count : Nat) (body : List NodeId) : Program :=
  p.modifyNode id fun node => { node with op := .loop (max count 1) body }

theorem setCount_eq_some_iff {count : Nat} :
    p.setCount id count = some q ↔
      ∃ body, p.loopBody? id = some body ∧ q = p.recount id count body := by
  unfold setCount
  simp only [Option.bind_eq_bind, Option.bind_eq_some_iff, Option.some.injEq]
  constructor
  · rintro ⟨body, hbody, rfl⟩
    exact ⟨body, hbody, rfl⟩
  · rintro ⟨body, hbody, rfl⟩
    exact ⟨body, hbody, rfl⟩

theorem get?_recount (count : Nat) (body : List NodeId) (other : NodeId) :
    (p.recount id count body).get? other = (p.get? other).map fun node =>
      if other = id then { node with op := .loop (max count 1) body } else node := by
  rw [recount, get?_modifyNode (by simp)]
  refine Option.map_congr fun node hnode => ?_
  rw [id_of_get? hnode]

theorem sequence?_recount {count : Nat} {body : List NodeId} (hbody : p.loopBody? id = some body)
    (other : Option NodeId) : (p.recount id count body).sequence? other = p.sequence? other := by
  cases other with
  | none => rfl
  | some i =>
    simp only [sequence?]
    rw [loopBody?_eq_bind, get?_recount]
    by_cases hi : i = id
    · subst hi
      obtain ⟨node, count', hget, hop⟩ := loopBody?_eq_some_iff.1 hbody
      simp [hget, hbody, Op.body?]
    · simp [hi, ← loopBody?_eq_bind]

/-! ## Another order -/

theorem reorder_eq_some_iff {source dest : Nat} :
    p.reorder parent source dest = some q ↔ ∃ ids moved, p.sequence? parent = some ids ∧
      ids[source]? = some moved ∧ dest < ids.length ∧
      q = p.setSequence parent ((ids.eraseIdx source).insertIdx dest moved) := by
  unfold reorder
  simp only [Option.bind_eq_bind, Option.bind_eq_some_iff, Option.some.injEq, Option.guard_eq_some']
  constructor
  · rintro ⟨ids, hids, moved, hmoved, _, hdest, rfl⟩
    exact ⟨ids, moved, hids, hmoved, hdest, rfl⟩
  · rintro ⟨ids, moved, hids, hmoved, hdest, rfl⟩
    exact ⟨ids, hids, moved, hmoved, (), hdest, rfl⟩

/-- Moving an element keeps the elements of a sequence. -/
theorem perm_move {source dest : Nat} {moved : NodeId} (hmoved : ids[source]? = some moved)
    (hdest : dest < ids.length) : ((ids.eraseIdx source).insertIdx dest moved).Perm ids := by
  obtain ⟨hsource, rfl⟩ := List.getElem?_eq_some_iff.1 hmoved
  have hlength : dest ≤ (ids.eraseIdx source).length := by
    rw [List.length_eraseIdx_of_lt hsource]
    omega
  exact (List.perm_insertIdx _ _ hlength).trans (List.getElem_cons_eraseIdx_perm hsource)

end Program

end RobotPuzzle
