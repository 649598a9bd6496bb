import RobotPuzzle.Program.Forest

/-!
# Programs

A program while it is being edited. Every instruction is a node with an id of its own, handed out in
order and never used twice; a node names the loop it stands in, and a loop lists the ids of its body.
An edit thus touches one sequence and leaves every other id valid.

## Main definitions

- `Program` — nodes, top-level sequence and next free id
- `Program.get?`, `Program.sequence?` — a node, and the sequence of ids under a parent
- `Program.append`, `Program.remove`, `Program.clear`, `Program.reorder`, `Program.setCount` — edits
- `Program.forest` — the program as a tree
- `Program.walk` — the ids reached from the top level
- `Program.WellFormed` — parents, sequences and nodes agree

## Design notes

An edit that does not apply returns `none`, so "the program is unchanged" needs no statement.
The walks over a program go down at most as many levels as it has nodes, which is what bounds their
recursion: for a well-formed program this cuts nothing off.
-/

namespace RobotPuzzle

/-- The identity of an instruction. -/
abbrev NodeId := Nat

/-- What an instruction does. -/
inductive Op
  | command (c : Command)
  | loop (count : Nat) (body : List NodeId)
deriving DecidableEq, Repr

namespace Op

/-- The kind of an instruction. -/
def kind : Op → Kind
  | command c => c.kind
  | loop _ _ => .loop

/-- The ids of the body; a command has none. -/
def body : Op → List NodeId
  | command _ => []
  | loop _ ids => ids

/-- A new instruction of a kind. A loop starts without a body and repeats at least once. -/
def ofKind (k : Kind) (count : Nat) : Op :=
  match k.command? with
  | some c => command c
  | none => loop (max count 1) []

end Op

/-- An instruction of a program. -/
structure Node where
  id : NodeId
  /-- The loop the instruction stands in, if any. -/
  parent : Option NodeId
  op : Op
deriving DecidableEq, Repr

/-- The node with another body; a command stays as it is. -/
def Node.withBody (node : Node) (ids : List NodeId) : Node :=
  match node.op with
  | .command _ => node
  | .loop count _ => { node with op := .loop count ids }

/-- A program being edited. -/
structure Program where
  nodes : List Node
  roots : List NodeId
  nextId : NodeId
deriving DecidableEq, Repr

namespace Program

/-- The program without instructions. -/
def empty : Program := ⟨[], [], 0⟩

instance : Inhabited Program := ⟨empty⟩

/-- The repeat count of a loop made without one. -/
def defaultCount : Nat := 3

/-! ## Looking up -/

/-- The node with an id, if it is live. -/
def get? (p : Program) (id : NodeId) : Option Node :=
  p.nodes.find? (·.id = id)

/-- The body of a live loop. -/
def loopBody? (p : Program) (id : NodeId) : Option (List NodeId) :=
  match p.get? id with
  | some ⟨_, _, .loop _ ids⟩ => some ids
  | _ => none

/-- The ids under a parent: the top level, or the body of a live loop. -/
def sequence? (p : Program) : Option NodeId → Option (List NodeId)
  | none => some p.roots
  | some id => p.loopBody? id

/-- The body of a loop, and nothing for any other id. -/
def children (p : Program) (id : NodeId) : List NodeId :=
  (p.loopBody? id).getD []

/-- The number of top-level instructions. -/
def length (p : Program) : Nat := p.roots.length

/-- There is no top-level instruction. -/
def isEmpty (p : Program) : Bool := p.roots.isEmpty

/-- The number of instructions, nested ones included. -/
def nodeCount (p : Program) : Nat := p.nodes.length

/-- The kinds in use, in the order of `Kind.all`. -/
def kindsUsed (p : Program) : List Kind :=
  Kind.all.filter fun k => p.nodes.any (·.op.kind = k)

/-! ## Walking -/

/-- The ids reached from a sequence, each before what stands in it, through at most `depth` levels. -/
def walkFrom (p : Program) : Nat → List NodeId → List NodeId
  | 0, _ => []
  | depth + 1, ids => ids.flatMap fun id =>
    match p.get? id with
    | none => []
    | some node => id :: walkFrom p depth node.op.body

/-- The ids reached from the top level, each before what stands in it. -/
def walk (p : Program) : List NodeId := p.walkFrom p.nodeCount p.roots

/-- The tree under a sequence of ids, through at most `depth` levels. -/
def forestFrom (p : Program) : Nat → List NodeId → Forest NodeId
  | 0, _ => .nil
  | depth + 1, ids => ids.foldr (fun id rest =>
    match p.get? id with
    | none => rest
    | some ⟨_, _, .command c⟩ => .command id c rest
    | some ⟨_, _, .loop count body⟩ => .loop id count (forestFrom p depth body) rest) .nil

/-- The program as a tree. -/
def forest (p : Program) : Forest NodeId := p.forestFrom p.nodeCount p.roots

/-! ## Editing -/

/-- The program with another node of the same id in the place of each node with this id. -/
def modifyNode (p : Program) (id : NodeId) (f : Node → Node) : Program :=
  { p with nodes := p.nodes.map fun node => if node.id = id then f node else node }

/-- The program with another sequence under a parent. -/
def setSequence (p : Program) (parent : Option NodeId) (ids : List NodeId) : Program :=
  match parent with
  | none => { p with roots := ids }
  | some loopId => p.modifyNode loopId (·.withBody ids)

/-- Put an instruction at the end of a sequence. There is no result if the parent is no live loop. -/
def insert (p : Program) (op : Op) (parent : Option NodeId) : Option (NodeId × Program) :=
  (p.sequence? parent).map fun ids =>
    let q := p.setSequence parent (ids ++ [p.nextId])
    (p.nextId, { q with nodes := q.nodes ++ [⟨p.nextId, parent, op⟩], nextId := p.nextId + 1 })

/-- Put an instruction of a kind at the end of a sequence; a loop repeats three times. -/
def append (p : Program) (k : Kind) (parent : Option NodeId) : Option (NodeId × Program) :=
  p.insert (.ofKind k defaultCount) parent

/-- Put a loop at the end of a sequence. -/
def appendLoop (p : Program) (count : Nat) (parent : Option NodeId) : Option (NodeId × Program) :=
  p.insert (.ofKind .loop count) parent

/-- The live ids at and under a node. -/
def subtree (p : Program) (id : NodeId) : List NodeId := p.walkFrom p.nodeCount [id]

/-- Take out an instruction with everything in it. There is no result if the id is not live. -/
def remove (p : Program) (id : NodeId) : Option Program := do
  let node ← p.get? id
  let siblings ← p.sequence? node.parent
  let gone := p.subtree id
  let q := p.setSequence node.parent (siblings.filter (· ≠ id))
  some { q with nodes := q.nodes.filter (·.id ∉ gone) }

/-- Take out every instruction. Ids handed out before stay used up. -/
def clear (p : Program) : Program := { p with nodes := [], roots := [] }

/-- Move the instruction at position `source` of a sequence to position `dest`. There is no result if
there is no such sequence or a position is not in it. -/
def reorder (p : Program) (parent : Option NodeId) (source dest : Nat) : Option Program := do
  let ids ← p.sequence? parent
  let moved ← ids[source]?
  guard (dest < ids.length)
  some (p.setSequence parent ((ids.eraseIdx source).insertIdx dest moved))

/-- Give a live loop another repeat count, at least 1. There is no result for any other id. -/
def setCount (p : Program) (id : NodeId) (count : Nat) : Option Program := do
  let ids ← p.loopBody? id
  some (p.modifyNode id fun node => { node with op := .loop (max count 1) ids })

/-! ## Well-formedness -/

/-- Parents, sequences and nodes of a program agree: ids are unique and below the next one, each
sequence lists live ids once, exactly the nodes that name its loop as their parent stand in it, a node
comes after the loop it stands in, and loops repeat at least once. -/
structure WellFormed (p : Program) : Prop where
  ids_nodup : (p.nodes.map (·.id)).Nodup
  ids_lt : ∀ node ∈ p.nodes, node.id < p.nextId
  sequence_nodup : ∀ parent ids, p.sequence? parent = some ids → ids.Nodup
  mem_sequence_iff : ∀ parent ids, p.sequence? parent = some ids →
    ∀ id, id ∈ ids ↔ ∃ node, p.get? id = some node ∧ node.parent = parent
  parent_live : ∀ node ∈ p.nodes, (p.sequence? node.parent).isSome
  parent_lt : ∀ node ∈ p.nodes, ∀ loopId, node.parent = some loopId → loopId < node.id
  count_pos : ∀ node ∈ p.nodes, ∀ count ids, node.op = .loop count ids → 1 ≤ count

/-! ## First facts -/

/-- A node is found under its own id only. -/
theorem id_of_get? {p : Program} {id : NodeId} {node : Node} (h : p.get? id = some node) :
    node.id = id := by
  simpa using List.find?_some h

theorem mem_of_get? {p : Program} {id : NodeId} {node : Node} (h : p.get? id = some node) :
    node ∈ p.nodes :=
  List.mem_of_find?_eq_some h

@[simp] theorem sequence?_none (p : Program) : p.sequence? none = some p.roots := rfl

@[simp] theorem isEmpty_clear (p : Program) : p.clear.isEmpty = true := rfl

@[simp] theorem nextId_clear (p : Program) : p.clear.nextId = p.nextId := rfl

end Program

end RobotPuzzle
