import RobotPuzzle.Program.Basic

/-!
# Edits as data

An authoring operation as a value, what it answers, and the programs that sequences of operations
build. An operation that does not apply answers so and leaves the program as it was.

## Main definitions

- `Edit`, `Edit.Answer`, `Edit.perform` — an operation, its answer, and carrying it out
- `Program.afterEdits` — the program a list of operations makes of another
- `Program.Authored` — the programs that can be built from nothing
-/

namespace RobotPuzzle

/-- An authoring operation. -/
inductive Edit
  | append (kind : Kind) (parent : Option NodeId)
  | appendLoop (count : Nat) (parent : Option NodeId)
  | remove (id : NodeId)
  | clear
  | reorder (parent : Option NodeId) (source dest : Nat)
  | setCount (id : NodeId) (count : Nat)
deriving DecidableEq, Repr

/-- What an authoring operation answers. -/
inductive Edit.Answer
  /-- The id of the new instruction, none if the parent is no live loop. -/
  | added (id : Option NodeId)
  /-- Whether the operation applied. -/
  | changed (ok : Bool)
  | cleared
deriving DecidableEq, Repr

namespace Edit

/-- The answer and the program of an addition that may not apply. -/
def ofAddition (p : Program) : Option (NodeId × Program) → Answer × Program
  | some (id, q) => (.added (some id), q)
  | none => (.added none, p)

/-- The answer and the program of a change that may not apply. -/
def ofChange (p : Program) : Option Program → Answer × Program
  | some q => (.changed true, q)
  | none => (.changed false, p)

/-- What holds without the instruction and with it holds after an addition. -/
theorem ofAddition_induction {P : Program → Prop} {p : Program} {added : Option (NodeId × Program)}
    (hsame : P p) (hadded : ∀ id q, added = some (id, q) → P q) : P (ofAddition p added).2 := by
  cases added with
  | none => exact hsame
  | some pair => exact hadded pair.1 pair.2 rfl

/-- What holds before a change and of what it makes of the program holds after it. -/
theorem ofChange_induction {P : Program → Prop} {p : Program} {changed : Option Program}
    (hsame : P p) (hchanged : ∀ q, changed = some q → P q) : P (ofChange p changed).2 := by
  cases changed with
  | none => exact hsame
  | some q => exact hchanged q rfl

/-- Carry out an operation. -/
def perform : Edit → Program → Answer × Program
  | append kind parent, p => ofAddition p (p.append kind parent)
  | appendLoop count parent, p => ofAddition p (p.appendLoop count parent)
  | remove id, p => ofChange p (p.remove id)
  | clear, p => (.cleared, p.clear)
  | reorder parent source dest, p => ofChange p (p.reorder parent source dest)
  | setCount id count, p => ofChange p (p.setCount id count)

end Edit

namespace Program

/-- The program after a list of operations. -/
def afterEdits (p : Program) (edits : List Edit) : Program :=
  edits.foldl (fun q (e : Edit) => (e.perform q).2) p

/-- The program can be built from nothing by authoring operations. -/
def Authored (p : Program) : Prop :=
  ∃ edits, p = empty.afterEdits edits

theorem authored_empty : Authored empty := ⟨[], rfl⟩

theorem Authored.perform {p : Program} (h : Authored p) (e : Edit) : Authored (e.perform p).2 := by
  obtain ⟨edits, rfl⟩ := h
  exact ⟨edits ++ [e], by simp [afterEdits]⟩

/-- A property of the empty program that every operation keeps holds of every authored program. -/
theorem Authored.induction {P : Program → Prop} (hempty : P empty)
    (hstep : ∀ (p : Program) (e : Edit), P p → P (e.perform p).2) {p : Program} (h : Authored p) : P p := by
  obtain ⟨edits, rfl⟩ := h
  unfold afterEdits
  suffices ∀ q, P q → P (edits.foldl (fun q (e : Edit) => (e.perform q).2) q) from this _ hempty
  induction edits with
  | nil => exact fun q hq => hq
  | cons e rest ih => exact fun q hq => ih _ (hstep q e hq)

/-- Put the instructions of a tree at the end of a sequence, each loop before its body. -/
def plant {α : Type} (p : Program) (parent : Option NodeId) : Forest α → Program
  | .nil => p
  | .command _ c rest =>
    match p.append c.kind parent with
    | some (_, q) => q.plant parent rest
    | none => p
  | .loop _ count body rest =>
    match p.appendLoop count parent with
    | some (id, q) => (q.plant (some id) body).plant parent rest
    | none => p

/-- The program with the instructions of a tree. Their ids count up from 0 in the order in which they
are written. -/
def ofForest {α : Type} (f : Forest α) : Program := empty.plant none f

end Program

end RobotPuzzle
