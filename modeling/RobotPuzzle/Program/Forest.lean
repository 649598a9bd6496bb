import RobotPuzzle.Program.Instruction

/-!
# Instruction forests

A program as a tree: a sequence of instructions in which every loop carries a repeat count and its
body. The labels tell instructions apart; a forest labelled by `Unit` is a program up to the identity
of its instructions.

Sequences are part of the type (each instruction carries what follows it), so every function on
forests is a plain structural recursion.

## Main definitions

- `Forest` — a sequence of labelled commands and counted loops
- `Forest.append`, `Forest.map` — concatenation and relabelling
- `Forest.size`, `Forest.labels`, `Forest.counts` — what a forest holds
-/

namespace RobotPuzzle

/-- A sequence of labelled instructions. -/
inductive Forest (α : Type)
  | nil
  | command (label : α) (c : Command) (rest : Forest α)
  | loop (label : α) (count : Nat) (body : Forest α) (rest : Forest α)
deriving DecidableEq, Repr

namespace Forest

variable {α β : Type}

instance : Inhabited (Forest α) := ⟨nil⟩

/-- One sequence after another. -/
def append : Forest α → Forest α → Forest α
  | nil, g => g
  | command a c rest, g => command a c (rest.append g)
  | loop a n body rest, g => loop a n body (rest.append g)

instance : Append (Forest α) := ⟨append⟩

@[simp] theorem nil_append (g : Forest α) : nil ++ g = g := rfl

@[simp] theorem command_append (a : α) (c : Command) (rest g : Forest α) :
    command a c rest ++ g = command a c (rest ++ g) := rfl

@[simp] theorem loop_append (a : α) (n : Nat) (body rest g : Forest α) :
    loop a n body rest ++ g = loop a n body (rest ++ g) := rfl

@[simp] theorem append_nil (f : Forest α) : f ++ nil = f := by
  induction f with
  | nil => rfl
  | command a c rest ih => simp [ih]
  | loop a n body rest _ ih => simp [ih]

theorem append_assoc (f g h : Forest α) : f ++ g ++ h = f ++ (g ++ h) := by
  induction f with
  | nil => rfl
  | command a c rest ih => simp [ih]
  | loop a n body rest _ ih => simp [ih]

/-- The forest with every label changed. -/
def map (φ : α → β) : Forest α → Forest β
  | nil => nil
  | command a c rest => command (φ a) c (rest.map φ)
  | loop a n body rest => loop (φ a) n (body.map φ) (rest.map φ)

@[simp] theorem map_nil (φ : α → β) : nil.map φ = nil := rfl

@[simp] theorem map_command (φ : α → β) (a : α) (c : Command) (rest : Forest α) :
    (command a c rest).map φ = command (φ a) c (rest.map φ) := rfl

@[simp] theorem map_loop (φ : α → β) (a : α) (n : Nat) (body rest : Forest α) :
    (loop a n body rest).map φ = loop (φ a) n (body.map φ) (rest.map φ) := rfl

/-- The program up to the identity of its instructions. -/
def shape (f : Forest α) : Forest Unit := f.map fun _ => ()

/-- The number of top-level instructions. -/
def width : Forest α → Nat
  | nil => 0
  | command _ _ rest => rest.width + 1
  | loop _ _ _ rest => rest.width + 1

/-- The number of instructions, nested ones included. -/
def size : Forest α → Nat
  | nil => 0
  | command _ _ rest => rest.size + 1
  | loop _ _ body rest => body.size + rest.size + 1

/-- The labels in order, a loop before its body and its body before what follows. -/
def labels : Forest α → List α
  | nil => []
  | command a _ rest => a :: rest.labels
  | loop a _ body rest => a :: (body.labels ++ rest.labels)

/-- The repeat counts in order. -/
def counts : Forest α → List Nat
  | nil => []
  | command _ _ rest => rest.counts
  | loop _ n body rest => n :: (body.counts ++ rest.counts)

@[simp] theorem length_labels (f : Forest α) : f.labels.length = f.size := by
  induction f with
  | nil => rfl
  | command a c rest ih => simp [labels, size, ih]
  | loop a n body rest ihb ihr => simp [labels, size, ihb, ihr]

@[simp] theorem counts_append (f g : Forest α) : (f ++ g).counts = f.counts ++ g.counts := by
  induction f with
  | nil => rfl
  | command a c rest ih => simp [counts, ih]
  | loop a n body rest _ ih => simp [counts, ih]

@[simp] theorem map_append (φ : α → β) (f g : Forest α) : (f ++ g).map φ = f.map φ ++ g.map φ := by
  induction f with
  | nil => rfl
  | command a c rest ih => simp [ih]
  | loop a n body rest _ ih => simp [ih]

@[simp] theorem size_map (φ : α → β) (f : Forest α) : (f.map φ).size = f.size := by
  induction f with
  | nil => rfl
  | command a c rest ih => simp [size, ih]
  | loop a n body rest ihb ihr => simp [size, ihb, ihr]

end Forest

end RobotPuzzle
