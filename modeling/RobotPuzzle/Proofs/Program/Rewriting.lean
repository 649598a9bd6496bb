import Mathlib.Logic.Relation
import RobotPuzzle.Proofs.Program.Denotation

/-!
# Rewriting inside programs

A rule rewrites a sequence of instructions. It applies anywhere in a program: to what follows any
instruction, at the top level and in the bodies of loops. What such a rule keeps of the sequence it
rewrites, it keeps of the whole program.

Loops abbreviate: a loop can be written out as copies of its body, and a loop with an empty body can stand
anywhere. The commands a program comes to do not change.

## Main definitions

- `Forest.commands`, `Program.plainKinds` — what a program comes to, without the markers of its loops
- `Forest.Rewrites` — a rule applied at one place
- `Forest.copies`, `Forest.Unfolds` — loops as abbreviations

## Main statements

- `Forest.Rewrites.commands_eq` — a rule that keeps the commands keeps them wherever it is applied
- `Forest.commands_eq_of_unfolds`, `Program.plainKinds_eq_of_unfolds` — programs that differ by
  abbreviations come to the same
-/

namespace RobotPuzzle

namespace Forest

variable {α : Type} {f g : Forest α}

/-- The commands of a forest in the order in which they are executed. -/
def commands : Forest α → List Command
  | nil => []
  | command _ c rest => c :: rest.commands
  | loop _ count body rest => (List.replicate count body.commands).flatten ++ rest.commands

@[simp] theorem commands_nil : (nil : Forest α).commands = [] := rfl

@[simp] theorem commands_command (a : α) (c : Command) (rest : Forest α) :
    (command a c rest).commands = c :: rest.commands := rfl

@[simp] theorem commands_loop (a : α) (count : Nat) (body rest : Forest α) :
    (loop a count body rest).commands =
      (List.replicate count body.commands).flatten ++ rest.commands := rfl

theorem commands_append (f g : Forest α) : (f ++ g).commands = f.commands ++ g.commands := by
  induction f with
  | nil => rfl
  | command a c rest ih => simp [ih]
  | loop a count body rest _ ih => simp [ih]

@[simp] theorem commands_shape (f : Forest α) : f.shape.commands = f.commands := by
  unfold shape
  induction f with
  | nil => rfl
  | command a c rest ih => simp [ih]
  | loop a count body rest ihb ihr => simp [ihb, ihr]

theorem filterMap_command?_unroll (f : Forest NodeId) :
    f.unroll.filterMap Beat.command? = f.commands := by
  induction f with
  | nil => rfl
  | command id c rest ih => simp [unroll, ih]
  | loop id count body rest ihb ihr =>
    rw [unroll, List.filterMap_cons_none (Beat.command?_ofLoop id), List.filterMap_append,
      List.filterMap_flatten, List.map_replicate, ihb, ihr, commands_loop]

/-- The kinds of the units that are no markers are those of the commands. -/
theorem map_kind_filter_unroll (f : Forest NodeId) :
    (f.unroll.filter (!·.marker)).map (·.kind) = f.commands.map Command.kind := by
  induction f with
  | nil => rfl
  | command id c rest ih => simp [unroll, Beat.ofCommand, ih]
  | loop id count body rest ihb ihr =>
    simp [unroll, Beat.ofLoop, List.filter_flatten, List.map_flatten, List.map_replicate, ihb, ihr]

/-! ## Rules -/

/-- The rule rewrites the instructions from some place on, to the end of the sequence they are in. -/
inductive Rewrites (rule : Forest α → Forest α → Prop) : Forest α → Forest α → Prop
  | here {f g : Forest α} (h : rule f g) : Rewrites rule f g
  | command (a : α) (c : Command) {f g : Forest α} (h : Rewrites rule f g) :
      Rewrites rule (.command a c f) (.command a c g)
  | body (a : α) (count : Nat) {f g : Forest α} (rest : Forest α) (h : Rewrites rule f g) :
      Rewrites rule (.loop a count f rest) (.loop a count g rest)
  | rest (a : α) (count : Nat) (body : Forest α) {f g : Forest α} (h : Rewrites rule f g) :
      Rewrites rule (.loop a count body f) (.loop a count body g)

theorem Rewrites.commands_eq {rule : Forest α → Forest α → Prop}
    (hrule : ∀ {f g}, rule f g → f.commands = g.commands) (h : Rewrites rule f g) :
    f.commands = g.commands := by
  induction h with
  | here h => exact hrule h
  | command a c _ ih => exact congrArg (c :: ·) ih
  | body a count rest _ ih => rw [commands_loop, commands_loop, ih]
  | rest a count body _ ih => rw [commands_loop, commands_loop, ih]

/-! ## Loops as abbreviations -/

/-- The sequence over and over again. -/
def copies (f : Forest α) : Nat → Forest α
  | 0 => nil
  | count + 1 => f ++ f.copies count

theorem commands_copies (f : Forest α) (count : Nat) :
    (f.copies count).commands = (List.replicate count f.commands).flatten := by
  induction count with
  | zero => rfl
  | succ count ih => rw [copies, commands_append, ih, List.replicate_succ, List.flatten_cons]

/-- A loop is written out, or a loop without a body is added. -/
inductive Unfolds : Forest α → Forest α → Prop
  | copies (a : α) (count : Nat) (body rest : Forest α) :
      Unfolds (.loop a count body rest) (body.copies count ++ rest)
  | idle (a : α) (count : Nat) (rest : Forest α) : Unfolds rest (.loop a count .nil rest)

theorem Unfolds.commands_eq (h : Unfolds f g) : f.commands = g.commands := by
  cases h with
  | copies a count body rest => rw [commands_loop, commands_append, commands_copies]
  | idle a count rest => simp

/-- Programs that differ by abbreviations, any number of them and either way, come to the same commands. -/
theorem commands_eq_of_unfolds (h : Relation.EqvGen (Rewrites Unfolds) f g) : f.commands = g.commands := by
  induction h with
  | rel f g h => exact h.commands_eq Unfolds.commands_eq
  | refl f => rfl
  | symm f g _ ih => exact ih.symm
  | trans f g h _ _ ihf ihg => exact ihf.trans ihg

end Forest

namespace Program

variable {p q : Program}

/-- The kinds of the units of a program, without the markers. -/
def plainKinds (p : Program) : List Kind := (p.unroll.filter (!·.marker)).map (·.kind)

theorem filterMap_command?_unroll (p : Program) : p.unroll.filterMap Beat.command? = p.forest.commands := by
  rw [unroll_eq_unroll_forest, Forest.filterMap_command?_unroll]

theorem plainKinds_eq (p : Program) : p.plainKinds = p.forest.commands.map Command.kind := by
  rw [plainKinds, unroll_eq_unroll_forest, Forest.map_kind_filter_unroll]

theorem plainKinds_eq_plainKinds_iff : p.plainKinds = q.plainKinds ↔ p.forest.commands = q.forest.commands := by
  have hinjective : Function.Injective Command.kind := fun _ _ => Command.kind_inj.1
  rw [plainKinds_eq, plainKinds_eq, (List.map_injective_iff.2 hinjective).eq_iff]

theorem plainKinds_eq_of_unfolds
    (h : Relation.EqvGen (Forest.Rewrites Forest.Unfolds) p.forest.shape q.forest.shape) :
    p.plainKinds = q.plainKinds := by
  rw [plainKinds_eq_plainKinds_iff, ← Forest.commands_shape p.forest, ← Forest.commands_shape q.forest]
  exact Forest.commands_eq_of_unfolds h

end Program

end RobotPuzzle
