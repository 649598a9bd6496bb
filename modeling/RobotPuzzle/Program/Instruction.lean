/-!
# Instructions

The plain commands of a program and the kinds of instruction a palette can offer. A loop is a kind
of instruction but no command: it has a body.

## Main definitions

- `Command` — the instructions without a body
- `Kind` — what a palette lists: every command, and the loop
- `Kind.name`, `Kind.ofName?` — the identifiers palettes are written with
-/

namespace RobotPuzzle

/-- An instruction without a body. -/
inductive Command
  | forward
  | back
  | turnLeft
  | turnRight
  | wait
  | jump
  | stop
deriving DecidableEq, Repr, Inhabited

/-- A kind of instruction, as palettes list them. -/
inductive Kind
  | forward
  | back
  | turnLeft
  | turnRight
  | wait
  | jump
  | loop
  | stop
deriving DecidableEq, Repr, Inhabited

namespace Command

/-- The kind a command belongs to. -/
def kind : Command → Kind
  | forward => .forward
  | back => .back
  | turnLeft => .turnLeft
  | turnRight => .turnRight
  | wait => .wait
  | jump => .jump
  | stop => .stop

theorem kind_ne_loop (c : Command) : c.kind ≠ .loop := by
  cases c <;> decide

theorem kind_inj {c d : Command} : c.kind = d.kind ↔ c = d := by
  cases c <;> cases d <;> decide

end Command

namespace Kind

/-- Every kind, in the order in which kinds are listed. -/
def all : List Kind := [forward, back, turnLeft, turnRight, wait, jump, loop, stop]

theorem mem_all (k : Kind) : k ∈ all := by
  cases k <;> decide

/-- The identifier of a kind in palettes and reports. -/
def name : Kind → String
  | forward => "forward"
  | back => "back"
  | turnLeft => "turn_left"
  | turnRight => "turn_right"
  | wait => "wait"
  | jump => "jump"
  | loop => "loop"
  | stop => "stop"

/-- The kind with exactly this identifier. -/
def ofName? (s : String) : Option Kind :=
  all.find? (·.name == s)

@[simp] theorem ofName?_name (k : Kind) : ofName? k.name = some k := by
  cases k <;> decide

theorem name_injective : Function.Injective name := by
  intro k l h
  have hsome := congrArg ofName? h
  rw [ofName?_name, ofName?_name] at hsome
  exact Option.some.inj hsome

/-- The command of a kind; the loop has none. -/
def command? : Kind → Option Command
  | forward => some .forward
  | back => some .back
  | turnLeft => some .turnLeft
  | turnRight => some .turnRight
  | wait => some .wait
  | jump => some .jump
  | loop => none
  | stop => some .stop

@[simp] theorem command?_kind (c : Command) : c.kind.command? = some c := by
  cases c <;> rfl

theorem eq_kind_of_command? {k : Kind} {c : Command} (h : k.command? = some c) : k = c.kind := by
  cases k with
  | loop => cases h
  | forward | back | turnLeft | turnRight | wait | jump | stop =>
    obtain rfl := Option.some.inj h
    rfl

theorem eq_loop_of_command? {k : Kind} (h : k.command? = none) : k = .loop := by
  cases k with
  | loop => rfl
  | forward | back | turnLeft | turnRight | wait | jump | stop => cases h

end Kind

end RobotPuzzle
