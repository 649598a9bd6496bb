import RobotPuzzle.Program.Basic

/-!
# Unrolling

A program is executed as a list of units: a command is one unit, and a loop is a marker unit, which
only shows that the loop is entered, followed by its body as often as the loop repeats. The list grows
exponentially with nesting, so its length is computed first, without building it.

## Main definitions

- `Beat` — a unit of an unrolled program
- `timesOver` — a list as often as a loop repeats
- `Program.unroll` — the list of units of a program
- `Program.unrolledLength` — its length, in arithmetic that stops at the largest 64-bit number
- `Program.unrollWithin` — the list, unless it is longer than a limit
- `Forest.unroll`, `Forest.unrolledLength` — the same of a tree, with unbounded numbers
-/

namespace RobotPuzzle

/-- A unit of an unrolled program. -/
structure Beat where
  /-- The instruction the unit comes from. -/
  id : NodeId
  kind : Kind
  /-- The unit shows that a loop is entered and does nothing else. -/
  marker : Bool
deriving DecidableEq, Repr

namespace Beat

/-- The unit of a command. -/
def ofCommand (id : NodeId) (c : Command) : Beat := ⟨id, c.kind, false⟩

/-- The unit that shows that a loop is entered. -/
def ofLoop (id : NodeId) : Beat := ⟨id, .loop, true⟩

/-- The command a unit carries out. A marker carries out none. -/
def command? (beat : Beat) : Option Command :=
  if beat.marker then none else beat.kind.command?

@[simp] theorem command?_ofCommand (id : NodeId) (c : Command) : (ofCommand id c).command? = some c :=
  Kind.command?_kind c

@[simp] theorem command?_ofLoop (id : NodeId) : (ofLoop id).command? = none := rfl

end Beat

/-! ## Saturating arithmetic -/

/-- The largest length that is told apart, `2^64 - 1`. -/
def lengthCeiling : Nat := Nat.pow 2 64 - 1

/-- The sum, or the ceiling if the sum is beyond it. -/
def saturatingAdd (a b : Nat) : Nat := min (a + b) lengthCeiling

/-- The product, or the ceiling if the product is beyond it. -/
def saturatingMul (a b : Nat) : Nat := min (a * b) lengthCeiling

/-- Cutting a summand off at the ceiling does not change a saturating sum. -/
theorem saturatingAdd_min (a b : Nat) :
    saturatingAdd (min a lengthCeiling) b = saturatingAdd a b := by
  unfold saturatingAdd
  omega

/-- Cutting a factor off at the ceiling does not change a saturating product, unless the other factor
is zero, when both are zero. -/
theorem saturatingMul_min (a b : Nat) :
    saturatingMul (min a lengthCeiling) b = saturatingMul a b := by
  unfold saturatingMul
  rcases Nat.lt_or_ge lengthCeiling a with h | h
  · rw [Nat.min_eq_right (Nat.le_of_lt h)]
    rcases Nat.eq_zero_or_pos b with rfl | hb
    · simp
    · have h1 : lengthCeiling ≤ lengthCeiling * b := Nat.le_mul_of_pos_right _ hb
      have h2 : lengthCeiling ≤ a * b := Nat.le_trans (Nat.le_of_lt h) (Nat.le_mul_of_pos_right _ hb)
      rw [Nat.min_eq_right h1, Nat.min_eq_right h2]
  · rw [Nat.min_eq_left h]

/-! ## Unrolling a program -/

/-- A list as often as a loop repeats. Nothing comes of an empty list however often it is taken, so
that it is not taken at all. -/
def timesOver {α : Type} (count : Nat) (items : List α) : List α :=
  if items.isEmpty then [] else (List.replicate count items).flatten

@[simp] theorem timesOver_eq_flatten {α : Type} (count : Nat) (items : List α) :
    timesOver count items = (List.replicate count items).flatten := by
  cases items <;> simp [timesOver]

namespace Program

/-- The units of a sequence of ids, through at most `depth` levels. -/
def unrollFrom (p : Program) : Nat → List NodeId → List Beat
  | 0, _ => []
  | depth + 1, ids => ids.flatMap fun id =>
    match p.get? id with
    | none => []
    | some ⟨_, _, .command c⟩ => [.ofCommand id c]
    | some ⟨_, _, .loop count body⟩ =>
      .ofLoop id :: timesOver count (unrollFrom p depth body)

/-- The units of a program. -/
def unroll (p : Program) : List Beat := p.unrollFrom p.nodeCount p.roots

/-- The number of units of a sequence of ids, through at most `depth` levels. -/
def unrolledLengthFrom (p : Program) : Nat → List NodeId → Nat
  | 0, _ => 0
  | depth + 1, ids => ids.foldl (fun total id =>
    match p.get? id with
    | none => total
    | some ⟨_, _, .command _⟩ => saturatingAdd total 1
    | some ⟨_, _, .loop count body⟩ =>
      saturatingAdd total
        (saturatingAdd 1 (saturatingMul (unrolledLengthFrom p depth body) count))) 0

/-- The number of units of a program, or the ceiling if there are more. -/
def unrolledLength (p : Program) : Nat := p.unrolledLengthFrom p.nodeCount p.roots

/-- A program that has too many units. -/
structure TooLong where
  length : Nat
  limit : Nat
deriving DecidableEq, Repr

/-- The message about a program that is too long. -/
def TooLong.message (e : TooLong) : String :=
  s!"program expands to {e.length} units, limit is {e.limit}"

/-- The units of a program, unless there are more than `limit`. The length is computed first, so no
longer list is ever built. -/
def unrollWithin (p : Program) (limit : Nat) : Except TooLong (List Beat) :=
  if limit < p.unrolledLength then .error ⟨p.unrolledLength, limit⟩ else .ok p.unroll

theorem eq_unroll_of_unrollWithin {p : Program} {limit : Nat} {units : List Beat}
    (h : p.unrollWithin limit = .ok units) : units = p.unroll := by
  unfold unrollWithin at h
  split at h
  · cases h
  · exact (Except.ok.inj h).symm

end Program

/-! ## Unrolling a tree -/

namespace Forest

/-- The units of a tree. -/
def unroll : Forest NodeId → List Beat
  | nil => []
  | command id c rest => .ofCommand id c :: rest.unroll
  | loop id count body rest =>
    .ofLoop id :: ((List.replicate count body.unroll).flatten ++ rest.unroll)

/-- The number of units of a tree. -/
def unrolledLength {α : Type} : Forest α → Nat
  | nil => 0
  | command _ _ rest => 1 + rest.unrolledLength
  | loop _ count body rest => 1 + count * body.unrolledLength + rest.unrolledLength

@[simp] theorem length_unroll (f : Forest NodeId) : f.unroll.length = f.unrolledLength := by
  induction f with
  | nil => rfl
  | command id c rest ih => simp [unroll, unrolledLength, ih]; omega
  | loop id count body rest ihb ihr =>
    simp [unroll, unrolledLength, ihb, ihr, List.length_flatten]
    omega

theorem unroll_append (f g : Forest NodeId) : (f ++ g).unroll = f.unroll ++ g.unroll := by
  induction f with
  | nil => rfl
  | command id c rest ih => simp [unroll, ih]
  | loop id count body rest _ ih => simp [unroll, ih]

end Forest

end RobotPuzzle
