import RobotPuzzle.Board.Direction
import RobotPuzzle.Text.Decimal

/-!
# Cells

Cells of the board and finite sets of them. A set of cells is kept as a strictly increasing list, by
column and then by row, so two sets with the same members are equal and listing one is in order.

## Main definitions

- `Cell.offset` — the cell some steps away in a direction
- `Cell.wrapped` — a cell in coordinates of 32 bits
- `Cell.Precedes` — the order by column, then by row
- `CellSet` — a finite set of cells, with `CellSet.ofList`, `CellSet.insert` and membership
-/

namespace RobotPuzzle

/-- A cell of the board. Row 0 is the top row, so `y` grows downwards. -/
structure Cell where
  x : Int
  y : Int
deriving DecidableEq, Repr, Inhabited

namespace Cell

/-- The cell reached by taking `steps` steps along `d`. -/
def offset (c : Cell) (d : Direction) (steps : Int) : Cell :=
  ⟨c.x + d.delta.1 * steps, c.y + d.delta.2 * steps⟩

/-- What is left of a cell in coordinates of 32 bits, which wrap around. -/
def wrapped (c : Cell) : Cell := ⟨c.x.bmod (Nat.pow 2 32), c.y.bmod (Nat.pow 2 32)⟩

/-- The text of a cell: its column and its row in parentheses. -/
def text (c : Cell) : List Char :=
  '(' :: (signedDecimal c.x ++ ',' :: ' ' :: (signedDecimal c.y ++ [')']))

/-- The order of cells by column and then by row. -/
def Precedes (a b : Cell) : Prop :=
  a.x < b.x ∨ (a.x = b.x ∧ a.y < b.y)

instance (a b : Cell) : Decidable (a.Precedes b) :=
  inferInstanceAs (Decidable (_ ∨ _))

theorem Precedes.trans {a b c : Cell} (hab : a.Precedes b) (hbc : b.Precedes c) : a.Precedes c := by
  unfold Precedes at *
  omega

theorem not_precedes_self (a : Cell) : ¬ a.Precedes a := by
  unfold Precedes
  omega

theorem precedes_of_not_precedes {a b : Cell} (hne : a ≠ b) (h : ¬ a.Precedes b) :
    b.Precedes a := by
  obtain ⟨ax, ay⟩ := a
  obtain ⟨bx, b2⟩ := b
  simp only [ne_eq, mk.injEq, not_and] at hne
  unfold Precedes at *
  dsimp only at *
  omega

@[simp] theorem offset_zero (c : Cell) (d : Direction) : c.offset d 0 = c := by
  simp [offset]

/-- Steps against a direction are steps along the opposite one. -/
theorem offset_opposite (c : Cell) (d : Direction) (steps : Int) :
    c.offset d.opposite steps = c.offset d (-steps) := by
  cases d <;> simp [offset, Direction.opposite, Direction.delta]

end Cell

/-- The list with `c` put at its place, or the list itself if `c` is there already. -/
def insertCell (c : Cell) : List Cell → List Cell
  | [] => [c]
  | d :: rest =>
    if c = d then d :: rest
    else if c.Precedes d then c :: d :: rest
    else d :: insertCell c rest

theorem mem_insertCell {c a : Cell} {cells : List Cell} :
    a ∈ insertCell c cells ↔ a = c ∨ a ∈ cells := by
  induction cells with
  | nil => simp [insertCell]
  | cons d rest ih =>
    unfold insertCell
    split
    · rename_i h
      subst h
      simp
    · split
      · simp
      · simp only [List.mem_cons, ih]
        grind

theorem pairwise_insertCell {c : Cell} {cells : List Cell} (h : cells.Pairwise Cell.Precedes) :
    (insertCell c cells).Pairwise Cell.Precedes := by
  induction cells with
  | nil => simp [insertCell]
  | cons d rest ih =>
    rw [List.pairwise_cons] at h
    unfold insertCell
    split
    · exact List.pairwise_cons.2 h
    · rename_i hne
      split
      · rename_i hlt
        refine List.pairwise_cons.2 ⟨fun a ha => ?_, List.pairwise_cons.2 h⟩
        rcases List.mem_cons.1 ha with rfl | ha
        · exact hlt
        · exact hlt.trans (h.1 a ha)
      · rename_i hge
        refine List.pairwise_cons.2 ⟨fun a ha => ?_, ih h.2⟩
        rcases mem_insertCell.1 ha with rfl | ha
        · exact Cell.precedes_of_not_precedes hne hge
        · exact h.1 a ha

/-- A finite set of cells, listed in order without repetition. -/
structure CellSet where
  toList : List Cell
  ordered : toList.Pairwise Cell.Precedes
deriving DecidableEq

namespace CellSet

/-- The set without cells. -/
def empty : CellSet := ⟨[], List.Pairwise.nil⟩

instance : Inhabited CellSet := ⟨empty⟩

instance : Membership Cell CellSet := ⟨fun s c => c ∈ s.toList⟩

instance (c : Cell) (s : CellSet) : Decidable (c ∈ s) :=
  inferInstanceAs (Decidable (c ∈ s.toList))

/-- The set with one more cell. -/
def insert (s : CellSet) (c : Cell) : CellSet :=
  ⟨insertCell c s.toList, pairwise_insertCell s.ordered⟩

/-- The set of the cells of a list, whatever their order and however often they occur. -/
def ofList (cells : List Cell) : CellSet :=
  cells.foldr (fun c s => s.insert c) empty

@[simp] theorem mem_toList {c : Cell} {s : CellSet} : c ∈ s.toList ↔ c ∈ s := Iff.rfl

@[simp] theorem not_mem_empty (c : Cell) : ¬ c ∈ empty := by
  change ¬ c ∈ []
  simp

@[simp] theorem mem_insert {c d : Cell} {s : CellSet} : c ∈ s.insert d ↔ c = d ∨ c ∈ s :=
  mem_insertCell

@[simp] theorem mem_ofList {c : Cell} {cells : List Cell} : c ∈ ofList cells ↔ c ∈ cells := by
  induction cells with
  | nil => simp [ofList]
  | cons d rest ih =>
    have h : ofList (d :: rest) = (ofList rest).insert d := rfl
    rw [h, mem_insert, ih, List.mem_cons]

/-- Sets with the same members are equal. -/
theorem ext {s t : CellSet} (h : ∀ c, c ∈ s ↔ c ∈ t) : s = t := by
  have hnodup : ∀ u : CellSet, u.toList.Nodup := by
    intro u
    refine u.ordered.imp ?_
    rintro a _ hab rfl
    exact Cell.not_precedes_self a hab
  have hperm : s.toList.Perm t.toList :=
    (List.perm_ext_iff_of_nodup (hnodup s) (hnodup t)).2 h
  have hasymm : ∀ a b, a ∈ s.toList → b ∈ t.toList → a.Precedes b → b.Precedes a → a = b :=
    fun a b _ _ hab hba => absurd (hab.trans hba) (Cell.not_precedes_self a)
  obtain ⟨cells, hcells⟩ := s
  obtain rfl : cells = t.toList := hperm.eq_of_pairwise hasymm hcells t.ordered
  rfl

end CellSet

end RobotPuzzle
