import Mathlib.Data.List.Basic
import RobotPuzzle.Board.Drawing
import RobotPuzzle.Board.Validity

/-!
# Reading a drawn board

Every cell of the board has its own place in the drawing: the lines are the rows, and the characters of a line
are the cells of the row. A character stands for one thing only, so on a valid level, where the target is free
and everything is on the board, the drawing without a robot tells the whole board. A robot changes the
character of its own cell and no other.

## Main definitions

- `charAt?` — the character that a text has at a cell

## Main statements

- `Level.splitOn_drawing` — the lines of a drawing are its rows
- `Level.charAt?_drawing` — each cell of the board is found at its own place
- `Level.drawing_eq_iff` — valid levels with the same drawing have the same board
- `Level.drawing_tells_board` — the board that is drawn, and what a robot changes of it
-/

namespace RobotPuzzle

/-- The character that a text has at a cell, its lines being the rows from the top. -/
def charAt? (text : List Char) (c : Cell) : Option Char :=
  if 0 ≤ c.x ∧ 0 ≤ c.y then (text.splitOn '\n')[c.y.toNat]?.bind (·[c.x.toNat]?) else none

theorem getElem?_coordinates {n : Int} {i : Nat} :
    (coordinates n)[i]? = if (i : Int) < n then some (i : Int) else none := by
  rw [coordinates, List.getElem?_map]
  by_cases hi : (i : Int) < n
  · have hrange : i < n.toNat := by omega
    rw [List.getElem?_range hrange, if_pos hi]
    rfl
  · have hrange : (List.range n.toNat).length ≤ i := by
      rw [List.length_range]
      omega
    rw [List.getElem?_eq_none hrange, if_neg hi]
    rfl

theorem Direction.arrow_injective {d e : Direction} (h : d.arrow = e.arrow) : d = e := by
  revert h
  cases d <;> cases e <;> decide

/-- A character other than the separator is in a text exactly if it is in one of its parts. -/
theorem mem_intercalate_iff {x separator : Char} (hx : x ≠ separator) {parts : List (List Char)} :
    x ∈ [separator].intercalate parts ↔ ∃ part ∈ parts, x ∈ part := by
  induction parts with
  | nil => simp
  | cons part parts ih =>
    rw [List.exists_mem_cons_iff, ← ih]
    cases parts with
    | nil => simp
    | cons next parts =>
      rw [List.intercalate_cons_cons, List.mem_append, List.mem_append, List.mem_singleton,
        or_iff_left hx]

namespace Level

variable {level other : Level} {robot : Option Robot} {r : Robot} {c : Cell}

/-! ## Characters of cells -/

theorem fixture_eq_target_iff : level.fixture c = 'T' ↔ c = level.target := by
  unfold fixture
  split_ifs <;> simp_all

theorem fixture_eq_start_iff : level.fixture c = 'S' ↔ c = level.start ∧ c ≠ level.target := by
  unfold fixture
  split_ifs <;> simp_all

theorem fixture_eq_obstacle_iff :
    level.fixture c = '#' ↔ c ∈ level.obstacles ∧ c ≠ level.start ∧ c ≠ level.target := by
  unfold fixture
  split_ifs <;> simp_all

theorem fixture_cases (level : Level) (c : Cell) : level.fixture c = 'T' ∨ level.fixture c = 'S' ∨
    level.fixture c = '#' ∨ level.fixture c = '.' := by
  unfold fixture
  split_ifs <;> simp

/-- No arrow is drawn where there is no robot. -/
theorem fixture_ne_arrow (level : Level) (c : Cell) (d : Direction) : level.fixture c ≠ d.arrow := by
  rcases level.fixture_cases c with h | h | h | h <;> rw [h] <;> cases d <;> decide

theorem glyph_of_eq (h : c = r.position) : level.glyph (some r) c = r.facing.arrow := if_pos h.symm

theorem glyph_of_ne (h : c ≠ r.position) : level.glyph (some r) c = level.fixture c :=
  if_neg (Ne.symm h)

theorem glyph_ne_newline (level : Level) (robot : Option Robot) (c : Cell) :
    level.glyph robot c ≠ '\n' := by
  have hfixture : level.fixture c ≠ '\n' := by
    rcases level.fixture_cases c with h | h | h | h <;> rw [h] <;> decide
  cases robot with
  | none => exact hfixture
  | some r =>
    by_cases hc : c = r.position
    · rw [glyph_of_eq hc]
      cases r.facing <;> decide
    · rw [glyph_of_ne hc]
      exact hfixture

/-! ## Lines and places -/

theorem newline_notMem_of_mem_rows {row : List Char} (h : row ∈ level.rows robot) : '\n' ∉ row := by
  obtain ⟨y, -, rfl⟩ := List.mem_map.1 h
  intro hmem
  obtain ⟨x, -, hx⟩ := List.mem_map.1 hmem
  exact level.glyph_ne_newline robot _ hx

/-- The lines of a drawing are its rows. A drawing without rows is the empty text, which has a line too. -/
theorem splitOn_drawing (hsize : 0 < level.size) (robot : Option Robot) :
    (level.drawing robot).splitOn '\n' = level.rows robot := by
  refine List.splitOn_intercalate '\n' (fun row => newline_notMem_of_mem_rows) ?_
  rw [← List.length_pos_iff, length_rows]
  omega

theorem drawing_of_size_nonpos (hsize : level.size ≤ 0) (robot : Option Robot) :
    level.drawing robot = [] := by
  have hrows : level.rows robot = [] := by
    rw [← List.length_eq_zero_iff, length_rows]
    omega
  rw [drawing, hrows, List.intercalate_nil]

theorem getElem?_rows (level : Level) (robot : Option Robot) (x y : Nat) :
    (level.rows robot)[y]?.bind (·[x]?) =
      if (x : Int) < level.size ∧ (y : Int) < level.size then some (level.glyph robot ⟨x, y⟩) else none := by
  rw [rows, List.getElem?_map, getElem?_coordinates]
  by_cases hy : (y : Int) < level.size
  · rw [if_pos hy, Option.map_some, Option.bind_some, List.getElem?_map, getElem?_coordinates]
    by_cases hx : (x : Int) < level.size
    · rw [if_pos hx, if_pos ⟨hx, hy⟩, Option.map_some]
    · rw [if_neg hx, if_neg fun h => hx h.1, Option.map_none]
  · rw [if_neg hy, if_neg fun h => hy h.2]
    rfl

/-- Each cell of the board is found at its own place, and nothing else is. -/
theorem charAt?_drawing (level : Level) (robot : Option Robot) (c : Cell) :
    charAt? (level.drawing robot) c =
      if level.InBounds c then some (level.glyph robot c) else none := by
  unfold charAt?
  by_cases hnonneg : 0 ≤ c.x ∧ 0 ≤ c.y
  · rw [if_pos hnonneg]
    have hcell : (⟨(c.x.toNat : Int), (c.y.toNat : Int)⟩ : Cell) = c := by
      rw [Int.toNat_of_nonneg hnonneg.1, Int.toNat_of_nonneg hnonneg.2]
    by_cases hsize : 0 < level.size
    · have hbounds : (c.x.toNat : Int) < level.size ∧ (c.y.toNat : Int) < level.size ↔
          level.InBounds c := by
        unfold InBounds
        omega
      rw [splitOn_drawing hsize, getElem?_rows, hcell, if_congr hbounds rfl rfl]
    · have hout : ¬ level.InBounds c := by
        unfold InBounds
        omega
      rw [drawing_of_size_nonpos (Int.not_lt.1 hsize), if_neg hout]
      cases c.y.toNat <;> rfl
  · have hout : ¬ level.InBounds c := fun h => hnonneg ⟨h.1.1, h.2.1⟩
    rw [if_neg hnonneg, if_neg hout]

/-! ## The board that is drawn -/

theorem size_eq_of_drawing_eq (hlevel : 0 < level.size) (hother : 0 < other.size)
    (h : level.drawing robot = other.drawing robot) : level.size = other.size := by
  have hrows : level.rows robot = other.rows robot := by
    rw [← splitOn_drawing hlevel, h, splitOn_drawing hother]
  have hlength : level.size.toNat = other.size.toNat := by
    rw [← length_rows level robot, hrows, length_rows]
  omega

/-- Boards drawn the same show the same at every cell. -/
theorem fixture_eq_of_drawing_eq (hsize : level.size = other.size)
    (h : level.drawing none = other.drawing none) (hc : level.InBounds c) :
    level.fixture c = other.fixture c := by
  have hother : other.InBounds c := by
    rw [InBounds, ← hsize]
    exact hc
  have hplace := level.charAt?_drawing none c
  rw [h, other.charAt?_drawing, if_pos hother, if_pos hc] at hplace
  exact (Option.some.inj hplace).symm

theorem drawing_congr (hsize : level.size = other.size) (hstart : level.start = other.start)
    (htarget : level.target = other.target) (hobstacles : level.obstacles = other.obstacles)
    (robot : Option Robot) : level.drawing robot = other.drawing robot := by
  have hglyph : level.glyph robot = other.glyph robot := by
    funext c
    simp only [glyph, fixture, hstart, htarget, hobstacles]
  rw [drawing, drawing, rows, rows, hsize, hglyph]

/-- A character other than a line break is drawn for a cell. -/
theorem mem_drawing_iff {x : Char} (hx : x ≠ '\n') :
    x ∈ level.drawing robot ↔ ∃ c, level.InBounds c ∧ level.glyph robot c = x := by
  rw [drawing, mem_intercalate_iff hx]
  constructor
  · rintro ⟨row, hrow, hmem⟩
    obtain ⟨y, hy, rfl⟩ := List.mem_map.1 hrow
    obtain ⟨i, hi, rfl⟩ := List.mem_map.1 hmem
    exact ⟨⟨i, y⟩, ⟨mem_coordinates.1 hi, mem_coordinates.1 hy⟩, rfl⟩
  · rintro ⟨c, hc, rfl⟩
    exact ⟨_, List.mem_map_of_mem (mem_coordinates.2 hc.2), List.mem_map_of_mem (mem_coordinates.2 hc.1)⟩

/-- The start shows on the board unless it is the target. -/
theorem Valid.start_mem_drawing_iff (h : level.Valid) :
    'S' ∈ level.drawing none ↔ level.start ≠ level.target := by
  rw [mem_drawing_iff (by decide)]
  constructor
  · rintro ⟨c, -, hc⟩
    obtain ⟨rfl, hne⟩ := fixture_eq_start_iff.1 hc
    exact hne
  · intro hne
    exact ⟨level.start, h.start_free.inBounds, fixture_eq_start_iff.2 ⟨rfl, hne⟩⟩

/-- An obstacle of a valid level shows on the board. -/
theorem Valid.mem_obstacles_iff (h : level.Valid) :
    c ∈ level.obstacles ↔ level.InBounds c ∧ level.fixture c = '#' := by
  rw [fixture_eq_obstacle_iff]
  constructor
  · intro hc
    refine ⟨h.obstacles_inBounds c hc, hc, ?_, ?_⟩
    · rintro rfl
      exact h.start_free.2 hc
    · rintro rfl
      exact h.target_free.2 hc
  · rintro ⟨-, hc, -⟩
    exact hc

/-- Valid levels are drawn the same exactly if their boards have the same size, start, target and
obstacles. -/
theorem drawing_eq_iff (hlevel : level.Valid) (hother : other.Valid) :
    level.drawing none = other.drawing none ↔
      level.size = other.size ∧ level.start = other.start ∧ level.target = other.target ∧
        level.obstacles = other.obstacles := by
  constructor
  · intro h
    have hsize := size_eq_of_drawing_eq hlevel.size_pos hother.size_pos h
    have hfixture : ∀ c, level.InBounds c → level.fixture c = other.fixture c := fun c =>
      fixture_eq_of_drawing_eq hsize h
    have hbounds : ∀ c, level.InBounds c ↔ other.InBounds c := fun c => by rw [InBounds, InBounds, hsize]
    have htarget : level.target = other.target := by
      have hshown := hfixture _ hlevel.target_free.inBounds
      rw [fixture_eq_target_iff.2 rfl] at hshown
      exact fixture_eq_target_iff.1 hshown.symm
    have hstart : level.start = other.start := by
      -- the start is seen unless it is hidden by the target, and then it is so on both boards
      by_cases hhidden : level.start = level.target
      · have hnone : 'S' ∉ other.drawing none := by
          rw [← h, hlevel.start_mem_drawing_iff]
          exact not_not_intro hhidden
        rw [hother.start_mem_drawing_iff, not_not] at hnone
        rw [hhidden, hnone, htarget]
      · have hshown := hfixture _ hlevel.start_free.inBounds
        rw [fixture_eq_start_iff.2 ⟨rfl, hhidden⟩] at hshown
        exact (fixture_eq_start_iff.1 hshown.symm).1
    refine ⟨hsize, hstart, htarget, CellSet.ext fun c => ?_⟩
    rw [hlevel.mem_obstacles_iff, hother.mem_obstacles_iff, ← hbounds]
    exact and_congr_right fun hc => by rw [hfixture c hc]
  · rintro ⟨hsize, hstart, htarget, hobstacles⟩
    exact drawing_congr hsize hstart htarget hobstacles none

/-! ## The robot on the board -/

/-- The robot changes what is drawn at its own cell, if that is on the board, and nowhere else. -/
theorem charAt?_drawing_ne_iff (level : Level) (r : Robot) (c : Cell) :
    charAt? (level.drawing (some r)) c ≠ charAt? (level.drawing none) c ↔
      c = r.position ∧ level.InBounds c := by
  rw [charAt?_drawing, charAt?_drawing]
  by_cases hc : level.InBounds c
  · rw [if_pos hc, if_pos hc, and_iff_left hc, Ne, Option.some_inj]
    constructor
    · intro hne
      by_contra hother
      exact hne (glyph_of_ne hother)
    · intro hposition hsame
      rw [glyph_of_eq hposition] at hsame
      exact level.fixture_ne_arrow c r.facing hsame.symm
  · rw [if_neg hc, if_neg hc]
    exact iff_of_false (not_not_intro rfl) fun h => hc h.2

/-- A robot that is not on the board is not drawn. -/
theorem drawing_of_not_inBounds (h : ¬ level.InBounds r.position) :
    level.drawing (some r) = level.drawing none := by
  have hglyph : ∀ y ∈ coordinates level.size, ∀ x ∈ coordinates level.size,
      level.glyph (some r) ⟨x, y⟩ = level.glyph none ⟨x, y⟩ := by
    intro y hy x hx
    refine glyph_of_ne ?_
    intro hcell
    exact h (hcell ▸ ⟨mem_coordinates.1 hx, mem_coordinates.1 hy⟩)
  have hrows : level.rows (some r) = level.rows none :=
    List.map_congr_left fun y hy => List.map_congr_left fun x hx => hglyph y hy x hx
  rw [drawing, drawing, hrows]

/-- Valid levels are drawn the same exactly if they have the same size, start, target and obstacles; no start
is drawn exactly if it is the target. With a robot there are as many rows as the size says, each of as many
cells. The drawing then differs from the one without the robot in the robot's own cell alone, and only if
that is on the board: there it shows the arrow of the direction that the rotation stands for, which is
another for every direction. -/
theorem drawing_tells_board :
    (∀ level other : Level, level.Valid → other.Valid →
      (level.drawing none = other.drawing none ↔
        level.size = other.size ∧ level.start = other.start ∧ level.target = other.target ∧
          level.obstacles = other.obstacles) ∧
      ('S' ∉ level.drawing none ↔ level.start = level.target)) ∧
    ∀ (level : Level) (r : Robot),
      (0 < level.size →
        ((level.drawing (some r)).splitOn '\n').length = level.size ∧
          ∀ row ∈ (level.drawing (some r)).splitOn '\n', row.length = level.size) ∧
      (∀ c, charAt? (level.drawing (some r)) c ≠ charAt? (level.drawing none) c ↔
        c = r.position ∧ level.InBounds c) ∧
      (¬ level.InBounds r.position → level.drawing (some r) = level.drawing none) ∧
      (level.InBounds r.position →
        charAt? (level.drawing (some r)) r.position = some (Direction.ofDegrees r.rotation).arrow ∧
          ∀ d : Direction, d.arrow = (Direction.ofDegrees r.rotation).arrow →
            d = Direction.ofDegrees r.rotation) := by
  refine ⟨?_, ?_⟩
  · intro level other hlevel hother
    refine ⟨drawing_eq_iff hlevel hother, ?_⟩
    rw [hlevel.start_mem_drawing_iff, not_not]
  · intro level r
    refine ⟨?_, level.charAt?_drawing_ne_iff r, drawing_of_not_inBounds, ?_⟩
    · intro hsize
      rw [splitOn_drawing hsize, length_rows, Int.toNat_of_nonneg (Int.le_of_lt hsize)]
      refine ⟨rfl, fun row hrow => ?_⟩
      rw [length_of_mem_rows hrow, Int.toNat_of_nonneg (Int.le_of_lt hsize)]
    · intro hbounds
      rw [charAt?_drawing, if_pos hbounds, glyph_of_eq rfl]
      exact ⟨rfl, fun d hd => Direction.arrow_injective hd⟩

/-- A board of three by three cells with one obstacle. -/
def lopsided (obstacle : Cell) : Level :=
  { id := 1, name := "lopsided", size := 3, start := ⟨0, 2⟩, target := ⟨2, 0⟩, facing := .up,
    obstacles := .ofList [obstacle], palette := [.forward], optimal := 4, hint := "" }

/-- Two such boards that only differ in the row and the column of the obstacle, and a robot that has turned
left from its start and stands on the obstacle. -/
theorem drawing_tells_board_lopsided :
    let level := lopsided ⟨1, 0⟩
    let other := lopsided ⟨0, 1⟩
    let robot : Robot := ⟨⟨1, 0⟩, -90⟩
    level.Valid ∧ other.Valid ∧ level.drawing none ≠ other.drawing none ∧ 'S' ∈ level.drawing none ∧
      (∀ row ∈ (level.drawing (some robot)).splitOn '\n', (row.length : Int) = 3) ∧
      level.InBounds robot.position ∧ charAt? (level.drawing (some robot)) ⟨1, 0⟩ = some '<' := by
  intro level other robot
  have hlevel : level.Valid := (faults_eq_nil_iff level).1 (by decide)
  have hother : other.Valid := (faults_eq_nil_iff other).1 (by decide)
  have hbounds : level.InBounds robot.position := by decide
  obtain ⟨hboards, hrobot⟩ := drawing_tells_board
  obtain ⟨hsame, hhidden⟩ := hboards level other hlevel hother
  obtain ⟨hrows, -, -, harrow⟩ := hrobot level robot
  refine ⟨hlevel, hother, ?_, ?_, (hrows hlevel.size_pos).2, hbounds, (harrow hbounds).1⟩
  · rw [Ne, hsame]
    decide
  · rw [← not_not (a := 'S' ∈ _), hhidden]
    decide

end Level

end RobotPuzzle
