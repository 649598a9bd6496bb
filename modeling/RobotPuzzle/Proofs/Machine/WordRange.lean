import RobotPuzzle.Proofs.Catalog.Decoding
import RobotPuzzle.Proofs.Machine.Coherence
import RobotPuzzle.Proofs.Machine.Limit
import RobotPuzzle.Proofs.Machine.Path

/-!
# Numbers of 32 bits

Coordinates and rotations are kept in 32 bits, but no unit looks whether what it works out still fits. On a
valid level it does, with one exception. The robot stays on the board and a rotation grows by a quarter turn
a unit, of which there are not many; but on a board of the largest size there is, a jump from the last
column or row leads one past the largest coordinate.

## Main definitions

- `Cell.Fits` — coordinates of 32 bits
- `Level.Brink` — two steps lead past the largest coordinate
- `Effect.numbers` — the numbers a unit has worked out

## Main statements

- `Level.fits_offset_jump_iff` — how far a jump leads
- `Machine.Reachable.natAbs_rotation_le` — how far a robot turns in a run
- `Machine.commitStep_fits_afterCalls` — the units whose numbers fit, after every history of calls
-/

namespace RobotPuzzle

/-! ## Cells in 32 bits -/

theorem IntRange.holds_signed32_iff {i : Int} :
    IntRange.signed32.Holds i ↔ -2147483648 ≤ i ∧ i ≤ 2147483647 := Iff.rfl

theorem IntRange.bmod_of_holds_signed32 {i : Int} (h : IntRange.signed32.Holds i) :
    i.bmod (Nat.pow 2 32) = i := by
  have hpow : Nat.pow 2 32 = 4294967296 := rfl
  rw [holds_signed32_iff] at h
  rw [hpow, Int.bmod_eq_of_le (by omega) (by omega)]

namespace Cell

variable {c : Cell}

/-- Both coordinates are in their range. -/
def Fits (c : Cell) : Prop := IntRange.signed32.Holds c.x ∧ IntRange.signed32.Holds c.y

instance (c : Cell) : Decidable c.Fits := inferInstanceAs (Decidable (_ ∧ _))

theorem wrapped_of_fits (h : c.Fits) : c.wrapped = c := by
  rw [wrapped, IntRange.bmod_of_holds_signed32 h.1, IntRange.bmod_of_holds_signed32 h.2]

end Cell

namespace Level

variable {level : Level} {c : Cell} {d : Direction} {steps : Int}

/-- The board has the largest size there is, and the cell is at the edge that the direction leads to where
coordinates are largest. -/
def Brink (level : Level) (c : Cell) (d : Direction) : Prop :=
  level.size = IntRange.signed32.high ∧
    (d = .right ∧ c.x = level.size - 1 ∨ d = .down ∧ c.y = level.size - 1)

/-- One step leads off the board at most, and around the board there is room. -/
theorem fits_offset_step (hsize : IntRange.signed32.Holds level.size) (hc : level.InBounds c)
    (hsteps : steps = 1 ∨ steps = -1) : (c.offset d steps).Fits := by
  obtain ⟨⟨hx, hxsize⟩, hy, hysize⟩ := hc
  rw [IntRange.holds_signed32_iff] at hsize
  rw [Cell.Fits, IntRange.holds_signed32_iff, IntRange.holds_signed32_iff]
  cases d <;> simp only [Cell.offset, Direction.delta] <;> omega

/-- A jump leads further, and at the brink too far. -/
theorem fits_offset_jump_iff (hsize : IntRange.signed32.Holds level.size) (hc : level.InBounds c) :
    (c.offset d 2).Fits ↔ ¬ level.Brink c d := by
  obtain ⟨⟨hx, hxsize⟩, hy, hysize⟩ := hc
  have hhigh : IntRange.signed32.high = 2147483647 := rfl
  rw [IntRange.holds_signed32_iff] at hsize
  rw [Cell.Fits, Brink, hhigh, IntRange.holds_signed32_iff, IntRange.holds_signed32_iff]
  cases d <;> simp [Cell.offset, Direction.delta] <;> omega

/-- From the brink a jump leads one past the largest coordinate. -/
theorem Brink.offset_jump (h : level.Brink c d) :
    (c.offset d 2).x = 2147483648 ∨ (c.offset d 2).y = 2147483648 := by
  have hhigh : IntRange.signed32.high = 2147483647 := rfl
  obtain ⟨hsize, ⟨rfl, hedge⟩ | ⟨rfl, hedge⟩⟩ := h
  · left
    simp only [Cell.offset, Direction.delta]
    omega
  · right
    simp only [Cell.offset, Direction.delta]
    omega

/-- What a jump from the brink leads to is not free, and neither is what arithmetic of 32 bits makes
of it. -/
theorem Brink.not_free (h : level.Brink c d) :
    ¬ level.Free (c.offset d 2) ∧ ¬ level.Free (c.offset d 2).wrapped := by
  -- the coordinate that is past the range is as large as the board, and wraps to the smallest there is
  have hsize : level.size = 2147483647 := h.1
  have hwrap : Int.bmod 2147483648 (Nat.pow 2 32) = -2147483648 := by decide
  rcases h.offset_jump with hpast | hpast
  · constructor <;> intro hfree
    · have hx := hfree.inBounds.1.2
      omega
    · have hx : 0 ≤ (c.offset d 2).x.bmod (Nat.pow 2 32) := hfree.inBounds.1.1
      rw [hpast, hwrap] at hx
      omega
  · constructor <;> intro hfree
    · have hy := hfree.inBounds.2.2
      omega
    · have hy : 0 ≤ (c.offset d 2).y.bmod (Nat.pow 2 32) := hfree.inBounds.2.1
      rw [hpast, hwrap] at hy
      omega

end Level

/-! ## What a unit works out -/

namespace Effect

/-- The cell a unit has worked out, whether the robot landed there or not. -/
def cell? : Effect → Option Cell
  | moved cell => some cell
  | jumped cell => some cell
  | blocked toward => some toward
  | _ => none

/-- The numbers a unit has worked out: the coordinates of a cell, or a rotation. -/
def numbers : Effect → List Int
  | turned rotation => [rotation]
  | e => e.cell?.elim [] fun c => [c.x, c.y]

/-- The numbers of a unit are in their range. -/
def Fits (e : Effect) : Prop := ∀ i ∈ e.numbers, IntRange.signed32.Holds i

theorem fits_iff_of_cell? {e : Effect} {c : Cell} (h : e.cell? = some c) : e.Fits ↔ c.Fits := by
  cases e <;> cases h <;> simp [Fits, numbers, cell?, Cell.Fits]

end Effect

/-- The unit is a jump. -/
def Beat.Jumps (beat : Beat) : Prop := beat.kind = .jump ∧ beat.marker = false

namespace Machine

variable {m : Machine} {level : Level} {h : Highlight} {t : Ticket} {maxUnits : Nat}

theorem carry_of_jump (hjump : h.beat.Jumps) :
    m.carry level h = m.takeUp.move level m.robot.facing 2 (some .jump) .jumped := by
  obtain ⟨hkind, hmarker⟩ := hjump
  rw [carry, if_neg (by simp [hmarker]), hkind]
  rfl

theorem cell?_move (m : Machine) (level : Level) (d : Direction) (steps : Int) (action : Option Action)
    {effect : Cell → Effect} (heffect : ∀ c, (effect c).cell? = some c) :
    (m.move level d steps action effect).1.cell? = some (m.robot.position.offset d steps) := by
  unfold move
  dsimp only
  split
  · exact heffect _
  · rfl

/-- Any other unit works out a cell one step away, a rotation a quarter turn away, or no number. -/
theorem effect_carry_cases (m : Machine) (level : Level) (hjump : ¬ h.beat.Jumps) :
    (∃ steps, (steps = 1 ∨ steps = -1) ∧
        (m.carry level h).1.cell? = some (m.robot.position.offset m.robot.facing steps)) ∨
      (∃ degrees, (degrees = 90 ∨ degrees = -90) ∧
        (m.carry level h).1 = .turned (m.robot.rotation + degrees)) ∨
      (m.carry level h).1.numbers = [] := by
  have hmove : ∀ d, (m.takeUp.move level d 1 none .moved).1.cell? =
      some (m.robot.position.offset d 1) := fun d => cell?_move _ _ _ _ _ fun _ => rfl
  unfold carry
  split
  · exact Or.inr (Or.inr rfl)
  · rename_i hmarker
    cases hkind : h.beat.kind with
    | forward => exact Or.inl ⟨1, Or.inl rfl, hmove _⟩
    | back =>
      refine Or.inl ⟨-1, Or.inr rfl, ?_⟩
      rw [← Cell.offset_opposite]
      exact hmove _
    | jump => exact absurd ⟨hkind, by simpa using hmarker⟩ hjump
    | turnLeft => exact Or.inr (Or.inl ⟨-90, Or.inr rfl, rfl⟩)
    | turnRight => exact Or.inr (Or.inl ⟨90, Or.inl rfl, rfl⟩)
    | wait | stop | loop => exact Or.inr (Or.inr rfl)

/-! ## How far a robot turns -/

/-- A robot has turned by a quarter turn a unit at most since its run began. -/
def TurnsSlowly (m : Machine) : Prop :=
  m.status = .running → m.robot.rotation.natAbs ≤ 270 + 90 * m.cursor

theorem TurnsSlowly.perform (hm : m.TurnsSlowly) (c : Call) : (m.perform c).2.TurnsSlowly := by
  have htransition := transition_perform m c
  generalize (m.perform c).1 = answer at htransition
  generalize (m.perform c).2 = after at htransition ⊢
  intro hrunning
  cases htransition with
  | loaded | reset | exhausted => cases hrunning
  | launched program level => exact Robot.natAbs_rotation_initial_le level
  | committed t level h howns =>
    have hunit := natAbs_rotation_carry_le m level h
    have hbefore := hm howns.2
    rw [cursor_carry]
    omega
  | ended t level h outcome status _ _ _ hend =>
    exact absurd hrunning (status_ne_running_of_ending hend)
  | refused | staleBegin | staleCommit | again | highlighted | notHighlighted | unbound =>
    exact hm hrunning

theorem Reachable.turnsSlowly (h : Reachable maxUnits m) : m.TurnsSlowly :=
  h.induction (P := TurnsSlowly) nofun fun _ c hm => hm.perform c

/-- In a run of not too many units a rotation fits, and so does the next one. -/
theorem Reachable.natAbs_rotation_le (hm : Reachable maxUnits m) (hmax : maxUnits < lengthCeiling)
    (howns : m.Owns t) (hh : m.highlight = some h) :
    m.robot.rotation.natAbs + 90 ≤ 270 + 90 * maxUnits := by
  have hturns := hm.turnsSlowly howns.2
  have hunits := hm.size_units_le hmax
  obtain ⟨calls, rfl⟩ := hm
  obtain ⟨-, -, hbeat⟩ := ((Coherent.new maxUnits).afterCalls calls).highlighted h hh
  have hcursor := (Array.getElem?_eq_some_iff.1 hbeat).1
  omega

/-! ## The units whose numbers fit -/

/-- A unit works out numbers that fit if the robot is on the board and has not turned too far, unless it is
a jump from the brink. -/
theorem fits_carry_iff (hfree : level.Free m.robot.position) (hsize : IntRange.signed32.Holds level.size)
    (hrotation : m.robot.rotation.natAbs + 90 ≤ 2147483647) :
    (m.carry level h).1.Fits ↔ ¬ (h.beat.Jumps ∧ level.Brink m.robot.position m.robot.facing) := by
  have hbounds := hfree.inBounds
  by_cases hjump : h.beat.Jumps
  · have hcell : (m.carry level h).1.cell? = some (m.robot.position.offset m.robot.facing 2) := by
      rw [carry_of_jump hjump]
      exact cell?_move _ _ _ _ _ fun _ => rfl
    rw [Effect.fits_iff_of_cell? hcell, Level.fits_offset_jump_iff hsize hbounds, and_iff_right hjump]
  · refine iff_of_true ?_ (mt And.left hjump)
    rcases effect_carry_cases m level hjump with
      ⟨steps, hsteps, hcell⟩ | ⟨degrees, hdegrees, heffect⟩ | hnone
    · exact (Effect.fits_iff_of_cell? hcell).2 (Level.fits_offset_step hsize hbounds hsteps)
    · rw [heffect]
      refine List.forall_mem_singleton.2 (IntRange.holds_signed32_iff.2 ?_)
      omega
    · rw [Effect.Fits, hnone]
      exact List.forall_mem_nil _

/-- Whatever calls a machine with the usual bound on units has had, every coordinate and every rotation that
a unit works out on a level without faults is in its range, unless the unit is a jump from the brink. Such a
jump works out a coordinate one past the range, is blocked, and does nothing but take the unit up. In
coordinates that wrap around it is blocked as well, like every other unit that is. -/
theorem commitStep_fits_afterCalls (calls : List Call) {level : Level} {t : Ticket} {step : Step}
    (hlevel : ((new defaultMaxUnits).afterCalls calls).level = some level) (hfaults : level.faults = [])
    (hsize : IntRange.signed32.Holds level.size)
    (hstep : (((new defaultMaxUnits).afterCalls calls).commitStep t).1 = .applied step) :
    let m := (new defaultMaxUnits).afterCalls calls
    ((∀ i ∈ step.effect.numbers, IntRange.signed32.Holds i) ↔
        ¬ (step.beat.Jumps ∧ level.Brink m.robot.position m.robot.facing)) ∧
      (step.beat.Jumps → level.Brink m.robot.position m.robot.facing →
        step.effect = .blocked (m.robot.position.offset m.robot.facing 2) ∧
          2147483648 ∈ step.effect.numbers ∧ (m.commitStep t).2 = m.takeUp) ∧
      ∀ c, step.effect.cell? = some c → (level.Free c.wrapped ↔ level.Free c) := by
  intro m
  have hm : Reachable defaultMaxUnits m := ⟨calls, rfl⟩
  obtain ⟨h, howns, hh, hbeat, heffect, hafter⟩ := exists_highlight_of_applied hlevel hstep
  -- the robot is where the last snapshot shows it, and a path of a valid level is on free cells
  have hfree : level.Free m.robot.position := by
    have hpath := hm.traced.onPath howns.2 hlevel
    obtain ⟨s, hs, hrobot⟩ := Option.map_eq_some_iff.1 hpath.last
    rw [← hrobot]
    exact hpath.path.free_of_valid (level.faults_eq_nil_iff.1 hfaults) s
      (Array.mem_toList_iff.2 (Array.mem_of_back? hs))
  have hrotation : m.robot.rotation.natAbs + 90 ≤ 2147483647 := by
    have hturns := hm.natAbs_rotation_le (by decide) howns hh
    rw [defaultMaxUnits] at hturns
    omega
  have hfits := fits_carry_iff (h := h) hfree hsize hrotation
  rw [← heffect, ← hbeat] at hfits
  have hblocked : step.beat.Jumps → level.Brink m.robot.position m.robot.facing →
      m.carry level h = (.blocked (m.robot.position.offset m.robot.facing 2), m.takeUp) := by
    intro hjump hbrink
    rw [hbeat] at hjump
    rw [carry_of_jump hjump, move]
    exact if_neg hbrink.not_free.1
  refine ⟨hfits, ?_, ?_⟩
  · intro hjump hbrink
    have hcarry := hblocked hjump hbrink
    rw [hcarry] at heffect hafter
    refine ⟨heffect, ?_, hafter rfl⟩
    rw [heffect]
    rcases hbrink.offset_jump with hpast | hpast
    · exact hpast ▸ List.mem_cons_self
    · exact hpast ▸ List.mem_cons_of_mem _ List.mem_cons_self
  · intro c hcell
    by_cases hbrink : step.beat.Jumps ∧ level.Brink m.robot.position m.robot.facing
    · rw [hblocked hbrink.1 hbrink.2] at heffect
      rw [heffect] at hcell
      cases hcell
      obtain ⟨hexact, hwrapped⟩ := hbrink.2.not_free
      exact iff_of_false hwrapped hexact
    · have hc := (Effect.fits_iff_of_cell? hcell).1 (hfits.2 hbrink)
      rw [Cell.wrapped_of_fits hc]

/-- The largest board there is, with the robot in its first row facing right. -/
def widest (column : Int) : Level :=
  { id := 1, name := "", size := 2147483647, start := ⟨column, 0⟩, target := ⟨0, 0⟩, facing := .right,
    obstacles := .empty, palette := [.jump], optimal := 1, hint := "" }

/-- A client is about to commit a jump there. -/
def poised (column : Int) : List Call :=
  [.start (.ofForest (.command () .jump .nil)) (some (widest column)), .beginStep ⟨1⟩]

/-- Next to the last column the jump still works out numbers in their range, and is blocked. -/
theorem commitStep_fits_afterCalls_next_to_last :
    ((new defaultMaxUnits).afterCalls (poised 2147483645)).level = some (widest 2147483645) ∧
      (widest 2147483645).faults = [] ∧
      ∃ step, (((new defaultMaxUnits).afterCalls (poised 2147483645)).commitStep ⟨1⟩).1 = .applied step ∧
        step.effect = .blocked ⟨2147483647, 0⟩ ∧
        ∀ i ∈ step.effect.numbers, IntRange.signed32.Holds i := by
  have hlevel : ((new defaultMaxUnits).afterCalls (poised 2147483645)).level =
      some (widest 2147483645) := by decide
  have hfaults : (widest 2147483645).faults = [] := by decide
  have hstep : (((new defaultMaxUnits).afterCalls (poised 2147483645)).commitStep ⟨1⟩).1 =
      .applied ⟨0, .ofCommand 0 .jump, .blocked ⟨2147483647, 0⟩, none⟩ := by decide
  have hfits := commitStep_fits_afterCalls (poised 2147483645) hlevel hfaults (by decide) hstep
  refine ⟨hlevel, hfaults, _, hstep, rfl, hfits.1.2 ?_⟩
  rintro ⟨-, -, ⟨-, hedge⟩ | ⟨hdown, -⟩⟩
  · exact absurd hedge (by decide)
  · exact absurd hdown (by decide)

/-- From the last column it works out a coordinate past the range, after the unit was taken up. -/
theorem commitStep_past_range :
    let m := (new defaultMaxUnits).afterCalls (poised 2147483646)
    m.level = some (widest 2147483646) ∧ (widest 2147483646).faults = [] ∧
      IntRange.signed32.Holds (widest 2147483646).size ∧
      (m.commitStep ⟨1⟩).1 =
        .applied ⟨0, .ofCommand 0 .jump, .blocked ⟨2147483648, 0⟩, none⟩ ∧
      ¬ IntRange.signed32.Holds 2147483648 ∧
      (m.commitStep ⟨1⟩).2.highlight = none ∧ (m.commitStep ⟨1⟩).2.cursor = m.cursor + 1 := by
  decide

end Machine

end RobotPuzzle
