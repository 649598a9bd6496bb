/-!
# Directions

The four facings of the robot. A robot keeps an accumulated rotation in degrees; `Direction.ofDegrees`
reads the facing off it, and `Direction.degrees` is its one-sided inverse.

## Main definitions

- `Direction.degrees`, `Direction.ofDegrees` — facing and rotation
- `Direction.delta` — the unit step of a facing, with `y` growing downwards
- `Direction.opposite`, `Direction.clockwise` — half and quarter turn
-/

namespace RobotPuzzle

/-- A facing of the robot. -/
inductive Direction
  | up
  | right
  | down
  | left
deriving DecidableEq, Repr, Inhabited

namespace Direction

/-- The four directions in clockwise order. -/
def all : List Direction := [up, right, down, left]

/-- The rotation, in degrees clockwise from up, of a robot with this facing. -/
def degrees : Direction → Int
  | up => 0
  | right => 90
  | down => 180
  | left => 270

/-- The facing of an accumulated rotation: it counts modulo a full turn, and a rotation that is no
multiple of a quarter turn faces up. -/
def ofDegrees (rotation : Int) : Direction :=
  if rotation % 360 = 90 then right
  else if rotation % 360 = 180 then down
  else if rotation % 360 = 270 then left
  else up

/-- The unit step `(dx, dy)` of a facing. -/
def delta : Direction → Int × Int
  | up => (0, -1)
  | right => (1, 0)
  | down => (0, 1)
  | left => (-1, 0)

/-- The facing after a half turn. -/
def opposite : Direction → Direction
  | up => down
  | right => left
  | down => up
  | left => right

/-- The facing after a quarter turn clockwise. -/
def clockwise : Direction → Direction
  | up => right
  | right => down
  | down => left
  | left => up

/-- The facing after a quarter turn counter-clockwise. -/
def counterclockwise : Direction → Direction
  | up => left
  | right => up
  | down => right
  | left => down

/-- The written name of a facing. -/
def name : Direction → String
  | up => "UP"
  | right => "RIGHT"
  | down => "DOWN"
  | left => "LEFT"

/-- The facing of a written name; case matters. -/
def ofName? (s : String) : Option Direction :=
  all.find? (·.name == s)

@[simp] theorem ofDegrees_degrees (d : Direction) : ofDegrees d.degrees = d := by
  cases d <;> decide

/-- A full turn either way does not change the facing. -/
theorem ofDegrees_add_full_turn (r : Int) : ofDegrees (r + 360) = ofDegrees r := by
  simp [ofDegrees]

/-- The facing is told by the rotation up to full turns. -/
theorem ofDegrees_congr {r r' : Int} (h : r % 360 = r' % 360) : ofDegrees r = ofDegrees r' := by
  rw [ofDegrees, ofDegrees, h]

@[simp] theorem opposite_opposite (d : Direction) : d.opposite.opposite = d := by
  cases d <;> rfl

@[simp] theorem clockwise_clockwise (d : Direction) : d.clockwise.clockwise = d.opposite := by
  cases d <;> rfl

@[simp] theorem counterclockwise_clockwise (d : Direction) : d.clockwise.counterclockwise = d := by
  cases d <;> rfl

@[simp] theorem clockwise_counterclockwise (d : Direction) : d.counterclockwise.clockwise = d := by
  cases d <;> rfl

/-- A multiple of a quarter turn is one of four rotations up to full turns. -/
private theorem emod_cases {r : Int} (h : 90 ∣ r) :
    r % 360 = 0 ∨ r % 360 = 90 ∨ r % 360 = 180 ∨ r % 360 = 270 := by
  omega

theorem ofDegrees_add_quarter {r : Int} (h : 90 ∣ r) :
    ofDegrees (r + 90) = (ofDegrees r).clockwise := by
  rcases emod_cases h with hr | hr | hr | hr
  · have hsum : (r + 90) % 360 = 90 := by omega
    simp [ofDegrees, hr, hsum, clockwise]
  · have hsum : (r + 90) % 360 = 180 := by omega
    simp [ofDegrees, hr, hsum, clockwise]
  · have hsum : (r + 90) % 360 = 270 := by omega
    simp [ofDegrees, hr, hsum, clockwise]
  · have hsum : (r + 90) % 360 = 0 := by omega
    simp [ofDegrees, hr, hsum, clockwise]

theorem ofDegrees_sub_quarter {r : Int} (h : 90 ∣ r) :
    ofDegrees (r + -90) = (ofDegrees r).counterclockwise := by
  have hback : 90 ∣ r + -90 := by omega
  rw [← counterclockwise_clockwise (ofDegrees (r + -90)), ← ofDegrees_add_quarter hback,
    Int.neg_add_cancel_right]

theorem dvd_degrees (d : Direction) : 90 ∣ d.degrees := by
  cases d <;> decide

@[simp] theorem ofName?_name (d : Direction) : ofName? d.name = some d := by
  cases d <;> decide

theorem name_injective : Function.Injective name := by
  intro d e h
  have hsome := congrArg ofName? h
  rw [ofName?_name, ofName?_name] at hsome
  exact Option.some.inj hsome

end Direction

end RobotPuzzle
