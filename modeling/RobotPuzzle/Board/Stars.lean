/-!
# Stars

A solved level earns stars for a short program.

## Main definitions

- `earnedStars` — the stars for a number of top-level instructions
-/

namespace RobotPuzzle

/-- Three stars for a program no longer than the optimal one, and one less for each further
instruction until none is left. -/
def earnedStars (instructions optimal : Nat) : Nat :=
  if instructions ≤ optimal then 3
  else if instructions = optimal + 1 then 2
  else if instructions = optimal + 2 then 1
  else 0

theorem earnedStars_le (instructions optimal : Nat) : earnedStars instructions optimal ≤ 3 := by
  unfold earnedStars
  repeat' split
  all_goals omega

end RobotPuzzle
