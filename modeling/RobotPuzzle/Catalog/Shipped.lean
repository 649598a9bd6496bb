import RobotPuzzle.Catalog.Basic

/-!
# The shipped levels

The twenty levels that come with the game, from a straight walk to a maze.

## Main definitions

- `Catalog.shipped` — the catalog used when no other is configured

## Main statements

- `Catalog.faults_shipped` — the shipped levels keep every rule
-/

namespace RobotPuzzle.Catalog

/-- The cells with these columns and rows. -/
def cellsAt (coordinates : List (Int × Int)) : CellSet :=
  .ofList (coordinates.map fun (x, y) => ⟨x, y⟩)

/-- The twenty levels that come with the game. -/
def shipped : Catalog where
  levels :=
    [{ id := 1, name := "First Step", size := 5,
       start := ⟨2, 4⟩, target := ⟨2, 2⟩, facing := .up,
       obstacles := cellsAt [],
       palette := [.forward], optimal := 2,
       hint := "Move the robot 2 steps forward!" },
     { id := 2, name := "A Little Further", size := 5,
       start := ⟨2, 4⟩, target := ⟨2, 0⟩, facing := .up,
       obstacles := cellsAt [],
       palette := [.forward], optimal := 4,
       hint := "Reaching the target takes 4 steps." },
     { id := 3, name := "Corner to Corner", size := 5,
       start := ⟨0, 4⟩, target := ⟨0, 0⟩, facing := .up,
       obstacles := cellsAt [],
       palette := [.forward], optimal := 4,
       hint := "A straight road, just go forward!" },
     { id := 4, name := "Long Road", size := 6,
       start := ⟨2, 5⟩, target := ⟨2, 0⟩, facing := .up,
       obstacles := cellsAt [],
       palette := [.forward], optimal := 5,
       hint := "Go 5 steps forward." },
     { id := 5, name := "Sideways Trip", size := 5,
       start := ⟨0, 2⟩, target := ⟨4, 2⟩, facing := .right,
       obstacles := cellsAt [],
       palette := [.forward], optimal := 4,
       hint := "The robot faces right, go forward!" },
     { id := 6, name := "First Turn", size := 5,
       start := ⟨0, 4⟩, target := ⟨2, 4⟩, facing := .up,
       obstacles := cellsAt [],
       palette := [.forward, .turnRight], optimal := 2,
       hint := "Go 2 steps to the right!" },
     { id := 7, name := "L Shape", size := 5,
       start := ⟨0, 4⟩, target := ⟨2, 2⟩, facing := .up,
       obstacles := cellsAt [],
       palette := [.forward, .turnRight], optimal := 4,
       hint := "Go up 2, then right 2." },
     { id := 8, name := "Reverse L", size := 5,
       start := ⟨4, 4⟩, target := ⟨2, 2⟩, facing := .up,
       obstacles := cellsAt [],
       palette := [.forward, .turnLeft], optimal := 4,
       hint := "Go up 2, then left 2." },
     { id := 9, name := "Zigzag", size := 5,
       start := ⟨0, 4⟩, target := ⟨4, 2⟩, facing := .up,
       obstacles := cellsAt [],
       palette := [.forward, .turnLeft, .turnRight], optimal := 6,
       hint := "Go up 2, then right 4." },
     { id := 10, name := "Square Trip", size := 5,
       start := ⟨1, 3⟩, target := ⟨3, 1⟩, facing := .up,
       obstacles := cellsAt [],
       palette := [.forward, .turnLeft, .turnRight], optimal := 4,
       hint := "Go up 2, then right 2." },
     { id := 11, name := "Power of Repeat", size := 6,
       start := ⟨2, 5⟩, target := ⟨2, 0⟩, facing := .up,
       obstacles := cellsAt [],
       palette := [.forward, .turnLeft, .turnRight, .loop], optimal := 2,
       hint := "Use a loop to make 5 steps with 2 commands!" },
     { id := 12, name := "Repeating Turn", size := 5,
       start := ⟨0, 4⟩, target := ⟨4, 0⟩, facing := .up,
       obstacles := cellsAt [],
       palette := [.forward, .turnRight, .loop], optimal := 4,
       hint := "Repeat forward-right-forward." },
     { id := 13, name := "Spiral", size := 6,
       start := ⟨0, 5⟩, target := ⟨3, 2⟩, facing := .up,
       obstacles := cellsAt [],
       palette := [.forward, .turnLeft, .turnRight, .loop], optimal := 6,
       hint := "Use loops and turns wisely." },
     { id := 14, name := "Staircase", size := 6,
       start := ⟨0, 5⟩, target := ⟨5, 0⟩, facing := .up,
       obstacles := cellsAt [],
       palette := [.forward, .turnRight, .loop], optimal := 4,
       hint := "Repeat forward-right-forward, 5 times." },
     { id := 15, name := "Loop Master", size := 7,
       start := ⟨0, 6⟩, target := ⟨6, 0⟩, facing := .up,
       obstacles := cellsAt [],
       palette := [.forward, .turnLeft, .turnRight, .loop], optimal := 5,
       hint := "Find the most efficient path!" },
     { id := 16, name := "Dodge the Obstacle", size := 5,
       start := ⟨2, 4⟩, target := ⟨2, 0⟩, facing := .up,
       obstacles := cellsAt [(2, 2)],
       palette := [.forward, .turnLeft, .turnRight], optimal := 6,
       hint := "Walk around the obstacle to get past it." },
     { id := 17, name := "Maze Start", size := 6,
       start := ⟨0, 5⟩, target := ⟨5, 0⟩, facing := .up,
       obstacles := cellsAt [(2, 3), (3, 2)],
       palette := [.forward, .turnLeft, .turnRight, .jump], optimal := 10,
       hint := "Turn and jump to avoid the obstacles!" },
     { id := 18, name := "Wall", size := 6,
       start := ⟨0, 3⟩, target := ⟨5, 3⟩, facing := .right,
       obstacles := cellsAt [(2, 2), (2, 3), (2, 4)],
       palette := [.forward, .turnLeft, .turnRight], optimal := 8,
       hint := "Go over or under the wall." },
     { id := 19, name := "Winding Road", size := 7,
       start := ⟨0, 6⟩, target := ⟨6, 0⟩, facing := .up,
       obstacles := cellsAt [(2, 4), (3, 3), (4, 2), (5, 1)],
       palette := [.forward, .turnLeft, .turnRight, .jump, .wait, .loop], optimal := 12,
       hint := "Use every command wisely." },
     { id := 20, name := "Final Challenge", size := 8,
       start := ⟨0, 7⟩, target := ⟨7, 0⟩, facing := .up,
       obstacles := cellsAt [(2, 5), (2, 4), (4, 6), (4, 5), (4, 4), (6, 3), (6, 2)],
       palette := [.forward, .turnLeft, .turnRight, .jump, .wait, .loop], optimal := 15,
       hint := "Use every skill and reach the target!" }]

/-- The shipped levels keep every rule. -/
theorem faults_shipped : faults shipped.levels = [] := by
  decide

end RobotPuzzle.Catalog
