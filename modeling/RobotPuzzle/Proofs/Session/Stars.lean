import RobotPuzzle.Catalog.Shipped
import RobotPuzzle.Proofs.Program.Lookup
import RobotPuzzle.Session.Basic

/-!
# Stars and later moves

A report does not say how many instructions earned it, so its stars are told from the program the session
has when it is asked. Right after the run that is the program that was run. Later it is what the moves have
made of it since, and the report keeps its stars exactly if that program is worth as many.

## Main definitions

- `Session.Move.author` — what a move makes of the program
- `Session.Move.SparesTopLevel` — a move that adds no instruction to the top level and takes none away

## Main statements

- `Session.program_afterMoves` — the program of a session is made by its authoring moves alone
- `Session.stars_afterMoves` — the stars of a report after any moves, and when they are those it earned
-/

namespace RobotPuzzle

/-! ## The number of top-level instructions -/

namespace Program

variable {p q : Program} {id : NodeId} {parent : Option NodeId}

theorem length_setSequence {ids old : List NodeId} (hold : p.sequence? parent = some old)
    (hlength : ids.length = old.length) : (p.setSequence parent ids).length = p.length := by
  cases parent with
  | none =>
    obtain rfl := Option.some.inj hold
    exact hlength
  | some loopId => rfl

theorem length_of_insert {op : Op} (h : p.insert op parent = some (id, q)) (hparent : parent.isSome) :
    q.length = p.length := by
  obtain ⟨loopId, rfl⟩ := Option.isSome_iff_exists.1 hparent
  obtain ⟨-, ids, -, rfl⟩ := insert_eq_some_iff.1 h
  rfl

theorem length_of_reorder {source dest : Nat} (h : p.reorder parent source dest = some q) :
    q.length = p.length := by
  obtain ⟨ids, moved, hids, hmoved, hdest, rfl⟩ := reorder_eq_some_iff.1 h
  exact length_setSequence hids (perm_move hmoved hdest).length_eq

theorem length_of_setCount {count : Nat} (h : p.setCount id count = some q) : q.length = p.length := by
  obtain ⟨ids, -, rfl⟩ := setCount_eq_some_iff.1 h
  rfl

end Program

namespace Session

variable {s next : Session} {watch : Watch} {script : Script} {r : RunReport} {notes : Array Note}

/-! ## What moves make of the program -/

/-- What a move makes of the program. Runs and resets of the machine leave it. -/
def Move.author : Move → Program → Program
  | edit e, p => (e.perform p).2
  | setProgram program, _ => program
  | resetGame, p => p.clear
  | run _ _, p | resetPosition, p | resetMachine, p => p

/-- The move adds no instruction to the top level and takes none away. -/
def Move.SparesTopLevel : Move → Prop
  | edit (.append _ parent) => parent.isSome
  | edit (.appendLoop _ parent) => parent.isSome
  | edit (.reorder _ _ _) | edit (.setCount _ _) => True
  | edit (.remove _) | edit .clear | setProgram _ | resetGame => False
  | run _ _ | resetPosition | resetMachine => True

theorem Move.length_author {move : Move} (h : move.SparesTopLevel) (p : Program) :
    (move.author p).length = p.length := by
  cases move with
  | edit e =>
    cases e with
    | append kind parent =>
      exact Edit.ofAddition_induction (P := fun q => q.length = p.length) rfl
        fun _ _ hq => Program.length_of_insert hq h
    | appendLoop count parent =>
      exact Edit.ofAddition_induction (P := fun q => q.length = p.length) rfl
        fun _ _ hq => Program.length_of_insert hq h
    | reorder parent source dest =>
      exact Edit.ofChange_induction (P := fun q => q.length = p.length) rfl
        fun _ hq => Program.length_of_reorder hq
    | setCount id count =>
      exact Edit.ofChange_induction (P := fun q => q.length = p.length) rfl
        fun _ hq => Program.length_of_setCount hq
    | remove | clear => exact absurd h id
  | setProgram | resetGame => exact absurd h id
  | run | resetPosition | resetMachine => rfl

theorem program_perform (s : Session) (move : Move) :
    (s.perform move).2.program = move.author s.program := by
  cases move <;> rfl

theorem level_perform (s : Session) (move : Move) : (s.perform move).2.level = s.level := by
  cases move <;> rfl

/-- The program of a session is made by its authoring moves alone. -/
theorem program_afterMoves (s : Session) (moves : List Move) :
    (s.afterMoves moves).program = moves.foldl (fun p move => move.author p) s.program := by
  induction moves generalizing s with
  | nil => rfl
  | cons move moves ih => exact (ih _).trans (congrArg (moves.foldl _) (s.program_perform move))

theorem level_afterMoves (s : Session) (moves : List Move) : (s.afterMoves moves).level = s.level := by
  induction moves generalizing s with
  | nil => rfl
  | cons move moves ih => exact (ih _).trans (s.level_perform move)

theorem length_afterMoves {moves : List Move} (h : ∀ move ∈ moves, move.SparesTopLevel) (s : Session) :
    (s.afterMoves moves).program.length = s.program.length := by
  induction moves generalizing s with
  | nil => rfl
  | cons move moves ih =>
    rw [List.forall_mem_cons] at h
    calc ((s.perform move).2.afterMoves moves).program.length
        = (s.perform move).2.program.length := ih h.2 _
      _ = (move.author s.program).length := by rw [program_perform]
      _ = s.program.length := Move.length_author h.1 _

/-! ## Stars -/

theorem stars_eq (s : Session) (r : RunReport) :
    s.stars r = if r.reachedTarget then earnedStars s.program.length s.level.optimal else 0 := rfl

/-- A run leaves the program and the level. -/
theorem of_run (hrun : s.run watch script = (some r, notes, next)) :
    next.program = s.program ∧ next.level = s.level := by
  rw [run] at hrun
  obtain rfl := (Prod.ext_iff.1 (Prod.ext_iff.1 hrun).2).2
  exact ⟨rfl, rfl⟩

/-- The stars a run earned are those of its report right after it. After further moves the report has those
of the program that the authoring moves have made by then, and they are the ones it earned exactly if the
run did not reach the target or that program is worth as many. So it is if no move touches the number of
top-level instructions, whatever else is done; and if the program is thrown away, three stars are left of
every report of a target reached. -/
theorem stars_afterMoves (hrun : s.run watch script = (some r, notes, next)) (moves : List Move) :
    let earned := if r.outcome = .won then earnedStars s.program.length s.level.optimal else 0
    let later := next.afterMoves moves
    let authored := moves.foldl (fun p move => move.author p) s.program
    next.stars r = earned ∧
      later.stars r = (if r.outcome = .won then earnedStars authored.length s.level.optimal else 0) ∧
      (later.stars r = earned ↔ r.outcome ≠ .won ∨
        earnedStars authored.length s.level.optimal = earnedStars s.program.length s.level.optimal) ∧
      ((∀ move ∈ moves, move.SparesTopLevel) → later.stars r = earned) ∧
      (r.outcome = .won → (next.afterMoves (moves ++ [.resetGame])).stars r = 3) := by
  intro earned later authored
  obtain ⟨hprogram, hlevel⟩ := of_run hrun
  have hnow : next.stars r = earned := by
    simp only [stars_eq, RunReport.reachedTarget, decide_eq_true_eq, hprogram, hlevel, earned]
  have hlater : later.stars r =
      if r.outcome = .won then earnedStars authored.length s.level.optimal else 0 := by
    simp only [stars_eq, RunReport.reachedTarget, decide_eq_true_eq, later, authored, program_afterMoves,
      level_afterMoves, hprogram, hlevel]
  refine ⟨hnow, hlater, ?_, ?_, ?_⟩
  · rw [hlater]
    by_cases hwon : r.outcome = .won
    · simp [earned, hwon]
    · simp [earned, hwon]
  · intro hspares
    have hlength : authored.length = s.program.length := by
      rw [← hprogram, ← length_afterMoves hspares next, program_afterMoves, hprogram]
    rw [hlater, hlength]
  · intro hwon
    have hcleared : (next.afterMoves (moves ++ [.resetGame])).program.length = 0 := by
      rw [program_afterMoves, List.foldl_concat]
      rfl
    rw [stars_eq, hcleared]
    simp [RunReport.reachedTarget, hwon, earnedStars]

/-- Two steps forward on the first shipped level. -/
def firstSteps : Session :=
  { new Catalog.shipped.levels[0] defaultMaxUnits with
    program := .ofForest (.command () .forward (.command () .forward .nil)) }

/-- The report of the two steps has its stars after they have changed places and have been run again, and
the robot has been put back. -/
theorem stars_afterMoves_reordered :
    ∃ r notes next, firstSteps.run {} .done = (some r, notes, next) ∧ r.outcome = .won ∧
      (next.afterMoves [.edit (.reorder none 0 1), .run {} .done, .resetPosition]).stars r = 3 := by
  have houtcome : (firstSteps.run {} .done).1.map (·.outcome) = some .won := by decide
  generalize hrun : firstSteps.run {} .done = out at houtcome
  obtain ⟨r, notes, next⟩ := out
  obtain ⟨r, rfl, hwon⟩ := Option.map_eq_some_iff.1 houtcome
  refine ⟨r, notes, next, rfl, hwon, ?_⟩
  obtain ⟨-, -, -, hspared, -⟩ := stars_afterMoves hrun [.edit (.reorder none 0 1), .run {} .done, .resetPosition]
  rw [hspared (by simp [Move.SparesTopLevel]), if_pos hwon]
  rfl

/-- Three instructions more that are never run leave nothing of the three stars that the two steps have
earned, and without any instruction they are back. -/
theorem stars_of_lengthened :
    let out := firstSteps.run {} .done
    let waits := List.replicate 3 (Move.edit (.append .wait none))
    out.1.map (·.outcome) = some .won ∧ out.1.map out.2.2.stars = some 3 ∧
      out.1.map (out.2.2.afterMoves waits).stars = some 0 ∧
      out.1.map (out.2.2.afterMoves (waits ++ [.resetGame])).stars = some 3 := by
  decide

end Session

end RobotPuzzle
