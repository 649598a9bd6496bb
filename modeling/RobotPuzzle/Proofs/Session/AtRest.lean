import RobotPuzzle.Proofs.Program.Denotation
import RobotPuzzle.Proofs.Run.Course
import RobotPuzzle.Proofs.Session.Stars

/-!
# Sessions between runs

A session shares its machine with whoever watches its runs, and a watcher may reset the machine in the middle of
one. However a run ends, by its last unit, by a unit that ends it, or because the machine was taken away from
it, the machine is not running when the player has it back, and it is bound to the level of the session all the
time. So the only reasons to refuse a run are the program's: it has no instruction, or too many units.

## Main definitions

- `Machine.Resets` — the machine is as it was, or was reset any number of times
- `Callback.OnlyResets` — the watcher looks at the machine and resets it, no more
- `Session.Proceeds` — what one move of the player makes of a session
- `Session.AtRest` — the session is between two moves of its player

## Main statements

- `Machine.Course.setting_eq` — what a run with such a watcher leaves as it is, at every handover
- `Machine.Course.status_ne_running` — no such run leaves the machine running
- `Session.AtRest.proceed` — moves lead from rest to rest
- `Session.AtRest.runWith_eq_none_iff` — when a run is refused
- `Session.rests_between_moves` — all of this after every history of moves
-/

namespace RobotPuzzle

variable {ε : Type} {callback : Callback ε}

/-! ## Resets -/

namespace Machine

variable {m n k : Machine} {level : Level}

/-- The machine is as it was, or it was reset any number of times. -/
inductive Resets : Machine → Machine → Prop
  | same (m : Machine) : Resets m m
  | reset {m n : Machine} (h : Resets m.reset n) : Resets m n

/-- What is not touched by runs on the level that is bound already: the level and the limit. -/
def setting (m : Machine) : Option Level × Nat := (m.level, m.maxUnits)

theorem setting_carry (m : Machine) (level : Level) (u : Highlight) :
    (m.carry level u).2.setting = m.setting := by
  obtain ⟨_, _, heq⟩ := exists_carry_eq m level u
  rw [heq]
  rfl

theorem setting_launched (h : m.level = some level) (units : List Beat) :
    (m.launched level units).setting = m.setting := by
  rw [setting, setting, h]
  rfl

namespace Resets

theorem setting_eq (h : m.Resets n) : n.setting = m.setting := by
  induction h with
  | same m => rfl
  | reset _ ih => exact ih

/-- A machine that was reset is idle. -/
theorem idle_or_eq (h : m.Resets n) : n = m ∨ n.status = .idle ∧ m.generation < n.generation := by
  induction h with
  | same m => exact Or.inl rfl
  | @reset m n _ ih =>
    have hlater : m.generation < m.reset.generation := Nat.lt_succ_self _
    rcases ih with rfl | ⟨hidle, hgeneration⟩
    · exact Or.inr ⟨rfl, hlater⟩
    · exact Or.inr ⟨hidle, Nat.lt_trans hlater hgeneration⟩

theorem status_ne_running (h : m.Resets n) (hm : m.status ≠ .running) : n.status ≠ .running := by
  rcases h.idle_or_eq with rfl | ⟨hidle, -⟩
  · exact hm
  · rw [hidle]
    exact nofun

end Resets

end Machine

/-! ## Watchers -/

/-- The callback looks at the machine and resets it, no more. -/
def Callback.OnlyResets (callback : Callback ε) : Prop :=
  ∀ (event : Event) (m : Machine), m.Resets (callback event m).2

/-- The script looks at the machine and resets it, no more. -/
def Script.OnlyResets : Script → Prop
  | done => True
  | reset _ rest => rest.OnlyResets
  | view _ rest => rest.OnlyResets
  | loadLevel _ _ _ => False
  | run _ _ _ _ => False

theorem Script.OnlyResets.play {script : Script} (h : script.OnlyResets) (cue : Cue) (m : Machine) :
    m.Resets (script.play cue m).2 := by
  induction script generalizing m with
  | done => exact .same m
  | reset c rest ih =>
    rw [Script.play]
    split
    · exact .reset (ih h m.reset)
    · exact ih h m
  | view c rest ih =>
    rw [Script.play]
    split
    · exact ih h m
    · exact ih h m
  | loadLevel c level rest => exact absurd h id
  | run c request nested rest => exact absurd h id

namespace Callback.OnlyResets

variable {x : Handover ε}

theorem fenced (h : callback.OnlyResets) : callback.Fenced := fun event m =>
  (h event m).idle_or_eq.imp id And.right

theorem watching {script : Script} (h : script.OnlyResets) (watch : Watch) :
    (Callback.watching watch script.play).OnlyResets := by
  intro event m
  unfold Callback.watching
  split
  · exact h.play event.cue m
  · exact .same m

end Callback.OnlyResets

/-! ## Runs that are only reset -/

namespace Machine

variable {m n : Machine} {level : Level} {beats : List Beat} {xs : List (Handover ε)} {r : RunReport}
  {program : Program}

/-- A run with such a watcher keeps the setting of its machine at every handover. -/
theorem Course.setting_eq (hcourse : Course callback level beats m xs r n) (honly : callback.OnlyResets) :
    n.setting = m.setting ∧ ∀ x ∈ xs, x.before.setting = m.setting ∧ x.after.setting = m.setting := by
  have hpause : ∀ (m : Machine) (beat : Beat), (m.atPause callback beat).after.setting = m.setting :=
    fun m beat => (honly _ _).setting_eq
  have hstep : ∀ (m n : Machine) (beat : Beat) (outcome : Option Outcome), n.setting = m.setting →
      (m.atStep callback level beat outcome n).after.setting = m.setting :=
    fun m n beat outcome hn => ((honly _ _).setting_eq).trans hn
  induction hcourse with
  | exhausted m => exact ⟨rfl, fun x hx => absurd hx List.not_mem_nil⟩
  | takenPaused m beat beats hp =>
    subst hp
    exact ⟨hpause m beat, List.forall_mem_singleton.2 ⟨rfl, hpause m beat⟩⟩
  | takenStepped m beat beats hp hkeeps hend hs | ended m beat beats hp hkeeps hend hs =>
    subst hp hs
    have hcarried := setting_carry m level ⟨m.cursor, beat⟩
    exact ⟨hstep m _ beat _ hcarried, List.forall_mem_cons.2 ⟨⟨rfl, hpause m beat⟩,
      List.forall_mem_singleton.2 ⟨hcarried, hstep m _ beat _ hcarried⟩⟩⟩
  | next m beat hp hkeeps hend hs hkeeps' hrest ih =>
    subst hp hs
    have hcarried := setting_carry m level ⟨m.cursor, beat⟩
    rw [hcarried] at ih
    exact ⟨ih.1, List.forall_mem_cons.2 ⟨⟨rfl, hpause m beat⟩,
      List.forall_mem_cons.2 ⟨⟨hcarried, hstep m _ beat _ hcarried⟩, ih.2⟩⟩⟩

/-- However a run with such a watcher ends, it does not leave the machine running: it is exhausted, a unit has
ended it, or the machine was reset. -/
theorem Course.status_ne_running (hcourse : Course callback level beats m xs r n)
    (honly : callback.OnlyResets) : n.status ≠ .running := by
  have htaken : ∀ (event : Event) (m : Machine), (callback.handover event m).Takes →
      (callback.handover event m).after.status ≠ .running := by
    intro event m htakes
    rcases (honly event m).idle_or_eq with hkept | ⟨hidle, -⟩
    · exact absurd hkept htakes.not_keeps
    · show (callback event m).2.status ≠ .running
      rw [hidle]
      exact nofun
  induction hcourse with
  | exhausted m => exact nofun
  | takenPaused m beat beats hp htakes =>
    subst hp
    exact htaken _ _ htakes
  | takenStepped m beat beats hp hkeeps hend hs htakes =>
    subst hp hs
    exact htaken _ _ htakes
  | ended m beat beats hp hkeeps hend hs =>
    subst hp hs
    exact (honly _ _).status_ne_running (status_ne_running_of_ending hend)
  | next m beat hp hkeeps hend hs hkeeps' hrest ih => exact ih

/-- A machine that is bound to a level and not running is so again after a run on this level, and is bound to it
at every handover. -/
theorem run_of_onlyResets (honly : callback.OnlyResets) (hlevel : m.level = some level)
    (hstatus : m.status ≠ .running) (program : Program) :
    (m.run callback program (some level)).2.2.setting = m.setting ∧
      (m.run callback program (some level)).2.2.status ≠ .running ∧
      ∀ x ∈ m.handovers callback program (some level),
        x.before.setting = m.setting ∧ x.after.setting = m.setting := by
  cases hstart : m.start program (some level) with
  | none =>
    rw [handovers, run_of_start_eq_none hstart, run_of_start_eq_none hstart]
    exact ⟨rfl, hstatus, fun x hx => absurd hx List.not_mem_nil⟩
  | some started =>
    obtain ⟨t, m₁⟩ := started
    obtain ⟨l, units, hl, -, -, -, -, rfl⟩ := start_eq_some_iff.1 hstart
    obtain rfl := Option.some.inj hl
    obtain ⟨r, notes, n, hrun, -, hcourse⟩ := run_of_start honly.fenced hstart
    have hkept := hcourse.setting_eq honly
    rw [setting_launched hlevel] at hkept
    rw [hrun]
    exact ⟨hkept.1, hcourse.status_ne_running honly, hkept.2⟩

/-- A machine that is not running does not start a program on a level for one of two reasons: the program has no
instruction, or it is too long. -/
theorem start_eq_none_iff (hstatus : m.status ≠ .running) (program : Program) (level : Level) :
    m.start program (some level) = none ↔
      program.roots = [] ∨ m.maxUnits < program.unrolledLength := by
  have hrunning : (m.status == .running) = false := beq_false_of_ne hstatus
  rw [start, hrunning, Bool.or_false, Program.isEmpty, Program.unrollWithin]
  dsimp only
  by_cases hempty : program.roots = []
  · simp [hempty]
  · have hsome : program.roots.isEmpty = false := List.isEmpty_eq_false_iff.2 hempty
    by_cases hlong : m.maxUnits < program.unrolledLength
    · simp [hsome, hlong]
    · simp [hsome, hlong, hempty]

/-- There is no report of a run exactly if it is not started. -/
theorem run_eq_none_iff {l? : Option Level} :
    (m.run callback program l?).1 = none ↔ m.start program l? = none := by
  constructor
  · intro hnone
    cases hstart : m.start program l? with
    | none => rfl
    | some started => simp [run, hstart] at hnone
  · intro hstart
    rw [run_of_start_eq_none hstart]

end Machine

namespace Session

variable {s t : Session} {level : Level} {maxUnits : Nat}

/-! ## Moves -/

/-- Run the program with any watcher. -/
def runWith (callback : Callback ε) (s : Session) : Option RunReport × Array ε × Session :=
  let (report, notes, machine) := s.machine.run callback s.program (some s.level)
  (report, notes, { s with machine := machine })

/-- To play a script is to watch. -/
theorem run_eq_runWith (s : Session) (watch : Watch) (script : Script) :
    s.run watch script = s.runWith (Callback.watching watch script.play) := rfl

/-- One move leads from the first session to the second. Whoever watches the run that the move is, if it is one,
looks at the machine and resets it, no more. -/
inductive Proceeds : Session → Session → Prop
  | edit (s : Session) (e : Edit) : Proceeds s { s with program := (e.perform s.program).2 }
  | setProgram (s : Session) (program : Program) : Proceeds s { s with program := program }
  | run {ε : Type} (s : Session) {callback : Callback ε} (honly : callback.OnlyResets) :
    Proceeds s (s.runWith callback).2.2
  | resetPosition (s : Session) : Proceeds s s.resetPosition
  | resetGame (s : Session) : Proceeds s s.resetGame
  | resetMachine (s : Session) : Proceeds s { s with machine := s.machine.reset }

/-- The script of the run that the move is, if it is one, looks at the machine and resets it, no more. -/
def Move.OnlyResets : Move → Prop
  | run _ script => script.OnlyResets
  | edit _ | setProgram _ | resetPosition | resetGame | resetMachine => True

theorem proceeds_perform (s : Session) {move : Move} (honly : move.OnlyResets) :
    Proceeds s (s.perform move).2 := by
  cases move with
  | edit e => exact .edit s e
  | setProgram program => exact .setProgram s program
  | run watch script => exact .run s (Callback.OnlyResets.watching honly watch)
  | resetPosition => exact .resetPosition s
  | resetGame => exact .resetGame s
  | resetMachine => exact .resetMachine s

theorem proceeds_afterMoves (s : Session) {moves : List Move} (honly : ∀ move ∈ moves, move.OnlyResets) :
    Relation.ReflTransGen Proceeds s (s.afterMoves moves) := by
  induction moves generalizing s with
  | nil => exact .refl
  | cons move moves ih =>
    rw [List.forall_mem_cons] at honly
    exact .head (s.proceeds_perform honly.1) (ih _ honly.2)

/-- The session stands between two moves of its player. -/
structure AtRest (level : Level) (maxUnits : Nat) (s : Session) : Prop where
  level_eq : s.level = level
  bound : s.machine.level = some level
  maxUnits_eq : s.machine.maxUnits = maxUnits
  not_running : s.machine.status ≠ .running

theorem atRest_new (level : Level) (maxUnits : Nat) : (new level maxUnits).AtRest level maxUnits where
  level_eq := rfl
  bound := rfl
  maxUnits_eq := rfl
  not_running := nofun

namespace AtRest

theorem setting_eq (h : s.AtRest level maxUnits) : s.machine.setting = (some level, maxUnits) := by
  rw [Machine.setting, h.bound, h.maxUnits_eq]

/-- Only the machine decides, and its setting. -/
theorem of_setting {m : Machine} (h : s.level = level) (hsetting : m.setting = (some level, maxUnits))
    (hstatus : m.status ≠ .running) (p : Program) : AtRest level maxUnits ⟨s.level, p, m⟩ where
  level_eq := h
  bound := (Prod.ext_iff.1 hsetting).1
  maxUnits_eq := (Prod.ext_iff.1 hsetting).2
  not_running := hstatus

/-- The session is at rest again after a reset of its machine. -/
theorem reset (h : s.AtRest level maxUnits) (p : Program) :
    AtRest level maxUnits ⟨s.level, p, s.machine.reset⟩ :=
  of_setting (m := s.machine.reset) h.level_eq h.setting_eq nofun p

/-- A run that is only reset leaves the session at rest, and is bound to the level at every handover. -/
theorem runWith (h : s.AtRest level maxUnits) (honly : callback.OnlyResets) :
    (s.runWith callback).2.2.AtRest level maxUnits ∧
      ∀ x ∈ s.machine.handovers callback s.program (some s.level),
        x.before.level = some level ∧ x.after.level = some level := by
  have hbound : s.machine.level = some s.level := by rw [h.bound, h.level_eq]
  obtain ⟨hsetting, hstatus, hhandovers⟩ :=
    Machine.run_of_onlyResets honly hbound h.not_running s.program
  rw [h.setting_eq] at hsetting hhandovers
  exact ⟨of_setting h.level_eq hsetting hstatus s.program, fun x hx =>
    ⟨(Prod.ext_iff.1 (hhandovers x hx).1).1, (Prod.ext_iff.1 (hhandovers x hx).2).1⟩⟩

/-- A move leads from rest to rest. -/
theorem proceed (h : s.AtRest level maxUnits) (hmove : Proceeds s t) : t.AtRest level maxUnits := by
  cases hmove with
  | edit _ e => exact of_setting h.level_eq h.setting_eq h.not_running _
  | setProgram _ program => exact of_setting h.level_eq h.setting_eq h.not_running program
  | run _ honly => exact (h.runWith honly).1
  | resetPosition | resetMachine => exact h.reset s.program
  | resetGame => exact h.reset s.program.clear

theorem afterwards (h : s.AtRest level maxUnits) (hmoves : Relation.ReflTransGen Proceeds s t) :
    t.AtRest level maxUnits := by
  induction hmoves with
  | refl => exact h
  | tail _ hmove ih => exact ih.proceed hmove

/-- At rest a run is refused for one of two reasons: the program has no top-level instruction, or it is too
long. Then nothing changes. -/
theorem runWith_eq_none_iff (h : s.AtRest level maxUnits) (callback : Callback ε) :
    ((s.runWith callback).1 = none ↔ s.program.roots = [] ∨ maxUnits < s.program.unrolledLength) ∧
      ((s.runWith callback).1 = none → s.runWith callback = (none, #[], s)) := by
  have hstart : (s.runWith callback).1 = none ↔ s.machine.start s.program (some s.level) = none :=
    Machine.run_eq_none_iff
  refine ⟨?_, ?_⟩
  · rw [← h.maxUnits_eq, ← Machine.start_eq_none_iff h.not_running s.program s.level]
    exact hstart
  · intro hnone
    rw [Session.runWith, Machine.run_of_start_eq_none (hstart.1 hnone)]

/-- After a reset the robot is where the level places it, without history and highlight. -/
theorem machine_reset (h : s.AtRest level maxUnits) :
    s.machine.reset.robot = .initial level ∧ s.machine.reset.trace = #[] ∧
      s.machine.reset.status = .idle ∧ s.machine.reset.highlight = none := by
  refine ⟨?_, rfl, rfl, rfl⟩
  show s.machine.restingRobot = .initial level
  rw [Machine.restingRobot, h.bound]
  rfl

end AtRest

/-- In every session, after any moves whose runs are at most reset by their watchers, the machine is bound to the
level and is not running, and it is bound to it throughout every further such run. Runs and resets of the
position keep the program. A run is refused exactly if the program has no top-level instruction or its length is
beyond the limit, which it is only with more units than that; then nothing changes. Resets put the robot
back as the level places it, without history and highlight, and the machine is idle. After a reset of the
game, whatever else is done, runs are refused, and nothing changes, as long as there is no top-level
instruction. -/
theorem rests_between_moves (level : Level) (maxUnits : Nat) (s : Session)
    (hmoves : Relation.ReflTransGen Proceeds (new level maxUnits) s) :
    s.level = level ∧ s.machine.level = some level ∧ s.machine.status ≠ .running ∧
    (∀ (ε : Type) (callback : Callback ε), callback.OnlyResets →
      ∀ x ∈ s.machine.handovers callback s.program (some s.level),
        x.before.level = some level ∧ x.after.level = some level) ∧
    (∀ (ε : Type) (callback : Callback ε), (s.runWith callback).2.2.program = s.program) ∧
    s.resetPosition.program = s.program ∧
    (∀ (ε : Type) (callback : Callback ε),
      ((s.runWith callback).1 = none ↔
        s.program.roots = [] ∨ maxUnits < s.program.unrolledLength) ∧
      ((s.runWith callback).1 = none → s.runWith callback = (none, #[], s))) ∧
    s.program.unrolledLength = min s.program.unroll.length lengthCeiling ∧
    (∀ t, t = s.resetPosition ∨ t = s.resetGame →
      t.machine.robot = .initial level ∧ t.machine.trace = #[] ∧ t.machine.status = .idle ∧
        t.machine.highlight = none) ∧
    s.resetGame.program.roots = [] ∧
    ∀ t, Relation.ReflTransGen Proceeds s.resetGame t → t.program.roots = [] →
      ∀ (ε : Type) (callback : Callback ε), t.runWith callback = (none, #[], t) := by
  have hs : s.AtRest level maxUnits := (atRest_new level maxUnits).afterwards hmoves
  refine ⟨hs.level_eq, hs.bound, hs.not_running, fun _ _ honly => (hs.runWith honly).2,
    fun _ _ => rfl, rfl, fun _ callback => hs.runWith_eq_none_iff callback, ?_, ?_, rfl, ?_⟩
  · rw [Program.unrolledLength_eq_min, ← Program.unroll_eq_unroll_forest]
  · rintro t (rfl | rfl)
    · exact hs.machine_reset
    · exact hs.machine_reset
  · intro t hlater hempty ε callback
    have ht : t.AtRest level maxUnits := (hs.reset s.program.clear).afterwards hlater
    obtain ⟨hrefused, hkept⟩ := ht.runWith_eq_none_iff callback
    exact hkept (hrefused.2 (Or.inl hempty))

/-- The two steps are run and the machine is reset at the second pause; a stop is put after them, and they are run
again. -/
def interrupted : List Move :=
  [.setProgram firstSteps.program, .run {} (.view ⟨.pause, 0⟩ (.reset ⟨.pause, 1⟩ .done)),
    .edit (.append .stop none), .run {} .done]

/-- A watcher that resets the machine whenever it finds it on another cell than the start. -/
def startingOver : Callback Unit := fun _ m =>
  ([], if m.robot.position = m.restingRobot.position then m else m.reset)

/-- After these moves and a run that is started over, the program can be run once more. After a reset of the game
it cannot, even if more resets follow and an instruction is to be removed that is no longer there. -/
theorem rests_between_moves_interrupted :
    let s := (((new Catalog.shipped.levels[0] defaultMaxUnits).afterMoves interrupted).runWith startingOver).2.2
    let t := s.resetGame.afterMoves [.resetMachine, .edit (.remove 0)]
    Relation.ReflTransGen Proceeds (new Catalog.shipped.levels[0] defaultMaxUnits) s ∧
      s.machine.status ≠ .running ∧ (s.runWith startingOver).1 ≠ none ∧
      s.resetPosition.machine.robot = .initial Catalog.shipped.levels[0] ∧
      t.runWith startingOver = (none, #[], t) := by
  intro s t
  have hinterrupted : ∀ move ∈ interrupted, move.OnlyResets := by
    simp [interrupted, Move.OnlyResets, Script.OnlyResets]
  have honly : startingOver.OnlyResets := by
    intro event m
    unfold startingOver
    dsimp only
    split
    · exact .same m
    · exact .reset (.same m.reset)
  have hmoves : Relation.ReflTransGen Proceeds (new Catalog.shipped.levels[0] defaultMaxUnits) s :=
    .tail (proceeds_afterMoves _ hinterrupted) (.run _ honly)
  obtain ⟨-, -, hstatus, -, -, -, hrefused, -, hreset, -, hcleared⟩ :=
    rests_between_moves Catalog.shipped.levels[0] defaultMaxUnits s hmoves
  have hprogram : ¬ (s.program.roots = [] ∨ defaultMaxUnits < s.program.unrolledLength) := by decide
  refine ⟨hmoves, hstatus, ?_, (hreset _ (Or.inl rfl)).1, ?_⟩
  · rwa [Ne, (hrefused Unit startingOver).1]
  · exact hcleared t (proceeds_afterMoves _ (by simp [Move.OnlyResets])) (by decide) Unit startingOver

end Session

end RobotPuzzle
