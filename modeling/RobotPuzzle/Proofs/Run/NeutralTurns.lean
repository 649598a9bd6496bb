import RobotPuzzle.Proofs.Run.Abbreviation

/-!
# Neutral turns

Turns that add up to nothing or to full turns leave the robot facing as before. They do show in the
history and in the accumulated rotation, so runs with and without them go through tales that are alike only
up to the turns shown and up to full turns. Alike tales stay alike under every command, and a block of
neutral turns leads from a tale to one alike; so blocks make no difference wherever in a program they
stand, however often a loop repeats them and wherever the run ends.

## Main definitions

- `Snapshot.headed`, `Tale.shown` — what is compared of a history
- `Tale.Alike` — tales that differ by turns shown and by full turns
- `Level.walk` — where commands lead, and how they end a run
- `Level.Interchangeable` — commands that lead alike tales to alike tales and end runs the same way
- `Forest.AddsTurns` — the rule that inserts a block of neutral turns

## Main statements

- `Level.interchangeable_of_rewrites` — neutral turns can be inserted anywhere
- `Machine.Undisturbed.neutral_turns` — undisturbed runs with and without them agree
-/

namespace RobotPuzzle

/-! ## Alike tales -/

/-- A snapshot with its rotation up to full turns. -/
def Snapshot.headed (s : Snapshot) : Cell × Option Action × Int := (s.position, s.action, s.rotation % 360)

namespace Tale

variable {t t' u : Tale}

/-- The history without the turns. -/
def shown (t : Tale) : List (Cell × Option Action × Int) :=
  (t.history.filter (·.action ≠ some .turn)).map Snapshot.headed

theorem shown_add (t : Tale) (robot : Robot) {action : Option Action} (h : action ≠ some .turn) :
    (t.add robot action).shown = t.shown ++ [(robot.snapshot action).headed] := by
  simp [shown, add, Robot.snapshot, h]

theorem shown_add_turn (t : Tale) (robot : Robot) : (t.add robot (some .turn)).shown = t.shown := by
  simp [shown, add, Robot.snapshot]

/-- The tales differ by turns that are shown and by full turns. -/
structure Alike (t t' : Tale) : Prop where
  position_eq : t.robot.position = t'.robot.position
  rotation_eq : t.robot.rotation % 360 = t'.robot.rotation % 360
  shown_eq : t.shown = t'.shown

namespace Alike

theorem refl (t : Tale) : t.Alike t := ⟨rfl, rfl, rfl⟩

theorem trans (h : t.Alike t') (h' : t'.Alike u) : t.Alike u :=
  ⟨h.position_eq.trans h'.position_eq, h.rotation_eq.trans h'.rotation_eq, h.shown_eq.trans h'.shown_eq⟩

theorem facing_eq (h : t.Alike t') : t.robot.facing = t'.robot.facing :=
  Direction.ofDegrees_congr h.rotation_eq

theorem add (h : t.Alike t') (action : Option Action) {robot robot' : Robot}
    (hposition : robot.position = robot'.position) (hrotation : robot.rotation % 360 = robot'.rotation % 360) :
    (t.add robot action).Alike (t'.add robot' action) := by
  refine ⟨hposition, hrotation, ?_⟩
  by_cases hturn : action = some .turn
  · rw [hturn, shown_add_turn, shown_add_turn, h.shown_eq]
  · rw [shown_add t robot hturn, shown_add t' robot' hturn, h.shown_eq]
    simp [Snapshot.headed, Robot.snapshot, hposition, hrotation]

/-- Alike tales told of the same effect are alike. -/
theorem tell (h : t.Alike t') (e : Effect) : (t.tell e).Alike (t'.tell e) := by
  cases e with
  | moved cell => exact h.add _ rfl h.rotation_eq
  | jumped cell => exact h.add _ rfl h.rotation_eq
  | turned rotation => exact h.add _ h.position_eq rfl
  | waited => exact h.add _ h.position_eq h.rotation_eq
  | marker | blocked | stopped => exact h

theorem tell_turned (h : t.Alike t') (angle : Int) :
    (t.tell (.turned (t.robot.rotation + angle))).Alike (t'.tell (.turned (t'.robot.rotation + angle))) := by
  have hrotation := h.rotation_eq
  have hturned : (t.robot.rotation + angle) % 360 = (t'.robot.rotation + angle) % 360 := by omega
  exact h.add _ h.position_eq hturned

end Alike

end Tale

/-! ## Walks -/

namespace Level

variable {level : Level} {t t' : Tale} {c : Command} {cs cs' ds ds' es : List Command}

/-- Where commands lead, and how they end a run if they do. -/
def walk (level : Level) : List Command → Tale → Tale × Option (Outcome × Status)
  | [], t => (t, none)
  | c :: rest, t =>
    match Machine.ending level (t.robot.obey level c) with
    | some ending => (t.tell (t.robot.obey level c), some ending)
    | none => level.walk rest (t.tell (t.robot.obey level c))

theorem walk_append (level : Level) (cs ds : List Command) (t : Tale) :
    level.walk (cs ++ ds) t =
      match level.walk cs t with
      | (u, some ending) => (u, some ending)
      | (u, none) => level.walk ds u := by
  induction cs generalizing t with
  | nil => rfl
  | cons c cs ih =>
    rw [List.cons_append, walk, walk]
    cases Machine.ending level (t.robot.obey level c) with
    | some ending => rfl
    | none => exact ih _

theorem walk_eq_deeds (level : Level) (cs : List Command) (t : Tale) :
    level.walk cs t =
      (t.tellAll ((level.deeds cs t).map (·.effect)),
        ((level.deeds cs t).map (·.effect)).findSome? (Machine.ending level)) := by
  induction cs generalizing t with
  | nil => rfl
  | cons c cs ih =>
    rw [walk, deeds]
    cases hend : Machine.ending level (t.robot.obey level c) with
    | some ending => simp [hend]
    | none =>
      rw [ih]
      simp [hend]

/-- One command takes alike tales to alike tales, and ends both runs or neither. -/
theorem alike_obey (level : Level) (h : t.Alike t') (c : Command) :
    Machine.ending level (t.robot.obey level c) = Machine.ending level (t'.robot.obey level c) ∧
      (t.tell (t.robot.obey level c)).Alike (t'.tell (t'.robot.obey level c)) := by
  -- only a turn has an effect that tells more of the robot than cell and facing
  have hsame : t.robot.obey level c = t'.robot.obey level c →
      Machine.ending level (t.robot.obey level c) = Machine.ending level (t'.robot.obey level c) ∧
        (t.tell (t.robot.obey level c)).Alike (t'.tell (t'.robot.obey level c)) := by
    intro heq
    rw [heq]
    exact ⟨rfl, h.tell _⟩
  cases c with
  | turnLeft => exact ⟨rfl, h.tell_turned (-90)⟩
  | turnRight => exact ⟨rfl, h.tell_turned 90⟩
  | forward | back | jump =>
    apply hsame
    simp only [Robot.obey, h.position_eq, h.facing_eq]
  | wait | stop => exact hsame rfl

/-- From alike tales the commands lead to alike tales, and both or neither end the run. -/
def Interchangeable (level : Level) (cs ds : List Command) : Prop :=
  ∀ t t' : Tale, t.Alike t' →
    (level.walk cs t).1.Alike (level.walk ds t').1 ∧ (level.walk cs t).2 = (level.walk ds t').2

namespace Interchangeable

theorem cons (c : Command) (h : level.Interchangeable cs ds) :
    level.Interchangeable (c :: cs) (c :: ds) := by
  intro t t' halike
  obtain ⟨hending, htell⟩ := alike_obey level halike c
  rw [walk, walk, hending]
  cases Machine.ending level (t'.robot.obey level c) with
  | some ending => exact ⟨htell, rfl⟩
  | none => exact h _ _ htell

theorem refl (level : Level) (cs : List Command) : level.Interchangeable cs cs := by
  induction cs with
  | nil => exact fun _ _ h => ⟨h, rfl⟩
  | cons c cs ih => exact ih.cons c

theorem trans (h : level.Interchangeable cs ds) (h' : level.Interchangeable ds es) :
    level.Interchangeable cs es := by
  intro t t' halike
  obtain ⟨hwalk, hending⟩ := h t t' halike
  obtain ⟨hwalk', hending'⟩ := h' t' t' (.refl t')
  exact ⟨hwalk.trans hwalk', hending.trans hending'⟩

theorem append (h : level.Interchangeable cs ds) (h' : level.Interchangeable cs' ds') :
    level.Interchangeable (cs ++ cs') (ds ++ ds') := by
  intro t t' halike
  obtain ⟨hwalk, hending⟩ := h t t' halike
  rw [walk_append, walk_append]
  generalize level.walk cs t = walked at hwalk hending ⊢
  generalize level.walk ds t' = walked' at hwalk hending ⊢
  obtain ⟨u, ending⟩ := walked
  obtain ⟨u', ending'⟩ := walked'
  obtain rfl : ending = ending' := hending
  cases ending with
  | some ending => exact ⟨hwalk, rfl⟩
  | none => exact h' u u' hwalk

theorem flatten_replicate (h : level.Interchangeable cs ds) (count : Nat) :
    level.Interchangeable (List.replicate count cs).flatten (List.replicate count ds).flatten := by
  induction count with
  | zero => exact refl level []
  | succ count ih =>
    rw [List.replicate_succ, List.replicate_succ, List.flatten_cons, List.flatten_cons]
    exact h.append ih

end Interchangeable

end Level

/-! ## Blocks of turns -/

/-- The angle of a turn. -/
def Command.angle? : Command → Option Int
  | .turnLeft => some (-90)
  | .turnRight => some 90
  | _ => none

/-- How far turns turn altogether. -/
def netAngle (block : List Command) : Int := (block.filterMap Command.angle?).foldr (· + ·) 0

/-- Four turns the same way, or one turn and the turn back. -/
def neutralTurns : List (List Command) :=
  [.replicate 4 .turnRight, .replicate 4 .turnLeft, [.turnLeft, .turnRight], [.turnRight, .turnLeft]]

namespace Level

variable {level : Level} {c : Command} {block : List Command} {t : Tale}

theorem walk_turn {angle : Int} (hangle : c.angle? = some angle) (ds : List Command) :
    level.walk (c :: ds) t = level.walk ds (t.tell (.turned (t.robot.rotation + angle))) := by
  cases c with
  | turnLeft | turnRight =>
    obtain rfl := Option.some.inj hangle
    rfl
  | forward | back | jump | wait | stop => cases hangle

/-- A block of turns leads on, with the robot turned by their sum and nothing shown but turns. -/
theorem walk_turns (level : Level) (hturns : ∀ c ∈ block, c.angle?.isSome) (ds : List Command) (t : Tale) :
    ∃ u, level.walk (block ++ ds) t = level.walk ds u ∧
      u.robot = { t.robot with rotation := t.robot.rotation + netAngle block } ∧
      u.shown = t.shown := by
  induction block generalizing t with
  | nil => exact ⟨t, rfl, by simp [netAngle], rfl⟩
  | cons c block ih =>
    rw [List.forall_mem_cons] at hturns
    obtain ⟨hc, hblock⟩ := hturns
    obtain ⟨angle, hangle⟩ := Option.isSome_iff_exists.1 hc
    obtain ⟨u, hwalk, hrobot, hshown⟩ := ih hblock (t.tell (.turned (t.robot.rotation + angle)))
    refine ⟨u, ?_, ?_, ?_⟩
    · rw [List.cons_append, walk_turn hangle, hwalk]
    · have hnet : netAngle (c :: block) = angle + netAngle block := by
        rw [netAngle, List.filterMap_cons_some hangle]
        rfl
      rw [hrobot, hnet, ← Int.add_assoc]
      rfl
    · rw [hshown]
      exact t.shown_add_turn _

theorem interchangeable_block (hblock : block ∈ neutralTurns) (ds : List Command) :
    level.Interchangeable ds (block ++ ds) := by
  have hneutral : ∀ block ∈ neutralTurns, (∀ c ∈ block, c.angle?.isSome) ∧
      netAngle block % 360 = 0 := by decide
  obtain ⟨hturns, hsum⟩ := hneutral block hblock
  intro t t' halike
  -- the block leads from the second tale to one that is alike, and the rest is the same walk
  obtain ⟨u, hwalk, hrobot, hshown⟩ := walk_turns level hturns ds t'
  have hu : t'.Alike u := by
    refine ⟨?_, ?_, hshown.symm⟩
    · rw [hrobot]
    · rw [hrobot]
      show t'.robot.rotation % 360 = (t'.robot.rotation + netAngle block) % 360
      omega
  rw [hwalk]
  exact Interchangeable.refl level ds t u (halike.trans hu)

end Level

/-! ## Blocks inside programs -/

/-- A block of neutral turns is put in front of the instructions. -/
def Forest.AddsTurns (f g : Forest Unit) : Prop :=
  ∃ block ∈ neutralTurns, g = block.foldr (.command ()) f

theorem Forest.commands_foldr_command {α : Type} (a : α) (block : List Command) (f : Forest α) :
    (block.foldr (.command a) f).commands = block ++ f.commands := by
  induction block with
  | nil => rfl
  | cons c block ih => exact congrArg (c :: ·) ih

namespace Level

variable {level : Level} {f g : Forest Unit}

theorem interchangeable_of_rewrites (h : Forest.Rewrites Forest.AddsTurns f g) :
    level.Interchangeable f.commands g.commands := by
  induction h with
  | here h =>
    obtain ⟨block, hblock, rfl⟩ := h
    rw [Forest.commands_foldr_command]
    exact interchangeable_block hblock _
  | command a c _ ih => exact ih.cons c
  | body a count rest _ ih => exact (ih.flatten_replicate count).append (.refl level _)
  | rest a count body _ ih => exact (Interchangeable.refl level _).append ih

theorem interchangeable_of_reflTransGen (level : Level)
    (h : Relation.ReflTransGen (Forest.Rewrites Forest.AddsTurns) f g) :
    level.Interchangeable f.commands g.commands := by
  induction h with
  | refl => exact .refl level _
  | tail _ h ih => exact ih.trans (interchangeable_of_rewrites h)

end Level

namespace Machine

namespace Undisturbed

/-- An undisturbed run is the walk of its commands. -/
theorem walk {ε : Type} {m n : Machine} {callback : Callback ε} {program : Program} {level : Level}
    {r : RunReport} {steps : List Step} (h : m.Undisturbed callback program level r steps n) :
    (level.walk program.forest.commands (.initial level)).1 = ⟨r.robot, r.trace.toList⟩ ∧
      (r.outcome, n.status) = (level.walk program.forest.commands (.initial level)).2.getD
        (if r.robot.position = level.target then .won else .notReached, .idle) := by
  obtain ⟨hdeeds, hreplay, hending⟩ := h.deeds
  rw [hdeeds] at hreplay hending
  rw [Level.walk_eq_deeds]
  exact ⟨hreplay, hending⟩

variable {ε₁ ε₂ : Type} {m₁ n₁ m₂ n₂ : Machine} {callback₁ : Callback ε₁} {callback₂ : Callback ε₂}
  {p q : Program} {level : Level} {r₁ r₂ : RunReport} {steps₁ steps₂ : List Step}

/-- Neutral turns are neutral. Blocks of them inserted anywhere in a program leave outcome and status of an
undisturbed run as they were, cell and facing of the robot, and the trace apart from the turns and up to
full turns. -/
theorem neutral_turns (h₁ : m₁.Undisturbed callback₁ p level r₁ steps₁ n₁)
    (h₂ : m₂.Undisturbed callback₂ q level r₂ steps₂ n₂)
    (hturns : Relation.ReflTransGen (Forest.Rewrites Forest.AddsTurns) p.forest.shape q.forest.shape) :
    r₁.outcome = r₂.outcome ∧ n₁.status = n₂.status ∧
      r₁.robot.position = r₂.robot.position ∧ r₁.robot.facing = r₂.robot.facing ∧
      (r₁.trace.toList.filter (·.action ≠ some .turn)).map Snapshot.headed =
        (r₂.trace.toList.filter (·.action ≠ some .turn)).map Snapshot.headed := by
  have hinterchangeable := Level.interchangeable_of_reflTransGen level hturns
  rw [Forest.commands_shape, Forest.commands_shape] at hinterchangeable
  obtain ⟨halike, hending⟩ := hinterchangeable _ _ (.refl (.initial level))
  obtain ⟨hwalk₁, hending₁⟩ := h₁.walk
  obtain ⟨hwalk₂, hending₂⟩ := h₂.walk
  rw [hwalk₁, hwalk₂] at halike
  have hposition : r₁.robot.position = r₂.robot.position := halike.position_eq
  rw [hending, hposition, ← hending₂] at hending₁
  obtain ⟨houtcome, hstatus⟩ := Prod.mk.inj hending₁
  exact ⟨houtcome, hstatus, hposition, halike.facing_eq, halike.shown_eq⟩

/-- Two steps ahead and two to the right. -/
def cornering : Program :=
  .ofForest (.loop () 2 (.command () .forward .nil)
    (.command () .turnRight (.loop () 2 (.command () .forward .nil) .nil)))

/-- The same with a look to the left after each of the first steps and a full turn before each of the others. -/
def twirling : Program :=
  .ofForest (.loop () 2 (.command () .forward (.command () .turnLeft (.command () .turnRight .nil)))
    (.command () .turnRight (.loop () 2 ((List.replicate 4 .turnRight).foldr (.command ())
      (.command () .forward .nil)) .nil)))

/-- The run with the turns ends two full turns further round. -/
theorem neutral_turns_twirling :
    ∃ level ∈ Catalog.shipped.levels, ∃ r₁ steps₁ n₁ r₂ steps₂ n₂,
      (new defaultMaxUnits).Undisturbed Callback.collecting cornering level r₁ steps₁ n₁ ∧
        (new defaultMaxUnits).Undisturbed Callback.collecting twirling level r₂ steps₂ n₂ ∧
        r₂.robot.rotation = r₁.robot.rotation + 720 ∧ r₁.outcome = .won ∧ r₁.outcome = r₂.outcome ∧
        n₁.status = n₂.status ∧ r₁.robot.position = r₂.robot.position ∧ r₁.robot.facing = r₂.robot.facing ∧
        (r₁.trace.toList.filter (·.action ≠ some .turn)).map Snapshot.headed =
          (r₂.trace.toList.filter (·.action ≠ some .turn)).map Snapshot.headed := by
  have hrun₁ : ((new defaultMaxUnits).runUndisturbed cornering (some Catalog.shipped.levels[6])).1.map
      (fun r => (r.outcome, r.robot.rotation)) = some (.won, 90) := by decide
  have hrun₂ : ((new defaultMaxUnits).runUndisturbed twirling (some Catalog.shipped.levels[6])).1.map
      (·.robot.rotation) = some 810 := by decide
  obtain ⟨r₁, hr₁, hends⟩ := Option.map_eq_some_iff.1 hrun₁
  obtain ⟨r₂, hr₂, hrotation₂⟩ := Option.map_eq_some_iff.1 hrun₂
  obtain ⟨houtcome₁, hrotation₁⟩ := Prod.mk.inj hends
  have hturns : Relation.ReflTransGen (Forest.Rewrites Forest.AddsTurns) cornering.forest.shape
      twirling.forest.shape := by
    have hshape : cornering.forest.shape = .loop () 2 (.command () .forward .nil)
        (.command () .turnRight (.loop () 2 (.command () .forward .nil) .nil)) := by decide
    rw [hshape]
    refine .tail (.single (.body () 2 _ (.command () .forward (.here ⟨[.turnLeft, .turnRight], ?_, rfl⟩)))) ?_
    · decide
    · exact .rest () 2 _ (.command () .turnRight (.body () 2 .nil
        (.here ⟨.replicate 4 .turnRight, by decide, rfl⟩)))
  obtain ⟨houtcome, hstatus, hposition, hfacing, htrace⟩ :=
    neutral_turns (of_runUndisturbed hr₁) (of_runUndisturbed hr₂) hturns
  exact ⟨_, List.getElem_mem _, _, _, _, _, _, _, of_runUndisturbed hr₁, of_runUndisturbed hr₂,
    by rw [hrotation₁, hrotation₂]; rfl, houtcome₁, houtcome, hstatus, hposition, hfacing, htrace⟩

end Undisturbed

end Machine

end RobotPuzzle
