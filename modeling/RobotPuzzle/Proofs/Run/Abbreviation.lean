import RobotPuzzle.Proofs.Program.Rewriting
import RobotPuzzle.Proofs.Run.Replay

/-!
# Loops are abbreviations

A marker does nothing to robot and trace and ends no run, so a run is told by what its commands come to.
Two programs with the same commands, wherever the markers of their loops fall, therefore have the same run
up to the steps of the markers.

## Main statements

- `Level.effects_deeds` — the effects of markers tell nothing
- `Machine.Undisturbed.deeds` — an undisturbed run is told by what its commands come to
- `Machine.Undisturbed.loops_abbreviate` — undisturbed runs of programs with the same commands agree
-/

namespace RobotPuzzle

namespace Level

variable {level : Level} {beat : Beat}

theorem effect_of_command?_eq_none (h : beat.command? = none) (robot : Robot) :
    robot.effect level beat = .marker := by
  rw [Robot.effect, h]
  rfl

/-- What the effects of units tell is told without those of the markers, and so is how they end. -/
theorem effects_deeds (level : Level) (beats : List Beat) (t : Tale) :
    t.tellAll (level.effects beats t) =
        t.tellAll ((level.deeds (beats.filterMap Beat.command?) t).map (·.effect)) ∧
      (level.effects beats t).findSome? (Machine.ending level) =
        ((level.deeds (beats.filterMap Beat.command?) t).map (·.effect)).findSome?
          (Machine.ending level) := by
  induction beats generalizing t with
  | nil => exact ⟨rfl, rfl⟩
  | cons beat beats ih =>
    rw [effects_cons, deeds_cons]
    cases hcommand : beat.command? with
    | none =>
      -- a marker: nothing is told of it and it ends nothing
      rw [effect_of_command?_eq_none hcommand]
      exact ih t
    | some c =>
      cases hend : Machine.ending level (t.robot.effect level beat) with
      | some pair => exact ⟨rfl, by simp [hend]⟩
      | none =>
        obtain ⟨htell, hfind⟩ := ih (t.tell (t.robot.effect level beat))
        refine ⟨htell, ?_⟩
        simpa [hend] using hfind

end Level

namespace Machine

namespace Undisturbed

variable {ε : Type} {m n : Machine} {callback : Callback ε} {program : Program} {level : Level}
  {r : RunReport} {steps : List Step}

/-- What the commands of an undisturbed run come to tells its report and the status it leaves. -/
theorem deeds (h : m.Undisturbed callback program level r steps n) :
    steps.filterMap Step.deed? = level.deeds program.forest.commands (.initial level) ∧
      level.replay ((steps.filterMap Step.deed?).map (·.effect)) = ⟨r.robot, r.trace.toList⟩ ∧
      (r.outcome, n.status) =
        level.outcomeOf ((steps.filterMap Step.deed?).map (·.effect)) r.robot := by
  have hdeeds : steps.filterMap Step.deed? =
      level.deeds (program.unroll.filterMap Beat.command?) (.initial level) := h.told.deeds_eq
  obtain ⟨htell, hfind⟩ := level.effects_deeds program.unroll (.initial level)
  rw [← h.effects_eq, ← hdeeds] at htell hfind
  refine ⟨by rw [hdeeds, Program.filterMap_command?_unroll], ?_, ?_⟩
  · rw [← h.replay_eq]
    exact htell.symm
  · rw [h.ending_eq, Level.outcomeOf, Level.outcomeOf, hfind]

end Undisturbed

/-- Loops are pure abbreviations. Writing a loop out as copies of its body and adding loops without a body
keep the kinds of the units apart from the markers, and where these are the same, undisturbed runs end the
same way, with the same trace, robot and status, and their commands come to the same. -/
theorem Undisturbed.loops_abbreviate {ε₁ ε₂ : Type} {m₁ n₁ m₂ n₂ : Machine} {callback₁ : Callback ε₁}
    {callback₂ : Callback ε₂} {p q : Program} {level : Level} {r₁ r₂ : RunReport}
    {steps₁ steps₂ : List Step} (h₁ : m₁.Undisturbed callback₁ p level r₁ steps₁ n₁)
    (h₂ : m₂.Undisturbed callback₂ q level r₂ steps₂ n₂) :
    (Relation.EqvGen (Forest.Rewrites Forest.Unfolds) p.forest.shape q.forest.shape →
        p.plainKinds = q.plainKinds) ∧
      (p.plainKinds = q.plainKinds →
        r₁.outcome = r₂.outcome ∧ r₁.trace = r₂.trace ∧ r₁.robot = r₂.robot ∧ n₁.status = n₂.status ∧
          steps₁.filterMap Step.deed? = steps₂.filterMap Step.deed?) := by
  refine ⟨Program.plainKinds_eq_of_unfolds, fun hkinds => ?_⟩
  obtain ⟨hdeeds₁, hreplay₁, hending₁⟩ := h₁.deeds
  obtain ⟨hdeeds₂, hreplay₂, hending₂⟩ := h₂.deeds
  have hdeeds : steps₁.filterMap Step.deed? = steps₂.filterMap Step.deed? := by
    rw [hdeeds₁, hdeeds₂, Program.plainKinds_eq_plainKinds_iff.1 hkinds]
  have htale : (⟨r₁.robot, r₁.trace.toList⟩ : Tale) = ⟨r₂.robot, r₂.trace.toList⟩ := by
    rw [← hreplay₁, ← hreplay₂, hdeeds]
  obtain ⟨hrobot, htrace⟩ := Tale.mk.inj htale
  have hending : (r₁.outcome, n₁.status) = (r₂.outcome, n₂.status) := by
    rw [hending₁, hending₂, hdeeds, hrobot]
  obtain ⟨houtcome, hstatus⟩ := Prod.mk.inj hending
  exact ⟨houtcome, Array.toList_inj.1 htrace, hrobot, hstatus, hdeeds⟩

/-- Four steps as a loop in a loop. -/
def folded : Program := .ofForest (.loop () 2 (.loop () 2 (.command () .forward .nil) .nil) .nil)

/-- Four steps, with a loop that does nothing after the first. -/
def unfolded : Program :=
  .ofForest (.command () .forward (.loop () 3 .nil
    (.command () .forward (.command () .forward (.command () .forward .nil)))))

theorem Undisturbed.loops_abbreviate_folded :
    ∃ level ∈ Catalog.shipped.levels, ∃ r₁ steps₁ n₁ r₂ steps₂ n₂,
      (new defaultMaxUnits).Undisturbed Callback.collecting folded level r₁ steps₁ n₁ ∧
        (new defaultMaxUnits).Undisturbed Callback.collecting unfolded level r₂ steps₂ n₂ ∧
        r₁.executed = 7 ∧ r₂.executed = 5 ∧ r₁.outcome = .won ∧ r₁.outcome = r₂.outcome ∧
        r₁.trace = r₂.trace ∧ r₁.robot = r₂.robot ∧ n₁.status = n₂.status := by
  have hfolded : ((new defaultMaxUnits).runUndisturbed folded (some Catalog.shipped.levels[1])).1.map
      (fun r => (r.outcome, r.executed)) = some (.won, 7) := by decide
  have hunfolded : ((new defaultMaxUnits).runUndisturbed unfolded (some Catalog.shipped.levels[1])).1.map
      (·.executed) = some 5 := by decide
  obtain ⟨r₁, hr₁, hends⟩ := Option.map_eq_some_iff.1 hfolded
  obtain ⟨r₂, hr₂, hexecuted₂⟩ := Option.map_eq_some_iff.1 hunfolded
  obtain ⟨hwon, hexecuted₁⟩ := Prod.mk.inj hends
  have hunfolds : Relation.EqvGen (Forest.Rewrites Forest.Unfolds) folded.forest.shape
      unfolded.forest.shape := by
    have hshape : folded.forest.shape =
        .loop () 2 (.loop () 2 (.command () .forward .nil) .nil) .nil := by decide
    rw [hshape]
    -- inner loop, outer loop, idle loop
    refine .trans _ _ _ (.rel _ _ (.body () 2 .nil (.here (.copies () 2 _ _)))) ?_
    refine .trans _ _ _ (.rel _ _ (.here (.copies () 2 _ _))) ?_
    exact .rel _ _ (.command () .forward (.here (.idle () 3 _)))
  obtain ⟨hkinds, hagree⟩ := loops_abbreviate (of_runUndisturbed hr₁) (of_runUndisturbed hr₂)
  obtain ⟨houtcome, htrace, hrobot, hstatus, -⟩ := hagree (hkinds hunfolds)
  exact ⟨_, List.getElem_mem _, _, _, _, _, _, _, of_runUndisturbed hr₁, of_runUndisturbed hr₂,
    hexecuted₁, hexecuted₂, hwon, houtcome, htrace, hrobot, hstatus⟩

end Machine

end RobotPuzzle
