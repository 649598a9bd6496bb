import RobotPuzzle.Proofs.CommandLine.Play
import RobotPuzzle.Proofs.Notation.Grammar
import RobotPuzzle.Proofs.Program.Kinds
import RobotPuzzle.Proofs.Run.Replay

/-!
# Palettes and runs

The palette is held against the nodes of a program before it is run. This decides about the units as well:
the kinds of the nodes are those of the units, and a run commits nothing but units of its program.

## Main statements

- `mem_missingKinds_iff` — the kinds that are missing from a palette, told by units
- `CommandLine.palette_afterEdits` — what the check accepts and refuses, and what is committed after it
-/

namespace RobotPuzzle

section

variable {level : Level} {p : Program} {k : Kind}

theorem mem_missingKinds_iff (hp : p.WellFormed) :
    k ∈ level.missingKinds p ↔ (∃ b ∈ p.unroll, b.kind = k) ∧ k ∉ level.palette := by
  rw [Level.missingKinds, List.mem_filter, hp.mem_kindsUsed_iff]
  simp [Level.offers]

theorem nodup_missingKinds (level : Level) (p : Program) : (level.missingKinds p).Nodup :=
  p.nodup_kindsUsed.filter _

/-- Nothing is missing exactly if every unit is of an offered kind. -/
theorem missingKinds_eq_nil_iff_unroll (hp : p.WellFormed) :
    level.missingKinds p = [] ↔ ∀ b ∈ p.unroll, b.kind ∈ level.palette := by
  simp only [List.eq_nil_iff_forall_not_mem, mem_missingKinds_iff hp, not_and, not_not]
  constructor
  · exact fun h b hb => h b.kind ⟨b, hb, rfl⟩
  · rintro h _ ⟨b, hb, rfl⟩
    exact h b hb

end

namespace CommandLine

variable {s : Settings} {c : Catalog} {q : PlayRequest} {level : Level} {p : Program} {play : Play}

/-- The steps of a play are all that was committed, and they come from units of its program. -/
theorem steps_of_playProgram (hplay : playProgram s c level p = .ok play) :
    play.report.executed = play.steps.length ∧ ∀ step ∈ play.steps, step.beat ∈ p.unroll := by
  obtain ⟨-, -, n, hrun⟩ := exists_undisturbed_of_playProgram hplay
  exact ⟨hrun.executed_eq, fun _ => hrun.beat_mem_unroll⟩

/-- A program that is read is well-formed. -/
theorem wellFormed_of_read {text : String} (hread : s.readProgram text = .ok p) : p.WellFormed := by
  obtain ⟨f, hderives, rfl⟩ := Notation.readProgram_eq_ok_iff.1 hread
  exact (Program.planted_ofForest f hderives.one_le_of_mem_counts).more.wellFormed

/-- A program that is not empty passes the palette, or is refused for what is missing from it. -/
theorem checkProgram_of_not_isEmpty (hempty : p.isEmpty = false) :
    checkProgram level false p =
      if level.missingKinds p = [] then .ok p else .error (.notOffered level.id (level.missingKinds p)) := by
  by_cases hmissing : level.missingKinds p = []
  · simp [checkProgram, hempty, hmissing]
  · simp [checkProgram, hempty, hmissing]

/-- Whatever operations build a program, the kinds it uses are those of its units. The palette of a level
accepts it exactly if it lists the kind of every unit; the refusal names the kinds of the units that are not
listed, each once. And a request that is held to the palette and not refused commits units of its program
only, all of which are of listed kinds. -/
theorem palette_afterEdits (edits : List Edit) :
    let p := Program.empty.afterEdits edits
    (∀ k, k ∈ p.kindsUsed ↔ ∃ b ∈ p.unroll, b.kind = k) ∧
      (∀ level : Level, (level.missingKinds p = [] ↔ ∀ b ∈ p.unroll, b.kind ∈ level.palette) ∧
        (p.isEmpty = false →
          (checkProgram level false p = .ok p ↔ ∀ b ∈ p.unroll, b.kind ∈ level.palette) ∧
          ∀ r, checkProgram level false p = .error r →
            ∃ kinds, r = .notOffered level.id kinds ∧ (kinds.map Kind.name).Nodup ∧
              (let list := ", ".intercalate (kinds.map Kind.name)
               r.message = s!"level {level.id} does not offer: {list} (use --allow-any to run anyway)") ∧
              ∀ k, k ∈ kinds ↔ (∃ b ∈ p.unroll, b.kind = k) ∧ k ∉ level.palette)) ∧
      ∀ s c q play, q.anyKind = false → CommandLine.play s c q = .ok play →
        ∃ level program, Asked s c q level program ∧ play.report.executed = play.steps.length ∧
          ∀ step ∈ play.steps, step.beat ∈ program.unroll ∧ step.beat.kind ∈ level.palette := by
  intro p
  have hp : p.WellFormed := Program.Authored.wellFormed ⟨edits, rfl⟩
  clear_value p
  refine ⟨fun k => hp.mem_kindsUsed_iff, fun level => ⟨missingKinds_eq_nil_iff_unroll hp, ?_⟩, ?_⟩
  · intro hempty
    rw [checkProgram_of_not_isEmpty hempty, ← missingKinds_eq_nil_iff_unroll hp]
    have hnames := (nodup_missingKinds level p).map Kind.name_injective
    by_cases hmissing : level.missingKinds p = []
    · rw [if_pos hmissing]
      exact ⟨iff_of_true rfl hmissing, nofun⟩
    · rw [if_neg hmissing]
      refine ⟨iff_of_false nofun hmissing, fun r hr => ?_⟩
      obtain rfl := Except.error.inj hr
      exact ⟨_, rfl, hnames, rfl, fun k => mem_missingKinds_iff hp⟩
  · intro s c q play hkind hplay
    have hcases := plays s c q
    rw [hplay] at hcases
    cases hcases with
    | @played level program _ hasked hempty hover hfits hplayed =>
      obtain ⟨hexecuted, hsteps⟩ := steps_of_playProgram hplayed
      have hprogram := wellFormed_of_read hasked.read
      -- the check has been made, since the request is held to the palette
      have hoffered : level.missingKinds program = [] := by
        rw [missingKinds_eq_nil_iff]
        intro node hnode
        by_contra hlisted
        exact hover ⟨hkind, node, hnode, hlisted⟩
      refine ⟨level, program, hasked, hexecuted, fun step hstep => ⟨hsteps step hstep, ?_⟩⟩
      exact (missingKinds_eq_nil_iff_unroll hprogram).1 hoffered _ (hsteps step hstep)

end CommandLine

end RobotPuzzle
