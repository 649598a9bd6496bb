import RobotPuzzle.CommandLine.Console
import RobotPuzzle.Proofs.Catalog.Progress
import RobotPuzzle.Proofs.Notation.Grammar
import RobotPuzzle.Proofs.Program.Denotation
import RobotPuzzle.Proofs.Run.Evaluation
import RobotPuzzle.Proofs.Run.Undisturbed

/-!
# Requests to play

A request to play is refused for one of five reasons, and answered otherwise. The session reports nothing
when the machine does not start, whatever the reason, and this is taken for a program that is too long.
It is no mistake: there is a level, the program is not empty, and the machine of a new session is not
running. A session that starts is left alone, so that it ends as direct evaluation does.

## Main definitions

- `CommandLine.Asked` — the level and the program a request is about
- `CommandLine.Plays` — how a request ends, with what led to it

## Main statements

- `CommandLine.plays` — every request ends in one of these ways
- `CommandLine.playAnswer_spec` — refusals, exit code and the level to go on with
-/

namespace RobotPuzzle

/-! ## Runs of a session -/

/-- A run that is left alone has the outcome of the verdict. -/
theorem Machine.outcome_concluded (m : Machine) (level : Level) (f : Forest NodeId) :
    (m.concluded level f.unroll).outcome = (f.verdict level).outcome := by
  obtain ⟨-, hending⟩ := (shows_launched m level f.unroll).conclude rfl rfl f.unroll
  rw [← Forest.evaluate_eq_units] at hending
  exact (Prod.ext_iff.1 hending).1

namespace CommandLine

section

variable {s : Settings} {c : Catalog} {level : Level} {p : Program}

theorem playProgram_of_tooLong (hlong : s.maxUnits < p.unrolledLength) :
    playProgram s c level p = .error (.tooLong s.maxUnits) := by
  let m := (Machine.new s.maxUnits).loadLevel level
  have hunits : p.unrollWithin m.maxUnits = .error ⟨p.unrolledLength, s.maxUnits⟩ := if_pos hlong
  have hstart : m.start p (some level) = none := by
    rw [Option.eq_none_iff_forall_ne_some]
    rintro ⟨ticket, n⟩ h
    obtain ⟨_, units, -, -, -, hsome, -⟩ := Machine.start_eq_some_iff.1 h
    cases hunits.symm.trans hsome
  rw [playProgram, Session.run, Machine.runScript]
  dsimp only [Session.new]
  rw [Machine.run_of_start_eq_none hstart]

/-- A program that is not too long is played to its end, which is that of direct evaluation. -/
theorem playProgram_of_fits (c : Catalog) (level : Level) (hempty : p.isEmpty = false)
    (hfits : p.unrolledLength ≤ s.maxUnits) :
    ∃ play, playProgram s c level p = .ok play ∧ play.level = level ∧ play.program = p ∧
      play.report.outcome = (p.forest.verdict level).outcome ∧ play.report.outcome ≠ .cancelled ∧
      play.next =
        if (p.forest.verdict level).outcome = .won then c.nextAfter? level.id else none := by
  let m := (Machine.new s.maxUnits).loadLevel level
  have hunits : p.unrollWithin m.maxUnits = .ok p.forest.unroll := by
    rw [← Program.unroll_eq_unroll_forest]
    exact if_neg (Nat.not_lt.2 hfits)
  have hstart : m.start p (some level) =
      some (⟨m.generation + 1⟩, m.launched level p.forest.unroll) :=
    Machine.start_eq_some_iff.2 ⟨level, _, rfl, hempty, nofun, hunits, rfl, rfl⟩
  -- nothing is done at any pause or step
  obtain ⟨notes, hrun⟩ := Machine.run_of_passive hstart (Callback.passive_watching_done {})
  obtain ⟨hcancelled, -⟩ := Machine.conclude_spec level p.forest.unroll (m.launched level p.forest.unroll)
  have houtcome := m.outcome_concluded level p.forest
  rw [playProgram, Session.run, Machine.runScript]
  dsimp only [Session.new]
  rw [hrun]
  refine ⟨_, rfl, rfl, rfl, houtcome, hcancelled, ?_⟩
  simp only [RunReport.reachedTarget, Machine.report, houtcome, decide_eq_true_eq]

/-- The run of a program that is played is left alone, and its steps are those of the play. -/
theorem exists_undisturbed_of_playProgram {play : Play} (hplay : playProgram s c level p = .ok play) :
    play.level = level ∧ play.program = p ∧ ∃ n,
      ((Machine.new s.maxUnits).loadLevel level).Undisturbed (.watching {} Script.done.play) p level
        play.report play.steps n := by
  rw [playProgram, Session.run] at hplay
  dsimp only [Session.new] at hplay
  generalize hrun : ((Machine.new s.maxUnits).loadLevel level).runScript ⟨p, some level, {}⟩ .done = out
    at hplay
  obtain ⟨_ | r, notes, n⟩ := out
  · cases hplay
  · obtain rfl := Except.ok.inj hplay
    exact ⟨rfl, rfl, n, .of_done hrun⟩

end

/-! ## Requests -/

/-- The level and the program a request is about. -/
structure Asked (s : Settings) (c : Catalog) (q : PlayRequest) (level : Level) (p : Program) : Prop where
  mem : level ∈ c.levels
  id_eq : level.id = q.level
  read : s.readProgram q.program = .ok p

/-- The program uses a kind that the level does not list, although only those may be used. -/
def Oversteps (q : PlayRequest) (level : Level) (p : Program) : Prop :=
  q.anyKind = false ∧ ∃ node ∈ p.nodes, node.op.kind ∉ level.palette

/-- How a request ends, with what led to it. -/
inductive Plays (s : Settings) (c : Catalog) (q : PlayRequest) : Except Refusal Play → Prop
  | noLevel (h : ∀ level ∈ c.levels, level.id ≠ q.level) :
    Plays s c q (.error (.noLevel q.level c.length))
  | unreadable {e : Notation.ReadError} (h : s.readProgram q.program = .error e) :
    Plays s c q (.error (.unreadable e))
  | emptyProgram {level : Level} {p : Program} (h : Asked s c q level p) (hempty : p.isEmpty = true) :
    Plays s c q (.error .emptyProgram)
  | notOffered {level : Level} {p : Program} (h : Asked s c q level p) (hover : Oversteps q level p) :
    Plays s c q (.error (.notOffered level.id (level.missingKinds p)))
  | tooLong {level : Level} {p : Program} (h : Asked s c q level p) (hempty : p.isEmpty = false)
    (hover : ¬ Oversteps q level p) (hlong : s.maxUnits < p.unrolledLength) :
    Plays s c q (.error (.tooLong s.maxUnits))
  | played {level : Level} {p : Program} {play : Play} (h : Asked s c q level p)
    (hempty : p.isEmpty = false) (hover : ¬ Oversteps q level p) (hfits : p.unrolledLength ≤ s.maxUnits)
    (hplay : playProgram s c level p = .ok play) : Plays s c q (.ok play)

section

variable {s : Settings} {c : Catalog} {q : PlayRequest} {level : Level} {p : Program}

/-- The level has to be sought among levels that differ in their ids. -/
theorem Asked.unique (hc : c.Sound) (h : Asked s c q level p) {level' : Level} {p' : Program}
    (h' : Asked s c q level' p') : level = level' ∧ p = p' :=
  ⟨hc.eq_of_id_eq h.mem h'.mem (h.id_eq.trans h'.id_eq.symm), Except.ok.inj (h.read.symm.trans h'.read)⟩

theorem missingKinds_eq_nil_iff :
    level.missingKinds p = [] ↔ ∀ node ∈ p.nodes, node.op.kind ∈ level.palette := by
  simp only [Level.missingKinds, Program.kindsUsed, Level.offers, List.filter_eq_nil_iff, List.mem_filter,
    List.any_eq_true, decide_eq_true_eq, Kind.mem_all, true_and, Bool.not_eq_true', Bool.not_eq_false,
    List.contains_iff_mem]
  exact ⟨fun h node hnode => h _ ⟨node, hnode, rfl⟩, fun h k ⟨node, hnode, hk⟩ => hk ▸ h node hnode⟩

theorem oversteps_iff :
    Oversteps q level p ↔ (!q.anyKind && level.missingKinds p ≠ []) = true := by
  simp [Oversteps, missingKinds_eq_nil_iff]

/-- Every request ends in one of these ways. -/
theorem plays (s : Settings) (c : Catalog) (q : PlayRequest) : Plays s c q (play s c q) := by
  rw [play, findLevel]
  cases hlevel : c.get? q.level with
  | none => exact .noLevel (Catalog.get?_eq_none_iff.1 hlevel)
  | some level =>
    obtain ⟨hmem, hid⟩ := Catalog.mem_of_get? hlevel
    cases hread : s.readProgram q.program with
    | error e => exact .unreadable hread
    | ok p =>
      have hasked : Asked s c q level p := ⟨hmem, hid, hread⟩
      show Plays s c q (checkProgram level q.anyKind p >>= playProgram s c level)
      rw [checkProgram]
      split
      · rename_i hempty
        exact .emptyProgram hasked hempty
      · rename_i hempty
        rw [Bool.not_eq_true] at hempty
        split
        · rename_i hover
          exact .notOffered hasked (oversteps_iff.2 hover)
        · rename_i hover
          rw [← oversteps_iff] at hover
          rcases Nat.lt_or_ge s.maxUnits p.unrolledLength with hlong | hfits
          · show Plays s c q (playProgram s c level p)
            rw [playProgram_of_tooLong hlong]
            exact .tooLong hasked hempty hover hlong
          · obtain ⟨play, hplay, -⟩ := playProgram_of_fits c level hempty hfits
            show Plays s c q (playProgram s c level p)
            rw [hplay]
            exact .played hasked hempty hover hfits hplay

/-- A request with whose program nothing else is wrong is refused for its length, or it is played. -/
theorem Plays.tooLong_or_played {result : Except Refusal Play} (hplays : Plays s c q result) (hc : c.Sound)
    (hasked : Asked s c q level p) (hempty : p.isEmpty = false) (hover : ¬ Oversteps q level p) :
    (s.maxUnits < p.unrolledLength ∧ result = .error (.tooLong s.maxUnits)) ∨
      (p.unrolledLength ≤ s.maxUnits ∧ ∃ game, result = .ok game) := by
  cases hplays with
  | noLevel h => exact absurd hasked.id_eq (h _ hasked.mem)
  | unreadable h => cases h.symm.trans hasked.read
  | emptyProgram h hempty' =>
    obtain ⟨-, rfl⟩ := hasked.unique hc h
    cases hempty.symm.trans hempty'
  | notOffered h hover' =>
    obtain ⟨rfl, rfl⟩ := hasked.unique hc h
    exact absurd hover' hover
  | tooLong h _ _ hlong =>
    obtain ⟨-, rfl⟩ := hasked.unique hc h
    exact Or.inl ⟨hlong, rfl⟩
  | played h _ _ hfits =>
    obtain ⟨-, rfl⟩ := hasked.unique hc h
    exact Or.inr ⟨hfits, _, rfl⟩

theorem Plays.eq_tooLong {result : Except Refusal Play} (hplays : Plays s c q result) (hc : c.Sound)
    (hasked : Asked s c q level p) (hempty : p.isEmpty = false) (hover : ¬ Oversteps q level p)
    (hlong : s.maxUnits < p.unrolledLength) : result = .error (.tooLong s.maxUnits) := by
  rcases hplays.tooLong_or_played hc hasked hempty hover with ⟨-, hrefused⟩ | ⟨hfits, -⟩
  · exact hrefused
  · exact absurd hlong (Nat.not_lt.2 hfits)

end

theorem readProgram_letters (s : Settings) (a b : Char) {text : String} {c d : Command}
    (htext : text.toList = [a, ' ', b]) (ha : Notation.isWordChar a = true)
    (hb : Notation.isWordChar b = true) (hc : Notation.kindOfWord? [a] = some c.kind)
    (hd : Notation.kindOfWord? [b] = some d.kind) :
    s.readProgram text = .ok (.ofForest (.command () c (.command () d .nil))) := by
  rw [Settings.readProgram, htext]
  exact Notation.readProgram_eq_ok_iff.2 ⟨_, Notation.derives_letters ha hb
    (Notation.kindOfWord?_eq_some_iff.1 hc) (Notation.kindOfWord?_eq_some_iff.1 hd), rfl⟩

end CommandLine

end RobotPuzzle
