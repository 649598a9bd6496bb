import RobotPuzzle.Catalog.Reading
import RobotPuzzle.Program.Edit
import RobotPuzzle.Proofs.Machine.Coherence
import RobotPuzzle.Proofs.Machine.Path

/-!
# Safe catalogs

The machine never looks at the cell a level starts on, and binds whatever level it is given. What keeps the
robot on free cells is that every level comes from a catalog, and that no catalog passes whose levels break
a rule. The path of the robot and the coherence of the machine carry this from the start cell through every
history of calls.

## Main definitions

- `Catalog.Sound` — the levels can be told apart and each of them can be played
- `Catalog.Accepted` — the catalogs levels are taken from
- `Machine.Call.level?` — the level a call brings along

## Main statements

- `Catalog.sound_of_read` — only sound catalogs are read
- `Machine.free_of_bound` — on a valid level the robot and its history are on free cells
- `Machine.free_afterCalls_of_accepted` — so they are after every history with levels of accepted catalogs
-/

namespace RobotPuzzle

/-- A result can be found out by evaluation, where equality with it cannot. -/
theorem eq_ok_of_toOption {ε α : Type} {x : Except ε α} {a : α} (h : x.toOption = some a) : x = .ok a := by
  cases x with
  | error e => cases h
  | ok b => exact congrArg _ (Option.some.inj h)

/-! ## Catalogs that pass -/

namespace Catalog

/-- The levels have different ids, and each of them can be played. -/
structure Sound (c : Catalog) : Prop where
  ids_nodup : (c.levels.map (·.id)).Nodup
  valid : ∀ level ∈ c.levels, level.Valid

/-- Levels are taken from the shipped catalog, or from one that was read. -/
inductive Accepted : Catalog → Prop
  | shipped : Accepted Catalog.shipped
  | read {text : List Char} {c : Catalog} (h : Catalog.read text = .ok c) : Accepted c

variable {c : Catalog}

theorem sound_iff : c.Sound ↔ faults c.levels = [] := by
  rw [faults_eq_nil_iff]
  exact ⟨fun h => ⟨h.valid, h.ids_nodup⟩, fun h => ⟨h.2, h.1⟩⟩

/-- A value gives the catalog of its levels, provided that it has the right shape and they keep every
rule. -/
theorem ofJson_eq_ok_iff {value : Json} :
    ofJson value = .ok c ↔
      schema.violations value = [] ∧ levelsOfJson value = .ok c.levels ∧ faults c.levels = [] := by
  constructor
  · intro h
    rw [ofJson] at h
    split at h
    · rename_i hshape
      split at h
      · cases h
      · rename_i levels hlevels
        split at h
        · rename_i hfaults
          obtain rfl := Except.ok.inj h
          exact ⟨hshape, hlevels, hfaults⟩
        · cases h
    · cases h
  · rintro ⟨hshape, hlevels, hfaults⟩
    simp only [ofJson, hshape, hlevels, hfaults]

/-- Only sound catalogs are read. -/
theorem sound_of_read {text : List Char} (h : read text = .ok c) : c.Sound := by
  unfold read at h
  split at h
  · cases h
  · exact sound_iff.2 (ofJson_eq_ok_iff.1 h).2.2

theorem Accepted.sound (h : c.Accepted) : c.Sound := by
  cases h with
  | shipped => exact sound_iff.2 faults_shipped
  | read hread => exact sound_of_read hread

end Catalog

/-! ## The machine on levels of a catalog -/

namespace Machine

variable {m : Machine} {level : Level} {P : Level → Prop}

/-- The level a call brings along. -/
def Call.level? : Call → Option Level
  | .loadLevel level => some level
  | .start _ level => level
  | .reset | .beginStep _ | .commitStep _ => none

/-- A call leaves the bound level alone or binds the one it brings along. -/
theorem level_perform (m : Machine) (c : Call) :
    (m.perform c).2.level = m.level ∨ (m.perform c).2.level = c.level? := by
  have htransition := transition_perform m c
  generalize (m.perform c).1 = answer at htransition
  generalize (m.perform c).2 = after at htransition ⊢
  cases htransition with
  | loaded level => exact Or.inr rfl
  | launched program level units => exact Or.inr rfl
  | committed t level h => exact Or.inl (level_carry m level h)
  | ended t level h => exact Or.inl (level_carry m level h)
  | reset | refused | staleBegin | staleCommit | again | highlighted | exhausted | notHighlighted
  | unbound => exact Or.inl rfl

/-- What holds of the bound level and of all levels that calls bring along holds of the level that is
bound after them. -/
theorem level_afterCalls {calls : List Call} (hm : ∀ level, m.level = some level → P level)
    (hcalls : ∀ c ∈ calls, ∀ level, c.level? = some level → P level) :
    ∀ level, (m.afterCalls calls).level = some level → P level := by
  induction calls generalizing m with
  | nil => exact hm
  | cons c rest ih =>
    refine ih (m := (m.perform c).2) ?_ fun d hd => hcalls d (List.mem_cons_of_mem c hd)
    intro level hlevel
    rcases level_perform m c with hkept | hbrought
    · exact hm level (hkept ▸ hlevel)
    · exact hcalls c List.mem_cons_self level (hbrought ▸ hlevel)

/-- On a valid level the robot and every snapshot are on free cells: the history is a path from the start
cell to where the robot is, and without a history the robot is on the start cell. -/
theorem free_of_bound {past : List Exchange} (htraced : m.Traced) (hcoherent : Coherent m past)
    (hlevel : m.level = some level) (hvalid : level.Valid) :
    level.Free m.robot.position ∧ ∀ s ∈ m.trace, level.Free s.position := by
  rcases htraced with ⟨hempty, -⟩ | ⟨bound, hbound, hpath, hlast⟩
  · obtain ⟨-, -, -, hrobot⟩ := hcoherent.untraced hempty
    rw [restingRobot, hlevel] at hrobot
    rw [hrobot, hempty]
    exact ⟨hvalid.start_free, fun s hs => absurd hs (Array.not_mem_empty s)⟩
  · obtain rfl : bound = level := Option.some.inj (hbound.symm.trans hlevel)
    have hfree : ∀ s ∈ m.trace, bound.Free s.position := fun s hs =>
      hpath.free_of_valid hvalid s (Array.mem_toList_iff.2 hs)
    obtain ⟨s, hs, hrobot⟩ := Option.map_eq_some_iff.1 hlast
    refine ⟨?_, hfree⟩
    rw [← hrobot]
    exact hfree s (Array.mem_of_back? hs)

/-- A list of levels has no fault exactly when its levels are valid and have different ids, every catalog
that is read from a text is such a list, and in every history of calls that bring along only levels of
accepted catalogs the robot and all snapshots are on free cells of the level that is bound, if there is
one. -/
theorem free_afterCalls_of_accepted :
    (∀ levels, Catalog.faults levels = [] ↔
      (levels.map (·.id)).Nodup ∧ ∀ level ∈ levels, level.Valid) ∧
    (∀ text c, Catalog.read text = .ok c →
      (c.levels.map (·.id)).Nodup ∧ ∀ level ∈ c.levels, level.Valid) ∧
    ∀ maxUnits calls,
      (∀ call ∈ calls, ∀ level, Call.level? call = some level →
        ∃ c, Catalog.Accepted c ∧ level ∈ c.levels) →
      ∀ level, ((new maxUnits).afterCalls calls).level = some level →
        level.Free ((new maxUnits).afterCalls calls).robot.position ∧
        ∀ s ∈ ((new maxUnits).afterCalls calls).trace, level.Free s.position := by
  refine ⟨?_, ?_, ?_⟩
  · intro levels
    rw [Catalog.faults_eq_nil_iff, and_comm]
  · intro text c hread
    exact ⟨(Catalog.sound_of_read hread).ids_nodup, (Catalog.sound_of_read hread).valid⟩
  · intro maxUnits calls hcalls level hlevel
    have hvalid : level.Valid := by
      refine level_afterCalls (P := Level.Valid) ?_ ?_ level hlevel
      · exact fun level hnone => absurd hnone (by simp [new])
      · intro call hcall level hbrought
        obtain ⟨c, haccepted, hmem⟩ := hcalls call hcall level hbrought
        exact haccepted.sound.valid level hmem
    exact free_of_bound (Reachable.traced ⟨calls, rfl⟩)
      ((Coherent.new maxUnits).afterCalls calls) hlevel hvalid

/-- A catalog of one level, without the fields that may be left out. -/
def tinyText : List Char :=
  ("\x7b\"levels\":[\x7b\"id\":7,\"name\":\"tiny\",\"gridSize\":2," ++
    "\"start\":\x7b\"x\":0,\"y\":1\x7d,\"target\":\x7b\"x\":0,\"y\":0\x7d,\"direction\":\"UP\"," ++
    "\"commands\":[\"forward\"],\"optimalMoves\":1\x7d]\x7d").toList

/-- The level of that catalog. -/
def tiny : Level :=
  { id := 7, name := "tiny", size := 2, start := ⟨0, 1⟩, target := ⟨0, 0⟩, facing := .up,
    obstacles := .empty, palette := [.forward], optimal := 1, hint := "" }

/-- Its level is bound, and a step is made on it. -/
def tinyCalls : List Call :=
  [.loadLevel tiny, .start (.ofForest (.command () .forward .nil)) (some tiny), .beginStep ⟨2⟩,
    .commitStep ⟨2⟩]

theorem read_tinyText : Catalog.read tinyText = .ok ⟨[tiny]⟩ :=
  eq_ok_of_toOption (by decide +kernel)

/-- A history on the level of a text that leaves something of a level out. -/
theorem free_afterCalls_of_accepted_tiny :
    Catalog.read tinyText = .ok ⟨[tiny]⟩ ∧
      let m := (new defaultMaxUnits).afterCalls tinyCalls
      m.level = some tiny ∧ m.trace.size = 2 ∧ tiny.Free m.robot.position ∧
        ∀ s ∈ m.trace, tiny.Free s.position := by
  have hbound : ((new defaultMaxUnits).afterCalls tinyCalls).level = some tiny := by decide
  have hsize : ((new defaultMaxUnits).afterCalls tinyCalls).trace.size = 2 := by decide
  have hlevels : ∀ call ∈ tinyCalls, ∀ level, call.level? = some level → level = tiny := by
    intro call hcall level hlevel
    simp only [tinyCalls, List.mem_cons, List.not_mem_nil, or_false] at hcall
    rcases hcall with rfl | rfl | rfl | rfl
    · exact (Option.some.inj hlevel).symm
    · exact (Option.some.inj hlevel).symm
    · cases hlevel
    · cases hlevel
  obtain ⟨-, -, hfree⟩ := free_afterCalls_of_accepted
  refine ⟨read_tinyText, hbound, hsize, hfree defaultMaxUnits tinyCalls ?_ tiny hbound⟩
  intro call hcall level hlevel
  obtain rfl := hlevels call hcall level hlevel
  exact ⟨⟨[tiny]⟩, .read read_tinyText, List.mem_singleton_self tiny⟩

end Machine

end RobotPuzzle
