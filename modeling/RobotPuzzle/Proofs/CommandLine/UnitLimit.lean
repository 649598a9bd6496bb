import RobotPuzzle.Proofs.CommandLine.Play
import RobotPuzzle.Proofs.Machine.Limit
import RobotPuzzle.Proofs.Run.Replay

/-!
# Listing and playing long programs

The settings limit the units of a program that is played. The listing of its units asks for no limit: it
has a line for every unit, however many there are. So a text is listed in full that is not played under the
same settings, and this happens exactly if its program has more units than they allow.

## Main statements

- `CommandLine.count_lines_expandAnswer` — the listing has a line for every unit
- `CommandLine.unrolledLength_of_playProgram` — a program that is played has all of its units at once
- `CommandLine.units_of_expandAnswer_and_play` — both answers to a text, side by side
-/

namespace RobotPuzzle

/-! ## Lines -/

theorem mem_padStart {width : Nat} {cs : List Char} {x : Char} (h : x ∈ padStart width cs) :
    x = ' ' ∨ x ∈ cs :=
  (List.mem_append.1 h).imp_left List.eq_of_mem_replicate

theorem mem_padEnd {width : Nat} {cs : List Char} {x : Char} (h : x ∈ padEnd width cs) :
    x = ' ' ∨ x ∈ cs :=
  (List.mem_append.1 h).symm.imp_left List.eq_of_mem_replicate

theorem newline_notMem_row (i : Nat) (b : Beat) : '\n' ∉ b.row i := by
  have hname : '\n' ∉ b.kind.name.toList := by cases b.kind <;> decide
  have hmarker : '\n' ∉ if b.marker then "  (loop)".toList else [] := by cases b.marker <;> decide
  have hblank : '\n' ≠ ' ' := by decide
  intro h
  rcases List.mem_append.1 h with h | h
  · rcases mem_padStart h with h | h
    · exact hblank h
    · exact notMem_decimal (by decide) _ h
  · rw [List.mem_cons, List.mem_cons, List.mem_append, List.mem_append] at h
    rcases h with h | h | (h | h) | h
    · exact hblank h
    · exact hblank h
    · rcases mem_padEnd h with h | h
      · exact hblank h
      · rcases List.mem_cons.1 h with h | h
        · cases h
        · exact notMem_decimal (by decide) _ h
    · rcases List.mem_cons.1 h with h | h
      · exact hblank h
      · exact hname h
    · exact hmarker h

namespace CommandLine

variable {s : Settings} {c : Catalog} {q : PlayRequest} {level : Level} {p : Program} {text : String}

/-! ## Listing -/

/-- Lines that hold no line break are as many as the line breaks after them. -/
theorem count_lines {ls : List (List Char)} (h : ∀ l ∈ ls, '\n' ∉ l) :
    (lines ls).count '\n' = ls.length := by
  induction ls with
  | nil => rfl
  | cons l ls ih =>
    rw [List.forall_mem_cons] at h
    have hrest := ih h.2
    rw [lines] at hrest ⊢
    rw [List.flatMap_cons, List.count_append, List.count_append, List.count_eq_zero.2 h.1, hrest,
      List.length_cons]
    simp [Nat.add_comm]

theorem expandAnswer_of_read (hread : s.readProgram text = .ok p) :
    expandAnswer s text = .ok { output := lines (p.forest.unroll.mapIdx Beat.row) } := by
  rw [expandAnswer, hread, ← p.unroll_eq_unroll_forest]
  rfl

/-- The listing has a line for every unit. -/
theorem count_lines_expandAnswer (units : List Beat) :
    (lines (units.mapIdx Beat.row)).count '\n' = units.length := by
  rw [count_lines, List.length_mapIdx]
  intro l hl
  obtain ⟨i, hi, rfl⟩ := List.mem_mapIdx.1 hl
  exact newline_notMem_row i _

/-! ## Playing -/

/-- All units of a program that is played are there at once. -/
theorem unrolledLength_of_playProgram {play : Play} (hplay : playProgram s c level p = .ok play) :
    play.report.unrolledLength = p.forest.unroll.length := by
  obtain ⟨-, -, n, hrun⟩ := exists_undisturbed_of_playProgram hplay
  rw [hrun.unrolledLength_eq, p.unroll_eq_unroll_forest]

/-- Only a text of more units than allowed is said to be too long. -/
theorem lt_length_of_tooLong {limit : Nat} (hread : s.readProgram q.program = .ok p)
    (h : play s c q = .error (.tooLong limit)) :
    limit = s.maxUnits ∧ s.maxUnits < p.forest.unroll.length := by
  have hcases := plays s c q
  rw [h] at hcases
  cases hcases with
  | tooLong hasked hempty hover hlong =>
    obtain rfl := Except.ok.inj (hread.symm.trans hasked.read)
    rw [Program.unrolledLength_eq_min] at hlong
    exact ⟨rfl, by omega⟩

/-- A text of too many units is said to be so by the first shipped level, where any kind may be used. -/
theorem play_shipped_of_long (hread : s.readProgram text = .ok p)
    (hlong : s.maxUnits < min p.forest.unroll.length lengthCeiling) :
    play s .shipped ⟨1, text, true⟩ = .error (.tooLong s.maxUnits) := by
  obtain ⟨first, hfirst⟩ : ∃ first, Catalog.shipped.levels[0]? = some first := ⟨_, rfl⟩
  have hid : first.id = 1 := by
    obtain rfl := Option.some.inj hfirst
    rfl
  have hasked : Asked s .shipped ⟨1, text, true⟩ first p := ⟨List.mem_of_getElem? hfirst, hid, hread⟩
  have hempty : p.isEmpty = false := by
    by_contra hempty
    rw [← p.unroll_eq_unroll_forest, Program.unroll_of_isEmpty (by simpa using hempty)] at hlong
    simp at hlong
  refine (plays s .shipped ⟨1, text, true⟩).eq_tooLong Catalog.Accepted.shipped.sound hasked hempty ?_ ?_
  · rintro ⟨hany, -⟩
    cases hany
  · rw [Program.unrolledLength_eq_min]
    exact hlong

/-! ## Both -/

/-- A text that is not a program is neither listed nor played. A text of a program is listed with a line for
each of its units, with no regard to the limit. It is played, if at all, with all of its units, and only if
they are within the limit or the limit is not below the ceiling; it is said to be too long only if its
units are more than the limit. So the limit is kept by the listing, and under the ceiling what is listed is
nowhere refused as too long, exactly if the units are within the limit. -/
theorem units_of_expandAnswer_and_play (s : Settings) (text : String) :
    (∀ e, s.readProgram text = .error e → expandAnswer s text = .error (.unreadable e) ∧
      ∀ c q, q.program = text → ∀ game limit,
        play s c q ≠ .ok game ∧ play s c q ≠ .error (.tooLong limit)) ∧
    ∀ p, s.readProgram text = .ok p →
      let units := p.forest.unroll.length
      let refused := ∃ c q limit, c.Accepted ∧ q.program = text ∧ play s c q = .error (.tooLong limit)
      ∃ listing, expandAnswer s text = .ok { output := listing } ∧ listing.count '\n' = units ∧
        (listing.count '\n' ≤ s.maxUnits ↔ units ≤ s.maxUnits) ∧
        (∀ c q game, q.program = text → play s c q = .ok game →
          game.report.unrolledLength = units ∧ (units ≤ s.maxUnits ∨ lengthCeiling ≤ s.maxUnits)) ∧
        (refused → s.maxUnits < units) ∧ (s.maxUnits < lengthCeiling → (¬ refused ↔ units ≤ s.maxUnits)) := by
  constructor
  · intro e hread
    refine ⟨by rw [expandAnswer, hread]; rfl, ?_⟩
    rintro c q rfl game limit
    have hcases := plays s c q
    constructor
    · intro hplay
      rw [hplay] at hcases
      cases hcases with
      | played hasked => cases hread.symm.trans hasked.read
    · intro hplay
      rw [hplay] at hcases
      cases hcases with
      | tooLong hasked => cases hread.symm.trans hasked.read
  · intro p hread units refused
    have hcount := count_lines_expandAnswer p.forest.unroll
    have hrefused : refused → s.maxUnits < units := by
      rintro ⟨c, q, limit, -, rfl, hplay⟩
      exact (lt_length_of_tooLong hread hplay).2
    refine ⟨_, expandAnswer_of_read hread, hcount, by rw [hcount], ?_, hrefused, ?_⟩
    · rintro c q game rfl hplay
      have hcases := plays s c q
      rw [hplay] at hcases
      cases hcases with
      | played hasked hempty hover hfits hgame =>
        obtain rfl := Except.ok.inj (hread.symm.trans hasked.read)
        refine ⟨unrolledLength_of_playProgram hgame, ?_⟩
        rw [Program.unrolledLength_eq_min] at hfits
        omega
    · intro hceiling
      constructor
      · intro hallowed
        by_contra hlong
        exact hallowed ⟨_, _, _, .shipped, rfl, play_shipped_of_long hread (by omega)⟩
      · intro hfits hnot
        exact absurd (hrefused hnot) (Nat.not_lt.2 hfits)

/-- With one unit allowed, two steps are listed on two lines, and refused as too long when they are to be
played. -/
theorem listed_not_played :
    let s := { Settings.standard with maxUnits := 1 }
    s.Valid ∧ (∃ listing, expandAnswer s "f f" = .ok { output := listing } ∧ listing.count '\n' = 2) ∧
      play s .shipped ⟨1, "f f", false⟩ = .error (.tooLong 1) := by
  intro s
  have hread : s.readProgram "f f" = .ok (.ofForest (.command () .forward (.command () .forward .nil))) :=
    readProgram_letters s 'f' 'f' (by decide) (by decide) (by decide) (by decide) (by decide)
  obtain ⟨first, hfirst⟩ : ∃ first, Catalog.shipped.levels[0]? = some first := ⟨_, rfl⟩
  have hmem := List.mem_of_getElem? hfirst
  obtain rfl := Option.some.inj hfirst
  refine ⟨(Settings.fault?_eq_none_iff s).1 (by decide), ⟨_, expandAnswer_of_read hread, ?_⟩, ?_⟩
  · rw [count_lines_expandAnswer]
    decide
  · exact (plays s .shipped ⟨1, "f f", false⟩).eq_tooLong Catalog.Accepted.shipped.sound
      ⟨hmem, rfl, hread⟩ (by decide) (by rw [oversteps_iff]; decide) (by decide)

end CommandLine

end RobotPuzzle
