/-!
# Settings

## Main definitions

- `Settings` — the settings of the program
- `Settings.standard` — the settings used where none are given
- `Settings.fault?` — what is wrong with some settings, if anything
-/

namespace RobotPuzzle

/-- The settings of the program. -/
structure Settings where
  /-- The pause between highlighting a step and applying it, in milliseconds. -/
  stepDelay : Nat
  /-- Programs with more units than this are not run. -/
  maxUnits : Nat
  /-- The repeat count of loops written without one. -/
  defaultCount : Nat
  /-- The repeat counts a learner may write. -/
  countChoices : List Nat
  /-- The path of the catalog used instead of the shipped one. -/
  catalog : Option String
deriving DecidableEq, Repr

/-- A reason why settings are refused. -/
inductive SettingsFault
  | noUnits
  | zeroDefaultCount
  | noChoices
  | zeroChoice
deriving DecidableEq, Repr

/-- The message about refused settings. -/
def SettingsFault.message : SettingsFault → String
  | noUnits => "max_expanded_units must be > 0"
  | zeroDefaultCount => "default_repeat_count must be >= 1"
  | noChoices => "loop_count_choices must be a non-empty array"
  | zeroChoice => "loop_count_choices must all be >= 1"

namespace Settings

/-- The settings used where none are given. -/
def standard : Settings :=
  { stepDelay := 500, maxUnits := 10000, defaultCount := 3, countChoices := [2, 3, 4, 5],
    catalog := none }

instance : Inhabited Settings := ⟨standard⟩

/-- The first reason to refuse some settings, if there is one. -/
def fault? (s : Settings) : Option SettingsFault :=
  if s.maxUnits = 0 then some .noUnits
  else if s.defaultCount = 0 then some .zeroDefaultCount
  else if s.countChoices = [] then some .noChoices
  else if 0 ∈ s.countChoices then some .zeroChoice
  else none

/-- The settings are accepted. -/
def Valid (s : Settings) : Prop :=
  0 < s.maxUnits ∧ 0 < s.defaultCount ∧ s.countChoices ≠ [] ∧ ∀ n ∈ s.countChoices, 0 < n

theorem fault?_eq_none_iff (s : Settings) : s.fault? = none ↔ s.Valid := by
  have hzero : 0 ∉ s.countChoices ↔ ∀ n ∈ s.countChoices, 0 < n := by
    constructor
    · intro h n hn
      rcases Nat.eq_zero_or_pos n with rfl | hpos
      · exact absurd hn h
      · exact hpos
    · intro h hmem
      exact absurd (h 0 hmem) (by omega)
  rw [Valid, ← hzero, fault?]
  by_cases hunits : s.maxUnits = 0
  · simp [hunits]
  by_cases hdefault : s.defaultCount = 0
  · simp [hunits, hdefault]
  by_cases hchoices : s.countChoices = []
  · simp [hunits, hdefault, hchoices]
  simp [hunits, hdefault, hchoices, Nat.pos_of_ne_zero]

/-- A learner may write this repeat count. -/
def offers (s : Settings) (count : Nat) : Bool := s.countChoices.contains count

theorem fault?_standard : standard.fault? = none := by decide

end Settings

end RobotPuzzle
