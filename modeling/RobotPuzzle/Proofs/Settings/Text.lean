import RobotPuzzle.Proofs.Toml.Documents
import RobotPuzzle.Settings.File

/-!
# Texts of settings

The text of some settings is a document with a line for each of them, the catalog only if one is named. It is
read as it was written: no key is missing, so that no standard value comes in, but for the catalog, whose
standard value is none.

## Main definitions

- `Settings.Storable` — the numbers are within the ranges of a file

## Main statements

- `Settings.read?_write` — settings are read from their text as they were
-/

namespace RobotPuzzle.Settings

open Toml (WrittenEntry IsBareKey)

variable {s : Settings}

/-- The numbers are within the ranges of a file: signed numbers of 64 bits, and repeat counts of 32 bits. -/
structure Storable (s : Settings) : Prop where
  stepDelay : s.stepDelay < Nat.pow 2 63
  maxUnits : s.maxUnits < Nat.pow 2 63
  defaultCount : s.defaultCount < Nat.pow 2 32
  countChoices : ∀ n ∈ s.countChoices, n < Nat.pow 2 32

/-! ## Lines -/

/-- The entries of the text of some settings. -/
def writtenEntries (s : Settings) : List WrittenEntry :=
  [⟨"step_delay_ms", decimal s.stepDelay, .integer s.stepDelay⟩,
   ⟨"max_expanded_units", decimal s.maxUnits, .integer s.maxUnits⟩,
   ⟨"default_repeat_count", decimal s.defaultCount, .integer s.defaultCount⟩,
   ⟨"loop_count_choices", Toml.writtenList (s.countChoices.map Int.ofNat),
    .array (s.countChoices.map fun n : Nat => .integer n)⟩]
    ++ (s.catalog.map fun path => ⟨"catalog", Toml.writtenString path.toList, .string path.toList⟩).toList

theorem write_eq (s : Settings) : s.write = s.writtenEntries.flatMap (·.line) ++ ['\n'] := by
  cases hcatalog : s.catalog with
  | none => simp [write, writtenEntries, WrittenEntry.line, hcatalog]
  | some path => simp [write, writtenEntries, WrittenEntry.line, hcatalog]

theorem isBareKey_key : ∀ key ∈ ["step_delay_ms", "max_expanded_units", "default_repeat_count",
    "loop_count_choices", "catalog"], IsBareKey key := by
  decide

theorem sound_of_mem_writtenEntries (hs : s.Storable) : ∀ e ∈ s.writtenEntries, e.Sound := by
  have hbare := isBareKey_key
  simp only [List.forall_mem_cons] at hbare
  obtain ⟨hdelay, hunits, hcount, hchoices, hcatalog, -⟩ := hbare
  have hwide {n k : Nat} (h : n < Nat.pow 2 k) (hk : k ≤ 127) : n < Nat.pow 2 127 :=
    Nat.lt_of_lt_of_le h (Nat.pow_le_pow_right (by decide) hk)
  intro e he
  rcases List.mem_append.1 he with he | he
  · simp only [List.mem_cons, List.not_mem_nil, or_false] at he
    rcases he with rfl | rfl | rfl | rfl
    · exact ⟨hdelay, Toml.denotes_decimal (hwide hs.stepDelay (by decide))⟩
    · exact ⟨hunits, Toml.denotes_decimal (hwide hs.maxUnits (by decide))⟩
    · exact ⟨hcount, Toml.denotes_decimal (hwide hs.defaultCount (by decide))⟩
    · exact ⟨hchoices, Toml.denotes_writtenList fun n hn => hwide (hs.countChoices n hn) (by decide)⟩
  · rw [Option.mem_toList] at he
    obtain ⟨path, -, rfl⟩ := Option.map_eq_some_iff.1 he
    exact ⟨hcatalog, Toml.denotes_writtenString _⟩

theorem nodup_keys_writtenEntries (s : Settings) : (s.writtenEntries.map (·.key)).Nodup := by
  cases hcatalog : s.catalog with
  | none => simp [writtenEntries, hcatalog]
  | some path => simp [writtenEntries, hcatalog]

/-! ## Entries -/

theorem natural?_natCast {bound n : Nat} (h : n ≤ bound) : natural? bound (.integer n) = some n := by
  simp [natural?, h]

theorem naturals?_natCast {bound : Nat} {ns : List Nat} (h : ∀ n ∈ ns, n ≤ bound) :
    naturals? bound (.array (ns.map fun n : Nat => .integer n)) = some ns := by
  rw [naturals?]
  induction ns with
  | nil => rfl
  | cons n ns ih =>
    rw [List.forall_mem_cons] at h
    simp [natural?_natCast h.1, ih h.2]

theorem ofEntries?_writtenEntries (hs : s.Storable) : ofEntries? (s.writtenEntries.map (·.entry)) = some s := by
  have hle64 {n : Nat} (h : n < Nat.pow 2 63) : n ≤ bound64 :=
    Nat.le_trans (Nat.le_of_lt h) (by decide)
  have hle32 {n : Nat} (h : n < Nat.pow 2 32) : n ≤ bound32 := Nat.le_sub_one_of_lt h
  have hdelay : natural? bound64 (.integer s.stepDelay) = some s.stepDelay :=
    natural?_natCast (hle64 hs.stepDelay)
  have hunits : natural? bound64 (.integer s.maxUnits) = some s.maxUnits :=
    natural?_natCast (hle64 hs.maxUnits)
  have hcount : natural? bound32 (.integer s.defaultCount) = some s.defaultCount :=
    natural?_natCast (hle32 hs.defaultCount)
  have hchoices : naturals? bound32 (.array (s.countChoices.map fun n : Nat => .integer n)) = some s.countChoices :=
    naturals?_natCast fun n hn => hle32 (hs.countChoices n hn)
  have hread : ∀ catalog, s.catalog = catalog →
      ofEntries? (s.writtenEntries.map (·.entry)) = some { s with catalog := catalog } := by
    rintro (_ | path) hcatalog
    · simp [ofEntries?, keyOr, Toml.lookup?, writtenEntries, WrittenEntry.entry, hcatalog, hdelay, hunits, hcount,
        hchoices, standard]
    · simp [ofEntries?, keyOr, Toml.lookup?, writtenEntries, WrittenEntry.entry, hcatalog, hdelay, hunits, hcount,
        hchoices, path?]
  exact hread s.catalog rfl

/-- Settings are read from their text as they were. -/
theorem read?_write (hs : s.Storable) : read? s.write = some s := by
  rw [read?, write_eq, Toml.read?_lines (sound_of_mem_writtenEntries hs) (nodup_keys_writtenEntries s),
    Option.bind_eq_bind, Option.bind_some, ofEntries?_writtenEntries hs]

end RobotPuzzle.Settings
