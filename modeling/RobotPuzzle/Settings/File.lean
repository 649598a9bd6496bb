import RobotPuzzle.Disk.Writing
import RobotPuzzle.Settings.Basic
import RobotPuzzle.Toml.Reading
import RobotPuzzle.Toml.Writing

/-!
# Settings files

Settings are kept in a TOML file. A key that is not there leaves its setting at the standard value, and
keys that are no settings are ignored.

## Main definitions

- `Settings.ofEntries?`, `Settings.write` — settings and the text of a file
- `Settings.load`, `Settings.save` — settings and a file on a disk
-/

namespace RobotPuzzle

namespace Settings

/-! ## Reading and writing texts -/

/-- A natural number of at most some size. -/
def natural? (bound : Nat) : Toml → Option Nat
  | .integer i => if 0 ≤ i ∧ i ≤ bound then some i.toNat else none
  | _ => none

/-- A list of natural numbers of at most some size. -/
def naturals? (bound : Nat) : Toml → Option (List Nat)
  | .array items => items.mapM (natural? bound)
  | _ => none

/-- A path. -/
def path? : Toml → Option (Option String)
  | .string cs => some (some (String.ofList cs))
  | _ => none

/-- The value of a key, or the standard value without the key. There is no result if the key has a
value of another kind. -/
def keyOr {α : Type} (key : String) (default : α) (value? : Toml → Option α)
    (entries : Toml.Entries) : Option α :=
  match Toml.lookup? key entries with
  | none => some default
  | some v => value? v

/-- The bound of the step delay and of the number of units. -/
def bound64 : Nat := Nat.pow 2 64 - 1

/-- The bound of repeat counts. -/
def bound32 : Nat := Nat.pow 2 32 - 1

/-- The settings of a table. -/
def ofEntries? (entries : Toml.Entries) : Option Settings := do
  let stepDelay ← keyOr "step_delay_ms" standard.stepDelay (natural? bound64) entries
  let maxUnits ← keyOr "max_expanded_units" standard.maxUnits (natural? bound64) entries
  let defaultCount ← keyOr "default_repeat_count" standard.defaultCount (natural? bound32) entries
  let countChoices ← keyOr "loop_count_choices" standard.countChoices (naturals? bound32) entries
  let catalog ← keyOr "catalog" standard.catalog path? entries
  some { stepDelay, maxUnits, defaultCount, countChoices, catalog }

/-- The settings of a text. -/
def read? (text : List Char) : Option Settings := do
  ofEntries? (← Toml.read? text)

/-- The text of some settings. -/
def write (s : Settings) : List Char :=
  Toml.line "step_delay_ms" (decimal s.stepDelay)
    ++ Toml.line "max_expanded_units" (decimal s.maxUnits)
    ++ Toml.line "default_repeat_count" (decimal s.defaultCount)
    ++ Toml.line "loop_count_choices" (Toml.writtenList (s.countChoices.map Int.ofNat))
    ++ (s.catalog.elim [] fun path => Toml.line "catalog" (Toml.writtenString path.toList))
    ++ ['\n']

/-! ## Files -/

/-- Why a file gives no settings. -/
inductive LoadError
  | unreadable (e : Disk.ReadError)
  | malformed
  | refused (fault : SettingsFault)
deriving DecidableEq, Repr

/-- The message about the file of a path. -/
def LoadError.message (path : String) : LoadError → String
  | unreadable e => s!"read {path}: {e.message}"
  | malformed => s!"parse {path}: malformed settings"
  | refused fault => s!"validate {path}: {fault.message}"

/-- The settings of a file. Without a file they are the standard ones. -/
def load (d : Disk) (path : String) : Except LoadError Settings :=
  if !d.contains path then .ok standard
  else
    match d.read path with
    | .error e => .error (.unreadable e)
    | .ok text =>
      match read? text.toList with
      | none => .error .malformed
      | some s =>
        match s.fault? with
        | some fault => .error (.refused fault)
        | none => .ok s

/-- Why settings are not written. -/
inductive SaveError
  | refused (fault : SettingsFault)
  | unwritable (e : Disk.WriteError)
deriving DecidableEq, Repr

/-- The message about settings that are not written. -/
def SaveError.message : SaveError → String
  | refused fault => fault.message
  | unwritable e => e.message

/-- Write settings to a file. Refused settings leave the disk as it is. -/
def save (d : Disk) (path : String) (s : Settings) : Except SaveError Unit × Disk :=
  match s.fault? with
  | some fault => (.error (.refused fault), d)
  | none =>
    match d.replaceFile path (String.ofList s.write) with
    | (.ok (), after) => (.ok (), after)
    | (.error e, after) => (.error (.unwritable e), after)

end Settings

end RobotPuzzle
