import RobotPuzzle.Board.Validity

/-!
# Catalogs

An ordered list of levels, found by their ids.

## Main definitions

- `Catalog` — the levels
- `Catalog.get?`, `Catalog.nextAfter?` — a level by its id, and the level after it
- `Catalog.faults` — every broken rule of a list of levels
-/

namespace RobotPuzzle

/-- An ordered list of levels. -/
structure Catalog where
  levels : List Level
deriving DecidableEq

namespace Catalog

/-- The first level with an id. -/
def get? (c : Catalog) (id : Nat) : Option Level :=
  c.levels.find? (·.id = id)

/-- The level that stands after the first level with an id. -/
def nextAfter? (c : Catalog) (id : Nat) : Option Level := do
  let index ← c.levels.findIdx? (·.id = id)
  c.levels[index + 1]?

/-- The number of levels. -/
def length (c : Catalog) : Nat := c.levels.length

end Catalog

/-- A broken rule of a list of levels. -/
inductive CatalogFault
  /-- An earlier level has the same id. -/
  | repeatedId (id : Nat)
  | inLevel (id : Nat) (fault : LevelFault)
deriving DecidableEq, Repr

/-- The message about a fault. -/
def CatalogFault.message : CatalogFault → String
  | repeatedId id => s!"duplicate level id {id}"
  | inLevel id fault => fault.message id

namespace Catalog

/-- Every broken rule of the levels after some with the ids `seen`, in order. -/
def faultsAfter (seen : List Nat) : List Level → List CatalogFault
  | [] => []
  | level :: rest =>
    (if level.id ∈ seen then [.repeatedId level.id] else [])
      ++ level.faults.map (.inLevel level.id)
      ++ faultsAfter (level.id :: seen) rest

/-- Every broken rule of a list of levels, in order. -/
def faults (levels : List Level) : List CatalogFault := faultsAfter [] levels

theorem faultsAfter_eq_nil_iff (seen : List Nat) (levels : List Level) :
    faultsAfter seen levels = [] ↔
      (∀ level ∈ levels, level.Valid) ∧ (levels.map (·.id)).Nodup ∧
        ∀ level ∈ levels, level.id ∉ seen := by
  induction levels generalizing seen with
  | nil => simp [faultsAfter]
  | cons level rest ih =>
    simp only [faultsAfter, List.append_eq_nil_iff, List.map_eq_nil_iff, Level.faults_eq_nil_iff, ih]
    by_cases h : level.id ∈ seen
    · simp [h]
    · simp only [h, if_false, true_and, List.map_cons, List.nodup_cons,
        List.mem_map, List.mem_cons]
      grind

/-- A list of levels has no fault exactly when its levels are valid and no two have the same id. -/
theorem faults_eq_nil_iff (levels : List Level) :
    faults levels = [] ↔ (∀ level ∈ levels, level.Valid) ∧ (levels.map (·.id)).Nodup := by
  simp [faults, faultsAfter_eq_nil_iff]

end Catalog

end RobotPuzzle
