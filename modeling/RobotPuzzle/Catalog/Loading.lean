import RobotPuzzle.Catalog.Reading
import RobotPuzzle.Disk.Walk

/-!
# Loading catalogs

## Main definitions

- `Catalog.load` — the catalog of a file
- `Catalog.resolve` — the catalog of a file, or the shipped one if no file is named
-/

namespace RobotPuzzle.Catalog

/-- Why there is no catalog. -/
inductive LoadError
  | unreadable (path : String) (e : Disk.ReadError)
  | refused (path : String) (e : CatalogError)

/-- The message about a catalog that is not there. -/
def LoadError.message : LoadError → String
  | unreadable path e => s!"read catalog {path}: {e.message}"
  | refused path e => e.message path

/-- The catalog of a file. -/
def load (d : Disk) (path : String) : Except LoadError Catalog :=
  match d.read path with
  | .error e => .error (.unreadable path e)
  | .ok text =>
    match read text.toList with
    | .error e => .error (.refused path e)
    | .ok c => .ok c

/-- The catalog of a file, or the shipped one if no file is named. -/
def resolve (d : Disk) : Option String → Except LoadError Catalog
  | none => .ok shipped
  | some path => load d path

end RobotPuzzle.Catalog
