import RobotPuzzle.Catalog.LevelFormat
import RobotPuzzle.Catalog.Shipped
import RobotPuzzle.Json.Reading

/-!
# Reading catalogs

A catalog text is a JSON text of the catalog schema whose levels keep every rule.

## Main definitions

- `CatalogError` — why a text is no catalog
- `Catalog.read` — the catalog of a text
- `Catalog.levelsOfJson`, `Catalog.toJson` — a list of levels as a JSON value
-/

namespace RobotPuzzle

/-- Why a text is no catalog. -/
inductive CatalogError
  | notJson
  | violations (vs : List Schema.Violation)
  | undecodable (e : DecodeError)
  | faults (fs : List CatalogFault)

namespace CatalogError

/-- What is wrong, without saying where the text is from. -/
def detail : CatalogError → String
  | notJson => "malformed JSON"
  | violations vs =>
    let list := "; ".intercalate (vs.map Schema.Violation.message)
    s!"catalog schema validation failed: {list}"
  | undecodable e => e.message
  | faults fs =>
    let list := "; ".intercalate (fs.map CatalogFault.message)
    s!"level invariants failed: {list}"

/-- The message about a text from somewhere. -/
def message (origin : String) (e : CatalogError) : String :=
  match e with
  | notJson => s!"parse {origin}: {e.detail}"
  | violations _ => s!"validate {origin}: {e.detail}"
  | undecodable _ => s!"deserialize {origin}: {e.detail}"
  | faults _ => s!"{origin}: {e.detail}"

end CatalogError

namespace Catalog

/-- The levels of a JSON value. -/
def levelsOfJson (value : Json) : Except DecodeError (List Level) := do
  let fields ← Decode.fields ["levels"] 0 value
  Decode.required "levels" (Decode.list Level.ofJson) fields

/-- Levels as a JSON value. -/
def toJson (levels : List Level) : Json :=
  .object [("levels", .array (levels.map Level.toJson))]

/-- The catalog of a JSON value in canonical form. -/
def ofJson (value : Json) : Except CatalogError Catalog :=
  match schema.violations value with
  | [] =>
    match levelsOfJson value with
    | .error e => .error (.undecodable e)
    | .ok levels =>
      match faults levels with
      | [] => .ok ⟨levels⟩
      | fs => .error (.faults fs)
  | vs => .error (.violations vs)

/-- The catalog of a text. -/
def read (text : List Char) : Except CatalogError Catalog :=
  match Json.readLimited? text with
  | none => .error .notJson
  | some value => ofJson value.canonical

end Catalog

end RobotPuzzle
