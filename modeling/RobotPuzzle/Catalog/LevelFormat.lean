import RobotPuzzle.Board.Level
import RobotPuzzle.Json.Cell
import RobotPuzzle.Json.Schema

/-!
# Levels as JSON

How levels are written as JSON values and read from them.

## Main definitions

- `Level.toJson` — the value of a level
- `Level.ofJson` — the level of a value, or the first thing wrong with it
- `Catalog.schema` — the shape of a catalog file

## Design notes

Reading looks at the fields of an object in the order of their names, so the first fault it meets is
the one that is reported. Obstacles and hint may be left out. A cell or a level may also be given as
the list of its fields, and a name as an object with that one field and no value.
-/

namespace RobotPuzzle

/-- A range of integers with the name it goes by in messages. -/
structure IntRange where
  low : Int
  high : Int
  name : String
deriving DecidableEq, Repr

/-- The range of ids and counts. -/
def IntRange.unsigned32 : IntRange := ⟨0, Int.pow 2 32 - 1, "u32"⟩

/-- The range of coordinates and sizes. -/
def IntRange.signed32 : IntRange := ⟨-Int.pow 2 31, Int.pow 2 31 - 1, "i32"⟩

/-- What is wrong with a value that is read as a level. -/
inductive DecodeError
  | notInteger (x : Binary64) (range : IntRange)
  | outOfRange (i : Int) (range : IntRange)
  /-- A field is missing or given twice, or a value has the wrong type or an unknown name. -/
  | malformed
deriving DecidableEq, Repr

/-- The message about a fault. -/
def DecodeError.message : DecodeError → String
  | notInteger x range =>
    s!"invalid type: floating point \x60{String.ofList x.scientific}\x60, expected {range.name}"
  | outOfRange i range => s!"invalid value: integer \x60{i}\x60, expected {range.name}"
  | malformed => "malformed level"

namespace Decode

/-- An integer in a range. -/
def int (range : IntRange) : Json → Except DecodeError Int
  | .number (.integer i) =>
    if range.low ≤ i && i ≤ range.high then .ok i else .error (.outOfRange i range)
  | .number (.real x) => .error (.notInteger x range)
  | _ => .error .malformed

/-- A string. -/
def string : Json → Except DecodeError String
  | .string s => .ok s
  | _ => .error .malformed

/-- The items of a list. -/
def list {α : Type} (item : Json → Except DecodeError α) : Json → Except DecodeError (List α)
  | .array items => items.mapM item
  | _ => .error .malformed

/-- One of several names. -/
def name {α : Type} (ofName? : String → Option α) : Json → Except DecodeError α
  | .string s => (ofName? s).elim (.error .malformed) .ok
  | .object [(s, .null)] => (ofName? s).elim (.error .malformed) .ok
  | _ => .error .malformed

/-- The value of a field that may be given once. -/
def field? (name : String) (fields : List (String × Json)) : Except DecodeError (Option Json) :=
  match fields.filter (·.1 == name) with
  | [] => .ok none
  | [(_, value)] => .ok (some value)
  | _ => .error .malformed

/-- A field that must be given once. -/
def required {α : Type} (name : String) (value : Json → Except DecodeError α)
    (fields : List (String × Json)) : Except DecodeError α := do
  match ← field? name fields with
  | some v => value v
  | none => .error .malformed

/-- A field that may be given once. -/
def optional {α : Type} (name : String) (default : α) (value : Json → Except DecodeError α)
    (fields : List (String × Json)) : Except DecodeError α := do
  match ← field? name fields with
  | some v => value v
  | none => .ok default

/-- The fields of an object. A list counts as an object whose fields have the given names, in that
order, of which the last `spare` may be missing. -/
def fields (names : List String) (spare : Nat) : Json → Except DecodeError (List (String × Json))
  | .object fields => .ok fields
  | .array items =>
    if items.length ≤ names.length && names.length ≤ items.length + spare then
      .ok (names.zip items)
    else .error .malformed
  | _ => .error .malformed

/-- A cell. -/
def cell (value : Json) : Except DecodeError Cell := do
  let fs ← fields ["x", "y"] 0 value
  let x ← required "x" (int .signed32) fs
  let y ← required "y" (int .signed32) fs
  .ok ⟨x, y⟩

end Decode

namespace Level

/-- The names of the fields of a level, in the order in which they are written. -/
def fieldNames : List String :=
  ["id", "name", "gridSize", "start", "target", "direction", "obstacles", "commands",
   "optimalMoves", "hint"]

/-- The level of a value. -/
def ofJson (value : Json) : Except DecodeError Level := do
  let fs ← Decode.fields fieldNames 1 value
  let palette ← Decode.required "commands" (Decode.list (Decode.name Kind.ofName?)) fs
  let facing ← Decode.required "direction" (Decode.name Direction.ofName?) fs
  let size ← Decode.required "gridSize" (Decode.int .signed32) fs
  let hint ← Decode.optional "hint" "" Decode.string fs
  let id ← Decode.required "id" (Decode.int .unsigned32) fs
  let name ← Decode.required "name" Decode.string fs
  let obstacles ← Decode.optional "obstacles" [] (Decode.list Decode.cell) fs
  let optimal ← Decode.required "optimalMoves" (Decode.int .unsigned32) fs
  let start ← Decode.required "start" Decode.cell fs
  let target ← Decode.required "target" Decode.cell fs
  .ok
    { id := id.toNat, name, size, start, target, facing, obstacles := .ofList obstacles, palette,
      optimal := optimal.toNat, hint }

/-- A level as a value, with a list of its obstacles. -/
def toJsonWith (level : Level) (obstacles : List Cell) : Json :=
  .object
    [("id", .nat level.id), ("name", .string level.name), ("gridSize", .int level.size),
     ("start", level.start.toJson), ("target", level.target.toJson),
     ("direction", .string level.facing.name),
     ("obstacles", .array (obstacles.map Cell.toJson)),
     ("commands", .array (level.palette.map fun k => .string k.name)),
     ("optimalMoves", .nat level.optimal), ("hint", .string level.hint)]

/-- A level as a value. -/
def toJson (level : Level) : Json := level.toJsonWith level.obstacles.toList

end Level

namespace Catalog

/-- The shape of a cell. -/
def cellSchema : Schema :=
  .record [("x", .integer none), ("y", .integer none)] ["x", "y"]

/-- The shape of a level. -/
def levelSchema : Schema :=
  .record
    [("commands", .list (.choice (Kind.all.map Kind.name)) 1),
     ("direction", .choice ["UP", "DOWN", "LEFT", "RIGHT"]),
     ("gridSize", .integer (some 1)),
     ("hint", .text 0),
     ("id", .integer (some 0)),
     ("name", .text 1),
     ("obstacles", .list cellSchema 0),
     ("optimalMoves", .integer (some 0)),
     ("start", cellSchema),
     ("target", cellSchema)]
    ["id", "name", "gridSize", "start", "target", "direction", "commands", "optimalMoves"]

/-- The shape of a catalog file. -/
def schema : Schema := .record [("levels", .list levelSchema 0)] ["levels"]

end Catalog

end RobotPuzzle
