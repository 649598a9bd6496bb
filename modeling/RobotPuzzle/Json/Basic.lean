import RobotPuzzle.Number.Binary64

/-!
# JSON values

## Main definitions

- `Json`, `Json.Number` — values; an object keeps its fields in the order in which they are written
- `Json.field?` — the value of a field
- `Json.canonical` — the value with the fields of every object sorted, the last of each name
- `Json.depth`, `Json.isComplete` — what a reader with limits looks at
-/

namespace RobotPuzzle

/-- A number of a JSON text. -/
inductive Json.Number
  /-- A number written without fraction and exponent that fits 64 bits, with or without sign. -/
  | integer (i : Int)
  | real (x : Binary64)
  /-- A numeral beyond every number. -/
  | beyond
deriving DecidableEq, Repr

/-- A JSON value. -/
inductive Json
  | null
  | boolean (b : Bool)
  | number (n : Json.Number)
  | string (s : String)
  /-- A string with half of a surrogate pair, or an object one of whose names is such a string. -/
  | unpaired
  | array (items : List Json)
  | object (fields : List (String × Json))
deriving Repr

namespace Json

instance : Inhabited Json := ⟨null⟩

/-- An integer as a value. -/
def int (i : Int) : Json := number (.integer i)

/-- A natural number as a value. -/
def nat (n : Nat) : Json := number (.integer n)

/-- A text as a value. -/
def text (cs : List Char) : Json := string (String.ofList cs)

/-- The object of some fields, unless one has no name. -/
def ofFields (fields : List (Option String × Json)) : Json :=
  match fields.mapM fun (name, value) => name.map (·, value) with
  | some named => object named
  | none => unpaired

/-- The value, or null if there is none. -/
def ofOption {α : Type} (f : α → Json) : Option α → Json
  | none => null
  | some a => f a

/-- The last field of a name in a list of fields. -/
def lookup? (name : String) (fields : List (String × Json)) : Option Json :=
  (fields.reverse.find? (·.1 == name)).map (·.2)

/-- The last field of a name, if the value is an object that has one. -/
def field? (name : String) : Json → Option Json
  | object fields => lookup? name fields
  | _ => none

/-- The value with a field put in its place among sorted fields. A field of the same name that is
there already comes later in the text and stays. -/
def insertField (name : String) (value : Json) : List (String × Json) → List (String × Json)
  | [] => [(name, value)]
  | (other, v) :: rest =>
    if name = other then (other, v) :: rest
    else if name < other then (name, value) :: (other, v) :: rest
    else (other, v) :: insertField name value rest

mutual

/-- The value with the fields of every object sorted by name, and of fields with the same name the
last one only. -/
def canonical : Json → Json
  | null => null
  | boolean b => boolean b
  | number n => number n
  | string s => string s
  | unpaired => unpaired
  | array items => array (canonicalItems items)
  | object fields => object (canonicalFields fields)

/-- The items in canonical form. -/
def canonicalItems : List Json → List Json
  | [] => []
  | item :: rest => item.canonical :: canonicalItems rest

/-- The fields in canonical form. -/
def canonicalFields : List (String × Json) → List (String × Json)
  | [] => []
  | (name, value) :: rest => insertField name value.canonical (canonicalFields rest)

end

mutual

/-- The number of arrays and objects that stand in one another. -/
def depth : Json → Nat
  | array items => depthItems items + 1
  | object fields => depthFields fields + 1
  | _ => 0

/-- The greatest depth of some items. -/
def depthItems : List Json → Nat
  | [] => 0
  | item :: rest => max item.depth (depthItems rest)

/-- The greatest depth of some fields. -/
def depthFields : List (String × Json) → Nat
  | [] => 0
  | (_, value) :: rest => max value.depth (depthFields rest)

end

mutual

/-- Every numeral of the value has a number, and every string its characters. -/
def isComplete : Json → Bool
  | number .beyond => false
  | unpaired => false
  | array items => isCompleteItems items
  | object fields => isCompleteFields fields
  | _ => true

/-- All of the items are complete. -/
def isCompleteItems : List Json → Bool
  | [] => true
  | item :: rest => item.isComplete && isCompleteItems rest

/-- The values of all the fields are complete. -/
def isCompleteFields : List (String × Json) → Bool
  | [] => true
  | (_, value) :: rest => value.isComplete && isCompleteFields rest

end

end Json

end RobotPuzzle
