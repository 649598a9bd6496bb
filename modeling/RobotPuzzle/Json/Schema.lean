import RobotPuzzle.Json.Writing

/-!
# Schemas

The shape a JSON value must have, and how a value falls short of it.

## Main definitions

- `Schema` — integers, texts, choices, lists and records
- `Schema.violations` — every way in which a value falls short, in order

## Design notes

A record lists its properties by name in order, and `violations` follows that list, so what is wrong
inside a value is reported in the order of the property names before what is wrong with the value.
-/

namespace RobotPuzzle

/-- The shape of a JSON value. -/
inductive Schema
  | integer (minimum : Option Nat)
  | text (minLength : Nat)
  | choice (options : List String)
  | list (items : Schema) (minItems : Nat)
  /-- An object with these properties and no others, of which some are required. -/
  | record (properties : List (String × Schema)) (required : List String)

/-- A way in which a value falls short of a schema. -/
inductive Schema.Violation
  | wrongType (value : Json) (type : String)
  | tooSmall (value : Json) (minimum : Nat)
  | tooShort (value : Json) (minLength : Nat)
  | tooFew (value : Json) (minItems : Nat)
  | notOffered (value : Json) (options : List String)
  | missing (name : String)
  | unexpected (names : List String)
deriving Repr

namespace Schema

/-- A count of things, with the plural of the word unless there is one of them. -/
def counted (n : Nat) (word : String) : String :=
  if n = 1 then s!"1 {word}" else s!"{n} {word}s"

/-- The options of a choice, of which two are named if there are more than three. -/
def optionsText : List String → String
  | [] => ""
  | [a] => s!"\"{a}\""
  | [a, b] => s!"\"{a}\" or \"{b}\""
  | [a, b, c] => s!"\"{a}\", \"{b}\" or \"{c}\""
  | a :: b :: more => s!"\"{a}\", \"{b}\" or {more.length} other candidates"

/-- The text of a value in messages. -/
def valueText (value : Json) : String := String.ofList value.canonical.compact

/-- The message about a violation. -/
def Violation.message : Violation → String
  | wrongType value type => s!"{valueText value} is not of type \"{type}\""
  | tooSmall value minimum => s!"{valueText value} is less than the minimum of {minimum}"
  | tooShort value minLength =>
    let least := counted minLength "character"
    s!"{valueText value} is shorter than {least}"
  | tooFew value minItems =>
    let least := counted minItems "item"
    s!"{valueText value} has less than {least}"
  | notOffered value options => s!"{valueText value} is not one of {optionsText options}"
  | missing name => s!"\"{name}\" is a required property"
  | unexpected names =>
    let list := ", ".intercalate (names.map fun name => s!"'{name}'")
    let verb := if names.length = 1 then "was" else "were"
    s!"Additional properties are not allowed ({list} {verb} unexpected)"

/-- The number is an integer, whichever way it is written. -/
def isInteger : Json.Number → Bool
  | .integer _ => true
  | .real x => x.isInteger
  | .beyond => false

/-- The number is below a minimum. -/
def isBelow (minimum : Nat) : Json.Number → Bool
  | .integer i => i < minimum
  | .real x => x.isLess minimum
  | .beyond => false

/-- The violations of an integer schema. -/
def integerViolations (minimum : Option Nat) (value : Json) : List Violation :=
  match value with
  | .number n =>
    (match minimum with
      | some m => if isBelow m n then [.tooSmall value m] else []
      | none => [])
      ++ (if isInteger n then [] else [.wrongType value "integer"])
  | _ => [.wrongType value "integer"]

/-- The violations of a text schema. -/
def textViolations (minLength : Nat) (value : Json) : List Violation :=
  match value with
  | .string s => if s.length < minLength then [.tooShort value minLength] else []
  | _ => [.wrongType value "string"]

/-- The violations of a choice. -/
def choiceViolations (options : List String) (value : Json) : List Violation :=
  match value with
  | .string s => if s ∈ options then [] else [.notOffered value options]
  | _ => [.notOffered value options]

/-- The properties of an object that no schema is given for. -/
def unexpectedNames (names : List String) (fields : List (String × Json)) : List String :=
  (fields.map (·.1)).filter (· ∉ names)

/-- The violation of an object with properties that no schema is given for. -/
def unexpectedViolations (names : List String) (fields : List (String × Json)) : List Violation :=
  match unexpectedNames names fields with
  | [] => []
  | unexpected => [.unexpected unexpected]

/-- The violations of an object without some required properties. -/
def missingViolations (required : List String) (fields : List (String × Json)) : List Violation :=
  (required.filter fun name => (Json.lookup? name fields).isNone).map .missing

mutual

/-- Every way in which a value in canonical form falls short of a schema, in order. -/
def violations : Schema → Json → List Violation
  | integer minimum, value => integerViolations minimum value
  | text minLength, value => textViolations minLength value
  | choice options, value => choiceViolations options value
  | list items minItems, value =>
    match value with
    | .array values =>
      values.flatMap (items.violations ·)
        ++ (if values.length < minItems then [.tooFew value minItems] else [])
    | _ => [.wrongType value "array"]
  | record properties required, value =>
    match value with
    | .object fields =>
      propertyViolations properties fields
        ++ unexpectedViolations (properties.map (·.1)) fields
        ++ missingViolations required fields
    | _ => [.wrongType value "object"]

/-- The violations inside the properties of an object. -/
def propertyViolations : List (String × Schema) → List (String × Json) → List Violation
  | [], _ => []
  | (name, schema) :: rest, fields =>
    (match Json.lookup? name fields with
      | some value => schema.violations value
      | none => [])
      ++ propertyViolations rest fields

end

end Schema

end RobotPuzzle
