import RobotPuzzle.CommandLine.Switch

/-!
# Invocations

The arguments of the program name a command, with switches before and after it. Arguments are read
from left to right, and the first that is not understood is the error.

## Main definitions

- `Request` — what the program is asked to do
- `Invocation` — a request with the settings file, or the question for the version
- `Invocation.read` — the invocation of some arguments
-/

namespace RobotPuzzle.CommandLine

/-- A program to be played on a level. -/
structure PlayRequest where
  level : Nat
  program : String
  /-- Kinds that are not in the palette may be used. -/
  anyKind : Bool
deriving DecidableEq, Repr

/-- What the program is asked to do. -/
inductive Request
  | levels
  | level (id : Nat)
  | expand (program : String)
  | play (request : PlayRequest) (delay : Option Nat) (json : Bool)
  | writeSettings (force : Bool)
deriving DecidableEq, Repr

/-- A request with the settings file, or the question for the version. -/
inductive Invocation
  | version
  | request (settingsPath : String) (r : Request)
deriving DecidableEq, Repr

/-- The name of a command. -/
inductive Verb
  | levels
  | level
  | expand
  | run
  | initConfig
deriving DecidableEq, Repr

namespace Verb

/-- The commands by their names. -/
def ofName? : String → Option Verb
  | "levels" => some levels
  | "show" => some level
  | "expand" => some expand
  | "run" => some run
  | "init-config" => some initConfig
  | _ => none

/-- The switches that may follow a command. -/
def switches : Verb → List Switch
  | run => [.config, .delay, .json, .allowAny]
  | initConfig => [.config, .force]
  | _ => [.config]

/-- The request of a command with its arguments. -/
def request (v : Verb) (o : Options) (arguments : List String) : Except UsageError Request :=
  let withId (text : String) (f : Nat → Request) : Except UsageError Request :=
    match levelId? text with
    | some id => .ok (f id)
    | none => .error (.badValue text)
  match v, arguments with
  | levels, [] => .ok .levels
  | level, [id] => withId id .level
  | expand, [program] => .ok (.expand program)
  | run, [id, program] => withId id fun id => .play ⟨id, program, o.allowAny⟩ o.delay o.json
  | initConfig, [] => .ok (.writeSettings o.force)
  | levels, extra :: _ => .error (.unexpectedArgument extra)
  | initConfig, extra :: _ => .error (.unexpectedArgument extra)
  | level, _ :: extra :: _ => .error (.unexpectedArgument extra)
  | expand, _ :: extra :: _ => .error (.unexpectedArgument extra)
  | run, _ :: _ :: extra :: _ => .error (.unexpectedArgument extra)
  | _, _ => .error .missingArgument

end Verb

/-! ## Reading arguments -/

/-- What has been read of the arguments. -/
structure Draft where
  /-- The switches before the command. -/
  before : Options := {}
  verb : Option Verb := none
  /-- The switches after the command. -/
  after : Options := {}
  /-- The arguments of the command, last one first. -/
  places : List String := []
  /-- The switch whose value is the next argument. -/
  awaiting : Option Switch := none
  /-- No further argument is a switch. -/
  separated : Bool := false
deriving DecidableEq, Repr

namespace Draft

/-- The switches that may come next. -/
def switches (p : Draft) : List Switch :=
  match p.verb with
  | none => [.config, .version]
  | some v => v.switches

/-- Change the switches before the command, or after it if it has been read. -/
def updateOptions (p : Draft) (f : Options → Except UsageError Options) :
    Except UsageError Draft :=
  match p.verb with
  | none => do .ok { p with before := ← f p.before }
  | some _ => do .ok { p with after := ← f p.after }

/-- Read a command, or an argument of the command. -/
def acceptPlain (p : Draft) (argument : String) : Except UsageError Draft :=
  match p.verb with
  | some _ => .ok { p with places := argument :: p.places }
  | none =>
    match if p.separated then none else Verb.ofName? argument with
    | some v => .ok { p with verb := some v }
    | none => .error (.unknownCommand argument)

/-- Read the long name of a switch. -/
def acceptLong (p : Draft) (name : List Char) (value : Option (List Char)) :
    Except UsageError Draft :=
  match p.switches.find? (·.name.toList = name) with
  | none => .error (.unknownSwitch (String.ofList ('-' :: '-' :: name)))
  | some s =>
    match s.takesValue, value with
    | true, none => .ok { p with awaiting := some s }
    | true, some cs => p.updateOptions (·.giveValue s (String.ofList cs))
    | false, none => p.updateOptions (·.give s)
    | false, some _ => .error (.unexpectedValue s)

/-- Read letters of switches. What stands after the letter that asks for the version is not looked
at. -/
def acceptLetters (p : Draft) : List Char → Except UsageError Draft
  | [] => .ok p
  | c :: cs =>
    if p.before.version then .ok p
    else
      match p.switches.find? (·.letter? = some c) with
      | none => .error (.unknownSwitch (String.ofList ['-', c]))
      | some s => do (← p.updateOptions (·.give s)).acceptLetters cs

/-- Read one more argument. The question for the version is answered at once, so nothing after it is
looked at. -/
def accept (p : Draft) (argument : String) : Except UsageError Draft :=
  if p.before.version then .ok p
  else if p.separated then p.acceptPlain argument
  else
    match Form.ofArgument argument, p.awaiting with
    | .plain, none => p.acceptPlain argument
    | .plain, some s => do
      .ok { ← p.updateOptions (·.giveValue s argument) with awaiting := none }
    | _, some s => .error (.missingValue s)
    | .separator, none => .ok { p with separated := true }
    | .long name value, none => p.acceptLong name value
    | .letters cs, none => p.acceptLetters cs

/-- The name of the settings file if none is given. -/
def standardSettingsPath : String := "robogrid.toml"

/-- The invocation when there are no more arguments. A settings file named after the command counts
before one named in front of it. -/
def finish (p : Draft) : Except UsageError Invocation :=
  if p.before.version then .ok .version
  else
    match p.awaiting, p.verb with
    | some s, _ => .error (.missingValue s)
    | none, none => .error .noCommand
    | none, some v => do
      let r ← v.request p.after p.places.reverse
      .ok (.request ((p.after.config <|> p.before.config).getD standardSettingsPath) r)

end Draft

/-- The invocation of some arguments. -/
def Invocation.read (arguments : List String) : Except UsageError Invocation := do
  (← arguments.foldlM Draft.accept {}).finish

end RobotPuzzle.CommandLine
