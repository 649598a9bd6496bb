import RobotPuzzle.Text.Decimal

/-!
# Switches

The options of the command line. A switch has a long name, may have a letter, and may take a value.
Each may be given once where it is allowed.

## Main definitions

- `Switch` — the switches
- `Form`, `Form.ofArgument` — the four forms of an argument
- `UsageError` — why arguments are not understood
- `Options` — the switches that have been given, with their values
-/

namespace RobotPuzzle.CommandLine

/-- An option of the command line. -/
inductive Switch
  | config
  | version
  | delay
  | json
  | allowAny
  | force
deriving DecidableEq, Repr

namespace Switch

/-- The long name of a switch. -/
def name : Switch → String
  | config => "config"
  | version => "version"
  | delay => "delay-ms"
  | json => "json"
  | allowAny => "allow-any"
  | force => "force"

/-- The letter of a switch, if it has one. Switches with letters take no value. -/
def letter? : Switch → Option Char
  | version => some 'V'
  | force => some 'f'
  | _ => none

/-- A value follows the switch. -/
def takesValue : Switch → Bool
  | config => true
  | delay => true
  | _ => false

end Switch

/-! ## Forms of arguments -/

/-- The form of an argument. -/
inductive Form
  /-- A long name, and the value attached to it by an equals sign. -/
  | long (name : List Char) (value : Option (List Char))
  | letters (cs : List Char)
  /-- The mark after which no argument is a switch. -/
  | separator
  | plain
deriving DecidableEq, Repr

/-- A long name with what follows the first equals sign. -/
def Form.ofLong (cs : List Char) : Form :=
  match cs.dropWhile (· != '=') with
  | [] => .long cs none
  | _ :: value => .long (cs.takeWhile (· != '=')) (some value)

/-- The form of an argument. A single hyphen is plain. -/
def Form.ofArgument (argument : String) : Form :=
  match argument.toList with
  | ['-', '-'] => .separator
  | '-' :: '-' :: cs => .ofLong cs
  | '-' :: c :: cs => .letters (c :: cs)
  | _ => .plain

/-! ## Numbers -/

/-- The number of a numeral that is not empty and not beyond a bound. -/
def numeral? (bound : Nat) (cs : List Char) : Option Nat :=
  if cs = [] then none else (decimalWithin bound 0 cs).toOption

/-- The largest delay, in milliseconds. -/
def maxDelay : Nat := Nat.pow 2 64 - 1

/-- A delay may have a plus sign. -/
def delay? (text : String) : Option Nat :=
  match text.toList with
  | '+' :: cs => numeral? maxDelay cs
  | cs => numeral? maxDelay cs

/-- The largest id of a level. -/
def maxLevelId : Nat := Nat.pow 2 32 - 1

/-- An id may have a sign; below zero there are no ids. -/
def levelId? (text : String) : Option Nat :=
  match text.toList with
  | '+' :: cs => numeral? maxLevelId cs
  | '-' :: cs => numeral? 0 cs
  | cs => numeral? maxLevelId cs

/-! ## Given switches -/

/-- Why arguments are not understood. -/
inductive UsageError
  | noCommand
  | unknownCommand (argument : String)
  | unknownSwitch (argument : String)
  | unexpectedValue (s : Switch)
  | missingValue (s : Switch)
  | badValue (argument : String)
  | repeated (s : Switch)
  | missingArgument
  | unexpectedArgument (argument : String)
deriving DecidableEq, Repr

/-- The message about arguments that are not understood. -/
def UsageError.message : UsageError → String
  | noCommand => "a command is required"
  | unknownCommand argument => s!"unknown command '{argument}'"
  | unknownSwitch argument => s!"unknown option '{argument}'"
  | unexpectedValue s => s!"option --{s.name} takes no value"
  | missingValue s => s!"option --{s.name} needs a value"
  | badValue argument => s!"invalid value '{argument}'"
  | repeated s => s!"option --{s.name} is given twice"
  | missingArgument => "an argument is missing"
  | unexpectedArgument argument => s!"unexpected argument '{argument}'"

/-- The switches that have been given, with their values. -/
structure Options where
  config : Option String := none
  version : Bool := false
  delay : Option Nat := none
  json : Bool := false
  allowAny : Bool := false
  force : Bool := false
deriving DecidableEq, Repr

namespace Options

/-- The switch has been given. -/
def has (o : Options) : Switch → Bool
  | .config => o.config.isSome
  | .version => o.version
  | .delay => o.delay.isSome
  | .json => o.json
  | .allowAny => o.allowAny
  | .force => o.force

/-- The options with a switch that takes a value. -/
def giveValue (o : Options) (s : Switch) (value : String) : Except UsageError Options :=
  if o.has s then .error (.repeated s)
  else
    match s with
    | .config => if value = "" then .error (.badValue value) else .ok { o with config := some value }
    | .delay =>
      match delay? value with
      | none => .error (.badValue value)
      | some ms => .ok { o with delay := some ms }
    | _ => .error (.unexpectedValue s)

/-- The options with a switch that takes no value. -/
def give (o : Options) (s : Switch) : Except UsageError Options :=
  if o.has s then .error (.repeated s)
  else
    match s with
    | .version => .ok { o with version := true }
    | .json => .ok { o with json := true }
    | .allowAny => .ok { o with allowAny := true }
    | .force => .ok { o with force := true }
    | _ => .error (.missingValue s)

end Options

end RobotPuzzle.CommandLine
