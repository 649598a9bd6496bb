import RobotPuzzle.Notation.Lexeme
import RobotPuzzle.Notation.Words
import RobotPuzzle.Program.Edit
import RobotPuzzle.Text.Decimal

/-!
# Reading the notation

A program is written as a sequence of words; a loop word is followed by its body in braces. The
reader goes through the lexemes from left to right with the loops that are still open, and stops at
the first fault.

## Main definitions

- `ReadError` — the faults of a text, each with its place
- `Draft` — what has been read so far
- `Draft.accept`, `Draft.finish` — read one more lexeme, or the end of the text
- `readForest`, `readProgram` — the tree and the program of a text

## Design notes

A draft keeps the open loops innermost first, each with the instructions before it, so a brace opens
and closes a loop at the head of a list and no instruction is ever looked up.
-/

namespace RobotPuzzle.Notation

/-- The default of a loop word without a count, and the counts a loop may have. -/
structure CountRule where
  default : Nat
  offered : Nat → Bool

/-- Any count of at least 1 may be written. -/
def CountRule.free (default : Nat) : CountRule := ⟨default, fun _ => true⟩

/-- The largest repeat count, `2^32 - 1`. -/
def maxCount : Nat := Nat.pow 2 32 - 1

/-- A fault of a text. Offsets count bytes. -/
inductive ReadError
  | stray (offset : Nat) (excerpt : List Char)
  | unexpectedOpening (offset : Nat)
  | bodyExpected (declared : Nat)
  | unmatchedClosing (offset : Nat)
  | unknownWord (letters : List Char) (offset : Nat)
  | badCount (offset : Nat) (reason : NumeralError)
  | countZero (offset : Nat)
  | countNotOffered (count offset : Nat)
  | countOnCommand (offset : Nat)
  | noBody (declared : Nat)
  | unclosed (loops : Nat)
deriving DecidableEq, Repr

/-- What is wrong with a repeat count. -/
def numeralErrorText : NumeralError → String
  | .notDigit => "invalid digit found in string"
  | .tooLarge => "number too large to fit in target type"

/-- The message about a fault. -/
def ReadError.message : ReadError → String
  | stray offset excerpt => s!"unexpected input at offset {offset}: '{String.ofList excerpt}'"
  | unexpectedOpening offset => s!"unexpected '\x7b' at offset {offset}"
  | bodyExpected declared => s!"loop at offset {declared} must be followed by '\x7b'"
  | unmatchedClosing offset => s!"unmatched '\x7d' at offset {offset}"
  | unknownWord letters offset =>
    s!"unknown command '{String.ofList letters}' at offset {offset}"
  | badCount offset reason => s!"bad repeat count at offset {offset}: {numeralErrorText reason}"
  | countZero offset => s!"repeat count must be >= 1 at offset {offset}"
  | countNotOffered count offset =>
    s!"repeat count {count} at offset {offset} is not an offered choice"
  | countOnCommand offset => s!"only loops take a repeat count (offset {offset})"
  | noBody declared => s!"loop at offset {declared} has no body"
  | unclosed loops => s!"{loops} unclosed loop(s)"

/-- A loop whose body is being read. -/
structure OpenLoop where
  count : Nat
  /-- The instructions before the loop in its own sequence. -/
  before : Forest Unit
deriving DecidableEq, Repr

/-- A loop word whose body has not begun. -/
structure Pending where
  count : Nat
  declared : Nat
deriving DecidableEq, Repr

/-- What has been read of a text. -/
structure Draft where
  /-- The loops whose bodies are being read, innermost first. -/
  loops : List OpenLoop
  /-- The instructions read so far of the innermost sequence. -/
  current : Forest Unit
  pending : Option Pending
deriving DecidableEq, Repr

namespace Draft

/-- Nothing has been read. -/
def empty : Draft := ⟨[], .nil, none⟩

/-- The value of the digits after a word, if there are any. -/
def readCount (offset : Nat) : Option (List Char) → Except ReadError (Option Nat)
  | none => .ok none
  | some digits =>
    match decimalWithin maxCount 0 digits with
    | .ok n => .ok (some n)
    | .error reason => .error (.badCount offset reason)

/-- Read a loop word. -/
def acceptLoop (rule : CountRule) (d : Draft) (count : Option Nat) (offset : Nat) :
    Except ReadError Draft :=
  let n := count.getD rule.default
  if n = 0 then .error (.countZero offset)
  else if rule.offered n = false then .error (.countNotOffered n offset)
  else .ok { d with pending := some ⟨n, offset⟩ }

/-- Read the word of a command. -/
def acceptCommand (d : Draft) (c : Command) (count : Option Nat) (offset : Nat) :
    Except ReadError Draft :=
  match count with
  | some _ => .error (.countOnCommand offset)
  | none => .ok { d with current := d.current ++ .command () c .nil }

/-- Read a word. -/
def acceptWord (rule : CountRule) (d : Draft) (letters : List Char) (digits : Option (List Char))
    (offset : Nat) : Except ReadError Draft :=
  match kindOfWord? letters with
  | none => .error (.unknownWord letters offset)
  | some kind => do
    let count ← readCount offset digits
    match kind.command? with
    | none => d.acceptLoop rule count offset
    | some c => d.acceptCommand c count offset

/-- Read the brace that ends a body. -/
def acceptClosing (d : Draft) (offset : Nat) : Except ReadError Draft :=
  match d.loops with
  | [] => .error (.unmatchedClosing offset)
  | inner :: outer =>
    .ok { d with loops := outer, current := inner.before ++ .loop () inner.count d.current .nil }

/-- Read one more lexeme. -/
def accept (rule : CountRule) (d : Draft) (l : Located) : Except ReadError Draft :=
  match l.lexeme, d.pending with
  | .stray excerpt, _ => .error (.stray l.offset excerpt)
  | .opening, none => .error (.unexpectedOpening l.offset)
  | .opening, some p => .ok ⟨⟨p.count, d.current⟩ :: d.loops, .nil, none⟩
  | _, some p => .error (.bodyExpected p.declared)
  | .closing, none => d.acceptClosing l.offset
  | .word letters digits, none => d.acceptWord rule letters digits l.offset

/-- The tree that has been read when the text ends here. -/
def finish (d : Draft) : Except ReadError (Forest Unit) :=
  match d.pending with
  | some p => .error (.noBody p.declared)
  | none => if d.loops = [] then .ok d.current else .error (.unclosed d.loops.length)

end Draft

/-- The tree of a text. -/
def readForest (rule : CountRule) (text : List Char) : Except ReadError (Forest Unit) := do
  let d ← (lexemes text).foldlM (Draft.accept rule) Draft.empty
  d.finish

/-- The program of a text. Its ids follow the order of the words. -/
def readProgram (rule : CountRule) (text : List Char) : Except ReadError Program :=
  (readForest rule text).map Program.ofForest

end RobotPuzzle.Notation
