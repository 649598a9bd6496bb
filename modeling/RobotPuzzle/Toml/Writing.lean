import RobotPuzzle.Toml.Basic
import RobotPuzzle.Text.Decimal

/-!
# Writing TOML

Keys with integers, lists of integers and strings, each as it is written by hand: a list of one
integer on one line and a longer one with a line per item, a string in the plainest form it has.

## Main definitions

- `Toml.writtenList` — a list of integers
- `Toml.writtenString` — a string
- `Toml.line` — a key with its value on a line of its own
-/

namespace RobotPuzzle.Toml

/-! ## Strings -/

/-- A character that is written as an escape in every form that has escapes. -/
def isControl (c : Char) : Bool :=
  (c.toNat < 0x20 && c != '\t' && c != '\n') || c == '\x7f'

/-- The length of the longest run of a character. -/
def longestRun (mark : Char) (cs : List Char) : Nat :=
  (cs.foldl (fun (best, current) c =>
    if c = mark then (max best (current + 1), current + 1) else (best, 0)) (0, 0)).1

/-- A hexadecimal digit, in upper case. -/
def upperHexDigit (n : Nat) : Char := (Nat.digitChar n).toUpper

/-- A character as an escape. A line break stands as it is in a string on several lines. -/
def escapedChar (lines : Bool) (c : Char) : List Char :=
  if c = '\x08' then ['\\', 'b']
  else if c = '\t' then ['\\', 't']
  else if c = '\n' then if lines then ['\n'] else ['\\', 'n']
  else if c = '\x0c' then ['\\', 'f']
  else if c = '\r' then ['\\', 'r']
  else if c = '\\' then ['\\', '\\']
  else if isControl c then
    ['\\', 'u', '0', '0', upperHexDigit (c.toNat / 16), upperHexDigit (c.toNat % 16)]
  else [c]

/-- The content of a string with escapes, after `run` quotes that stand as they are. More than `free`
quotes in a row are broken up by an escape. -/
def escapedContent (lines : Bool) (free run : Nat) : List Char → List Char
  | [] => []
  | c :: rest =>
    if c = '"' then
      if run < free then '"' :: escapedContent lines free (run + 1) rest
      else '\\' :: '"' :: escapedContent lines free 0 rest
    else escapedChar lines c ++ escapedContent lines free 0 rest

/-- A string on one line with escapes. -/
def basicString (cs : List Char) : List Char :=
  '"' :: (escapedContent false 0 0 cs ++ ['"'])

/-- A string on one line without escapes. -/
def literalString (cs : List Char) : List Char := '\'' :: (cs ++ ['\''])

/-- Three of a mark, and a line break if the string after them holds one. -/
def tripled (mark : Char) (cs : List Char) : List Char :=
  List.replicate 3 mark ++ if cs.contains '\n' then ['\n'] else []

/-- A string on several lines with escapes. -/
def basicLines (cs : List Char) : List Char :=
  tripled '"' cs ++ escapedContent true 2 0 cs ++ List.replicate 3 '"'

/-- A string on several lines without escapes. -/
def literalLines (cs : List Char) : List Char :=
  tripled '\'' cs ++ cs ++ List.replicate 3 '\''

/-- A string in the first form that needs no escapes: quotes, apostrophes, and the same on several
lines. A string that needs escapes in every form stands in quotes. -/
def writtenString (cs : List Char) : List Char :=
  let controls := cs.any isControl
  let backslashes := cs.contains '\\'
  let breaks := cs.contains '\n'
  let quotes := longestRun '"' cs
  let apostrophes := longestRun '\'' cs
  if !controls && !backslashes && quotes = 0 && !breaks then basicString cs
  else if !controls && apostrophes = 0 && !breaks then literalString cs
  else if !controls && !backslashes && quotes ≤ 2 then basicLines cs
  else if !controls && apostrophes ≤ 2 then literalLines cs
  else if breaks then basicLines cs
  else basicString cs

/-! ## Lists and lines -/

/-- The indentation of an item on a line of its own. -/
def itemIndent : List Char := [' ', ' ', ' ', ' ']

/-- A list of integers. -/
def writtenList : List Int → List Char
  | [] => ['[', ']']
  | [i] => '[' :: (signedDecimal i ++ [']'])
  | items =>
    '[' :: '\n' :: (items.flatMap (fun i => itemIndent ++ signedDecimal i ++ [',', '\n']) ++ [']'])

/-- A key with its written value on a line of its own. -/
def line (key : String) (value : List Char) : List Char :=
  key.toList ++ ' ' :: '=' :: ' ' :: (value ++ ['\n'])

end RobotPuzzle.Toml
