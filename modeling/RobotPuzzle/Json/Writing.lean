import RobotPuzzle.Json.Basic
import RobotPuzzle.Number.Shortest

/-!
# Writing JSON

## Main definitions

- `Json.quoted` — a string in quotes
- `Json.compact` — a value on one line without blanks
- `Json.pretty` — a value with one item or field on a line, indented by two spaces per level
-/

namespace RobotPuzzle.Json

/-- A hexadecimal digit, in lower case. -/
def hexDigit (n : Nat) : Char := Nat.digitChar n

/-- A character as it stands in a string. -/
def escaped (c : Char) : List Char :=
  if c = '"' then ['\\', '"']
  else if c = '\\' then ['\\', '\\']
  else if c = '\x08' then ['\\', 'b']
  else if c = '\x0c' then ['\\', 'f']
  else if c = '\n' then ['\\', 'n']
  else if c = '\r' then ['\\', 'r']
  else if c = '\t' then ['\\', 't']
  else if c.toNat < 0x20 then
    ['\\', 'u', '0', '0', hexDigit (c.toNat / 16), hexDigit (c.toNat % 16)]
  else [c]

/-- A string in quotes. -/
def quoted (s : String) : List Char := '"' :: (s.toList.flatMap escaped ++ ['"'])

/-- What stands for a value that no text can show. -/
def placeholder : List Char := "null".toList

/-- A number. -/
def Number.written : Number → List Char
  | .integer i => signedDecimal i
  | .real x => x.scientific
  | .beyond => placeholder

mutual

/-- A value on one line without blanks. -/
def compact : Json → List Char
  | null => "null".toList
  | boolean true => "true".toList
  | boolean false => "false".toList
  | number n => n.written
  | string s => quoted s
  | unpaired => placeholder
  | array items => '[' :: (compactItems items ++ [']'])
  | object fields => '\x7b' :: (compactFields fields ++ ['\x7d'])

/-- Items with commas between them. -/
def compactItems : List Json → List Char
  | [] => []
  | [item] => item.compact
  | item :: rest => item.compact ++ ',' :: compactItems rest

/-- Fields with commas between them. -/
def compactFields : List (String × Json) → List Char
  | [] => []
  | [(name, value)] => quoted name ++ ':' :: value.compact
  | (name, value) :: rest => quoted name ++ ':' :: (value.compact ++ ',' :: compactFields rest)

end

/-- A new line at a level of indentation. -/
def newLine (level : Nat) : List Char := '\n' :: List.replicate (2 * level) ' '

mutual

/-- A value with its items and fields on lines of their own, indented one level more than it. -/
def pretty (level : Nat) : Json → List Char
  | null => "null".toList
  | boolean true => "true".toList
  | boolean false => "false".toList
  | number n => n.written
  | string s => quoted s
  | unpaired => placeholder
  | array [] => ['[', ']']
  | array items => '[' :: (prettyItems (level + 1) items ++ newLine level ++ [']'])
  | object [] => ['\x7b', '\x7d']
  | object fields => '\x7b' :: (prettyFields (level + 1) fields ++ newLine level ++ ['\x7d'])

/-- Items on lines of their own with commas between them. -/
def prettyItems (level : Nat) : List Json → List Char
  | [] => []
  | [item] => newLine level ++ item.pretty level
  | item :: rest => newLine level ++ item.pretty level ++ ',' :: prettyItems level rest

/-- Fields on lines of their own with commas between them. -/
def prettyFields (level : Nat) : List (String × Json) → List Char
  | [] => []
  | [(name, value)] => newLine level ++ quoted name ++ ':' :: ' ' :: value.pretty level
  | (name, value) :: rest =>
    newLine level ++ quoted name ++ ':' :: ' ' :: value.pretty level
      ++ ',' :: prettyFields level rest

end

end RobotPuzzle.Json
