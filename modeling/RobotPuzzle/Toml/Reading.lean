import RobotPuzzle.Toml.Quoted
import RobotPuzzle.Toml.Scalar

/-!
# Reading TOML

A document is a sequence of lines: a key with its value, or the header of the table that the keys
after it belong to. Arrays and inline tables may go on over several lines, but stand in one another
only so often, and keys have only so many parts.

## Main definitions

- `Toml.nestingLimit`, `Toml.partLimit` — how deep values and keys may go
- `Toml.readValue?` — the value at the start of a text
- `Toml.Place` — the table that keys are put into
- `Toml.read?` — the top-level table of a document
-/

namespace RobotPuzzle.Toml

/-- The text after spaces and tabs. -/
def skipSpaces (cs : List Char) : List Char := cs.dropWhile isSpace

/-- The text after spaces, line breaks and comments; `comment` says that a comment is going on. There
is no result if a comment holds a control character. -/
def skipTrivia? (comment : Bool) : List Char → Option (List Char)
  | [] => some []
  | '\n' :: rest => skipTrivia? false rest
  | '\r' :: '\n' :: rest => skipTrivia? false rest
  | c :: rest =>
    if comment then if isPlain c then skipTrivia? true rest else none
    else if isSpace c then skipTrivia? false rest
    else if c = '#' then skipTrivia? true rest
    else some (c :: rest)

/-- The text after the end of a line, with a comment before it, if there is one. -/
def skipLineEnd? (comment : Bool) : List Char → Option (List Char)
  | [] => some []
  | '\n' :: rest => some rest
  | '\r' :: '\n' :: rest => some rest
  | c :: rest =>
    if comment then if isPlain c then skipLineEnd? true rest else none
    else if isSpace c then skipLineEnd? false rest
    else if c = '#' then skipLineEnd? true rest
    else none

/-! ## Keys -/

/-- The character may stand in a key without quotes. -/
def isBareKeyChar (c : Char) : Bool :=
  c.isAlphanum || c == '_' || c == '-'

/-- The part of a key at the start of a text. -/
def readKeyPart? (cs : List Char) : Option (String × List Char) :=
  match readLine? cs with
  | some (name, rest) => some (String.ofList name, rest)
  | none =>
    match cs.takeWhile isBareKeyChar with
    | [] => none
    | name => some (String.ofList name, cs.dropWhile isBareKeyChar)

/-- The parts of a key at the start of a text, with points between them, at most so many. Blanks around
the points and after the key are skipped. -/
def readParts? : Nat → List Char → Option (List String × List Char)
  | 0, _ => none
  | most + 1, cs => do
    let (part, rest) ← readKeyPart? cs
    match skipSpaces rest with
    | '.' :: rest => do
      let (parts, rest) ← readParts? most (skipSpaces rest)
      some (part :: parts, rest)
    | rest => some ([part], rest)

/-- A key has at most this many parts. -/
def partLimit : Nat := 80

/-- The key at the start of a text. -/
def readKey? (cs : List Char) : Option (List String × List Char) := readParts? partLimit cs

/-! ## Values -/

/-- The character may stand in a word. -/
def isWordChar (c : Char) : Bool :=
  c.isAlphanum || c == '_' || c == '-' || c == '+' || c == '.' || c == ':'

/-- The value of the word at the start of a text. A date may be separated from a time by a space. -/
def readWord? (cs : List Char) : Option (Toml × List Char) := do
  let word := cs.takeWhile isWordChar
  let rest := cs.dropWhile isWordChar
  let isDate := afterDate? word = some []
  match rest with
  | ' ' :: d :: more =>
    if isDate && d.isDigit then
      let time := (d :: more).takeWhile isWordChar
      some (← scalar? (word ++ ' ' :: time), (d :: more).dropWhile isWordChar)
    else some (← scalar? word, rest)
  | _ => some (← scalar? word, rest)

/-- Arrays and inline tables may stand in one another at most this many times. -/
def nestingLimit : Nat := 80

mutual

/-- The value at the start of a text, and the text after it. Arrays and inline tables may be begun
`room` times in one another. -/
def readValue? (room : Nat) : Nat → List Char → Option (Toml × List Char)
  | 0, _ => none
  | fuel + 1, cs =>
    match room, cs with
    | _, '"' :: _ => do
      let (s, rest) ← readString? cs
      some (.string s, rest)
    | _, '\'' :: _ => do
      let (s, rest) ← readString? cs
      some (.string s, rest)
    | 0, '[' :: _ => none
    | room + 1, '[' :: rest => do
      let (items, rest) ← readItems? room fuel (← skipTrivia? false rest)
      some (.array items, rest)
    | 0, '\x7b' :: _ => none
    | room + 1, '\x7b' :: rest => do
      let (entries, rest) ← readEntries? room fuel [] (← skipTrivia? false rest)
      some (.inline entries, rest)
    | _, _ => readWord? cs

/-- The items of an array up to its closing bracket. A comma may stand after the last. -/
def readItems? (room : Nat) : Nat → List Char → Option (List Toml × List Char)
  | 0, _ => none
  | fuel + 1, cs =>
    match cs with
    | ']' :: rest => some ([], rest)
    | _ => do
      let (item, rest) ← readValue? room fuel cs
      match ← skipTrivia? false rest with
      | ',' :: rest => do
        let (items, rest) ← readItems? room fuel (← skipTrivia? false rest)
        some (item :: items, rest)
      | ']' :: rest => some ([item], rest)
      | _ => none

/-- The entries of an inline table up to its closing brace, after those read already. The equals sign
may stand on a line of its own, and a comma may stand after the last entry. -/
def readEntries? (room : Nat) : Nat → Entries → List Char → Option (Entries × List Char)
  | 0, _, _ => none
  | fuel + 1, done, cs =>
    match cs with
    | '\x7d' :: rest => some (done, rest)
    | _ => do
      let (key, rest) ← readKey? cs
      let '=' :: rest := (← skipTrivia? false rest) | none
      let (value, rest) ← readValue? room fuel (← skipTrivia? false rest)
      let done ← assign key value done
      match ← skipTrivia? false rest with
      | ',' :: rest => readEntries? room fuel done (← skipTrivia? false rest)
      | '\x7d' :: rest => some (done, rest)
      | _ => none

end

/-! ## Documents -/

/-- The document read so far, and the header its next keys stand under. -/
structure Place where
  root : Entries
  header : List String

/-- The place after a header. -/
def Place.openHeader? (p : Place) (repeated : Bool) (keys : List String) : Option Place := do
  let root ← if repeated then openItem keys p.root else openTable keys p.root
  some ⟨root, keys⟩

/-- The place after a key and its value. -/
def Place.assign? (p : Place) (key : List String) (value : Toml) : Option Place := do
  let root ← within (assign key value) p.header p.root
  some { p with root := root }

/-- Read one line that begins with something other than blanks, and the text after it. -/
def readLineOf? (p : Place) (cs : List Char) : Option (Place × List Char) := do
  match cs with
  | '[' :: '[' :: rest =>
    let (keys, rest) ← readKey? (skipSpaces rest)
    let ']' :: ']' :: rest := rest | none
    some (← p.openHeader? true keys, ← skipLineEnd? false rest)
  | '[' :: rest =>
    let (keys, rest) ← readKey? (skipSpaces rest)
    let ']' :: rest := rest | none
    some (← p.openHeader? false keys, ← skipLineEnd? false rest)
  | _ =>
    let (key, rest) ← readKey? cs
    let '=' :: rest := rest | none
    let (value, rest) ← readValue? nestingLimit (2 * cs.length + 2) (skipSpaces rest)
    some (← p.assign? key value, ← skipLineEnd? false rest)

/-- Read the lines of a text. -/
def readLinesOf? : Nat → Place → List Char → Option Entries
  | 0, _, _ => none
  | fuel + 1, p, cs => do
    match ← skipTrivia? false cs with
    | [] => some p.root
    | cs =>
      let (p, rest) ← readLineOf? p cs
      readLinesOf? fuel p rest

/-- A mark that may stand before a text to show its byte order. -/
def byteOrderMark : Char := '\ufeff'

/-- The text without a byte order mark at its start. -/
def withoutMark : List Char → List Char
  | c :: rest => if c = byteOrderMark then rest else c :: rest
  | [] => []

/-- The top-level table of a document. Each line takes at least one character, so their number bounds
the lines. -/
def read? (cs : List Char) : Option Entries :=
  let text := withoutMark cs
  readLinesOf? (text.length + 1) ⟨[], []⟩ text

end RobotPuzzle.Toml
