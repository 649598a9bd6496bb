import RobotPuzzle.Json.Numeral

/-!
# Reading JSON

A reader for JSON texts. It refuses control characters in strings, leading zeros in numerals, and
anything but blanks after the value. It has no limit on nesting or on the size of numerals and lets
halves of surrogate pairs stand, as nobody may look at them; `Json.readLimited?` is stricter.

## Main definitions

- `Json.read?` — the value of a text
- `Json.readLimited?` — the same under the usual limits
-/

namespace RobotPuzzle.Json

/-- The character may stand between the parts of a text. -/
def isBlank (c : Char) : Bool := c == ' ' || c == '\n' || c == '\r' || c == '\t'

/-- The text from its first character that is no blank. -/
def skipBlanks (cs : List Char) : List Char := cs.dropWhile isBlank

/-- The number of four hexadecimal digits at the start of a text. -/
def readHex4? : List Char → Option (Nat × List Char)
  | a :: b :: c :: d :: rest => do
    let digits ← [a, b, c, d].mapM (digitIn? 16)
    some (digits.foldl (fun n digit => n * 16 + digit) 0, rest)
  | _ => none

/-- The character of a code unit, where the text after it may hold the other half of a pair. Half of a
pair alone is no character. -/
def readUnit (unit : Nat) (rest : List Char) : Option Char × List Char :=
  if 0xD800 ≤ unit && unit < 0xDC00 then
    match rest with
    | '\\' :: 'u' :: more =>
      match readHex4? more with
      | some (low, more) =>
        if 0xDC00 ≤ low && low < 0xE000 then
          (some (Char.ofNat (0x10000 + (unit - 0xD800) * 0x400 + (low - 0xDC00))), more)
        else (none, rest)
      | none => (none, rest)
    | _ => (none, rest)
  else if 0xDC00 ≤ unit && unit < 0xE000 then (none, rest)
  else (some (Char.ofNat unit), rest)

/-- The character of an escape, without the backslash that begins it, if it has one. -/
def readEscape? : List Char → Option (Option Char × List Char)
  | '"' :: rest => some (some '"', rest)
  | '\\' :: rest => some (some '\\', rest)
  | '/' :: rest => some (some '/', rest)
  | 'b' :: rest => some (some '\x08', rest)
  | 'f' :: rest => some (some '\x0c', rest)
  | 'n' :: rest => some (some '\n', rest)
  | 'r' :: rest => some (some '\r', rest)
  | 't' :: rest => some (some '\t', rest)
  | 'u' :: rest => do
    let (unit, rest) ← readHex4? rest
    some (readUnit unit rest)
  | _ => none

/-- The characters up to the closing quote, after those in `done`, latest first. They are lost with the
first escape that has no character. -/
def readCharacters? : Nat → Option (List Char) → List Char →
    Option (Option (List Char) × List Char)
  | 0, _, _ => none
  | fuel + 1, done, cs =>
    match cs with
    | [] => none
    | '"' :: rest => some (done.map List.reverse, rest)
    | '\\' :: rest => do
      let (c, rest) ← readEscape? rest
      readCharacters? fuel (do some ((← c) :: (← done))) rest
    | c :: rest =>
      if c.toNat < 0x20 then none else readCharacters? fuel (done.map (c :: ·)) rest

/-- The string up to the closing quote. There is no string with half of a surrogate pair. -/
def readString? (fuel : Nat) (cs : List Char) : Option (Option String × List Char) := do
  let (found, rest) ← readCharacters? fuel (some []) cs
  some (found.map String.ofList, rest)

/-- The digits at the start of a text. -/
def readDigits (cs : List Char) : List Nat × List Char :=
  ((cs.takeWhile Char.isDigit).map fun c => c.toNat - '0'.toNat, cs.dropWhile Char.isDigit)

/-- The digits at the start of a text, at least one. -/
def readDigits1? (cs : List Char) : Option (List Nat × List Char) :=
  match readDigits cs with
  | ([], _) => none
  | found => some found

/-- The digits before the point. Only the number zero begins with the digit 0. -/
def readWhole? (cs : List Char) : Option (List Nat × List Char) :=
  match readDigits cs with
  | ([], _) => none
  | (0 :: _ :: _, _) => none
  | found => some found

/-- The part after the point, if there is a point. -/
def readFraction? : List Char → Option (Option (List Nat) × List Char)
  | '.' :: rest => do
    let (digits, rest) ← readDigits1? rest
    some (some digits, rest)
  | rest => some (none, rest)

/-- The exponent after its letter. -/
def readExponentDigits? : List Char → Option (Option (Bool × List Nat) × List Char)
  | '+' :: rest => do
    let (digits, rest) ← readDigits1? rest
    some (some (false, digits), rest)
  | '-' :: rest => do
    let (digits, rest) ← readDigits1? rest
    some (some (true, digits), rest)
  | rest => do
    let (digits, rest) ← readDigits1? rest
    some (some (false, digits), rest)

/-- The exponent, if there is one. -/
def readExponent? : List Char → Option (Option (Bool × List Nat) × List Char)
  | 'e' :: rest => readExponentDigits? rest
  | 'E' :: rest => readExponentDigits? rest
  | rest => some (none, rest)

/-- The numeral at the start of a text, without its sign. -/
def readUnsigned? (negative : Bool) (cs : List Char) : Option (Numeral × List Char) := do
  let (whole, cs) ← readWhole? cs
  let (fraction, cs) ← readFraction? cs
  let (exponent, cs) ← readExponent? cs
  some (⟨negative, whole, fraction, exponent⟩, cs)

/-- The numeral at the start of a text. -/
def readNumeral? : List Char → Option (Numeral × List Char)
  | '-' :: rest => readUnsigned? true rest
  | rest => readUnsigned? false rest

mutual

/-- The value at the start of a text, and the text after it. -/
def readValue? : Nat → List Char → Option (Json × List Char)
  | 0, _ => none
  | fuel + 1, cs =>
    match skipBlanks cs with
    | '\x7b' :: rest =>
      match skipBlanks rest with
      | '\x7d' :: rest => some (object [], rest)
      | rest => do
        let (fields, rest) ← readFields? fuel rest
        some (ofFields fields, rest)
    | '[' :: rest =>
      match skipBlanks rest with
      | ']' :: rest => some (array [], rest)
      | rest => do
        let (items, rest) ← readItems? fuel rest
        some (array items, rest)
    | '"' :: rest => do
      let (s, rest) ← readString? fuel rest
      some (s.elim unpaired string, rest)
    | 'n' :: 'u' :: 'l' :: 'l' :: rest => some (null, rest)
    | 't' :: 'r' :: 'u' :: 'e' :: rest => some (boolean true, rest)
    | 'f' :: 'a' :: 'l' :: 's' :: 'e' :: rest => some (boolean false, rest)
    | rest => do
      let (n, rest) ← readNumeral? rest
      some (number n.number, rest)

/-- The items of an array up to its closing bracket, at least one. -/
def readItems? : Nat → List Char → Option (List Json × List Char)
  | 0, _ => none
  | fuel + 1, cs => do
    let (item, rest) ← readValue? fuel cs
    match skipBlanks rest with
    | ',' :: rest => do
      let (items, rest) ← readItems? fuel rest
      some (item :: items, rest)
    | ']' :: rest => some ([item], rest)
    | _ => none

/-- The fields of an object up to its closing brace, at least one. -/
def readFields? : Nat → List Char → Option (List (Option String × Json) × List Char)
  | 0, _ => none
  | fuel + 1, cs =>
    match skipBlanks cs with
    | '"' :: rest => do
      let (name, rest) ← readString? fuel rest
      match skipBlanks rest with
      | ':' :: rest => do
        let (value, rest) ← readValue? fuel rest
        match skipBlanks rest with
        | ',' :: rest => do
          let (fields, rest) ← readFields? fuel rest
          some ((name, value) :: fields, rest)
        | '\x7d' :: rest => some ([(name, value)], rest)
        | _ => none
      | _ => none
    | _ => none

end

/-- The value of a text. Every step of the reader takes a character off the text, so the length of
the text bounds the number of steps. -/
def read? (cs : List Char) : Option Json := do
  let (value, rest) ← readValue? (2 * cs.length + 2) cs
  if skipBlanks rest = [] then some value else none

/-- Arrays and objects may stand in one another less than this many times. -/
def depthLimit : Nat := 128

/-- The value of a text without deep nesting, numerals beyond every number and halves of surrogate
pairs. -/
def readLimited? (cs : List Char) : Option Json := do
  let value ← read? cs
  if value.depth < depthLimit && value.isComplete then some value else none

end RobotPuzzle.Json
