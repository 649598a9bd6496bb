import RobotPuzzle.Text.Decimal

/-!
# TOML strings

The four forms of a string: between quotes with escapes or apostrophes without, each on one line or,
with the mark tripled, on several.

## Main definitions

- `Toml.readString?` — the string at the start of a text
-/

namespace RobotPuzzle.Toml

/-- The character may stand in a comment or a string as it is: no control character but the tab. -/
def isPlain (c : Char) : Bool := c == '\t' || (0x20 ≤ c.toNat && c.toNat != 0x7F)

/-- The character is a space or a tab. -/
def isSpace (c : Char) : Bool := c == ' ' || c == '\t'

/-- The character whose number is given by `count` hexadecimal digits at the start of a text. -/
def readCode? (count : Nat) (cs : List Char) : Option (Char × List Char) := do
  if cs.length < count then none
  else
    let digits ← (cs.take count).mapM (digitIn? 16)
    let code := digits.foldl (fun n d => n * 16 + d) 0
    if h : code.isValidChar then some (Char.ofNatAux code h, cs.drop count) else none

/-- The character of an escape, without the backslash that begins it. -/
def readEscape? : List Char → Option (Char × List Char)
  | 'b' :: rest => some ('\x08', rest)
  | 't' :: rest => some ('\t', rest)
  | 'n' :: rest => some ('\n', rest)
  | 'f' :: rest => some ('\x0c', rest)
  | 'r' :: rest => some ('\r', rest)
  | 'e' :: rest => some ('\x1b', rest)
  | '"' :: rest => some ('"', rest)
  | '\\' :: rest => some ('\\', rest)
  | 'x' :: rest => readCode? 2 rest
  | 'u' :: rest => readCode? 4 rest
  | 'U' :: rest => readCode? 8 rest
  | _ => none

/-- The text after spaces and line breaks. -/
def skipBreaks : List Char → List Char
  | '\n' :: rest => skipBreaks rest
  | '\r' :: '\n' :: rest => skipBreaks rest
  | ' ' :: rest => skipBreaks rest
  | '\t' :: rest => skipBreaks rest
  | rest => rest

/-- The text after the line break that an escaped line end leaves out, with all blanks around it. -/
def skipEscapedBreak? (cs : List Char) : Option (List Char) :=
  match cs.dropWhile isSpace with
  | '\n' :: rest => some (skipBreaks rest)
  | '\r' :: '\n' :: rest => some (skipBreaks rest)
  | _ => none

/-- The rest of a string on one line with escapes, after the characters in `done`, latest first. -/
def readBasic? : Nat → List Char → List Char → Option (List Char × List Char)
  | 0, _, _ => none
  | fuel + 1, done, cs =>
    match cs with
    | [] => none
    | '"' :: rest => some (done.reverse, rest)
    | '\\' :: rest => do
      let (c, rest) ← readEscape? rest
      readBasic? fuel (c :: done) rest
    | c :: rest => if isPlain c then readBasic? fuel (c :: done) rest else none

/-- The rest of a string on one line without escapes. -/
def readLiteral? (cs : List Char) : Option (List Char × List Char) :=
  let content := cs.takeWhile (· != '\'')
  match cs.dropWhile (· != '\'') with
  | [] => none
  | _ :: rest => if content.all isPlain then some (content, rest) else none

/-- The marks at the end of a string on several lines, if a run of marks ends it: up to two of them
belong to the string. The number of those, and the text after the end. -/
def closing? (mark : Char) (cs : List Char) : Option (Nat × List Char) :=
  let run := (cs.takeWhile (· == mark)).length
  if run < 3 then none
  else
    let inside := min (run - 3) 2
    some (inside, cs.drop (inside + 3))

/-- The rest of a string on several lines, after the characters in `done`, latest first. -/
def readLines? (mark : Char) (escapes : Bool) :
    Nat → List Char → List Char → Option (List Char × List Char)
  | 0, _, _ => none
  | fuel + 1, done, cs =>
    match closing? mark cs with
    | some (inside, rest) => some (done.reverse ++ List.replicate inside mark, rest)
    | none =>
      match cs with
      | [] => none
      | '\n' :: rest => readLines? mark escapes fuel ('\n' :: done) rest
      | '\r' :: '\n' :: rest => readLines? mark escapes fuel ('\n' :: '\r' :: done) rest
      | c :: rest =>
        if c = '\\' && escapes then
          match skipEscapedBreak? rest with
          | some rest => readLines? mark escapes fuel done rest
          | none => do
            let (e, rest) ← readEscape? rest
            readLines? mark escapes fuel (e :: done) rest
        else if isPlain c then readLines? mark escapes fuel (c :: done) rest
        else none

/-- The text after a line break at its start, if there is one. -/
def skipFirstBreak : List Char → List Char
  | '\n' :: rest => rest
  | '\r' :: '\n' :: rest => rest
  | rest => rest

/-- The string on one line at the start of a text. -/
def readLine? : List Char → Option (List Char × List Char)
  | '"' :: rest => readBasic? (rest.length + 1) [] rest
  | '\'' :: rest => readLiteral? rest
  | _ => none

/-- The string at the start of a text. -/
def readString? : List Char → Option (List Char × List Char)
  | '"' :: '"' :: '"' :: rest =>
    readLines? '"' true (rest.length + 1) [] (skipFirstBreak rest)
  | '\'' :: '\'' :: '\'' :: rest =>
    readLines? '\'' false (rest.length + 1) [] (skipFirstBreak rest)
  | rest => readLine? rest

end RobotPuzzle.Toml
