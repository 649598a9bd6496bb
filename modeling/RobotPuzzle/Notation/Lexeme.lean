import RobotPuzzle.Text.CharClass

/-!
# Lexemes of the notation

A text is cut into words, braces and separators. A word is a run of ASCII letters and underscores,
with a repeat count if a star and at least one digit follow it directly. White space and commas
separate and mean nothing else. A character that starts no lexeme ends the cutting.

## Main definitions

- `Lexeme` — a word, a brace, or the rest of a text that cannot be cut
- `Located` — a lexeme with the byte offset it starts at
- `lexemes` — the lexemes of a text
-/

namespace RobotPuzzle.Notation

/-- A part of a text, separators left out. -/
inductive Lexeme
  | word (letters : List Char) (count : Option (List Char))
  | opening
  | closing
  /-- No lexeme starts here; the characters are the next few of the text. -/
  | stray (excerpt : List Char)
deriving DecidableEq, Repr

/-- A lexeme and the number of bytes before it, in UTF-8. -/
structure Located where
  offset : Nat
  lexeme : Lexeme
deriving DecidableEq, Repr

/-- The character may stand in a word. -/
def isWordChar (c : Char) : Bool := c.isAlpha || c == '_'

/-- The character separates lexemes. -/
def isSeparator (c : Char) : Bool := isWhiteSpace c || c == ','

/-- The number of bytes of a text in UTF-8. -/
def byteLength (text : List Char) : Nat := text.foldr (fun c size => c.utf8Size + size) 0

@[simp] theorem byteLength_nil : byteLength [] = 0 := rfl

@[simp] theorem byteLength_cons (c : Char) (text : List Char) :
    byteLength (c :: text) = c.utf8Size + byteLength text := rfl

@[simp] theorem byteLength_append (s t : List Char) :
    byteLength (s ++ t) = byteLength s + byteLength t := by
  induction s with
  | nil => simp
  | cons c s ih => simp [ih, Nat.add_assoc]

/-- The length of the excerpt shown of a text that cannot be cut, in characters. -/
def excerptLength : Nat := 12

/-- The digits of a repeat count at the start of a text, none if no count starts there. -/
def countDigits : List Char → Option (List Char)
  | '*' :: rest =>
    match rest.takeWhile isDecimalDigit with
    | [] => none
    | digits => some digits
  | _ => none

/-- The text after the repeat count at its start, if there is one. -/
def afterCount (text : List Char) : List Char :=
  match countDigits text with
  | some digits => text.drop (digits.length + 1)
  | none => text

theorem length_dropWhile_le {α : Type} (p : α → Bool) (xs : List α) :
    (xs.dropWhile p).length ≤ xs.length :=
  (List.dropWhile_sublist p).length_le

theorem length_afterCount_le (text : List Char) : (afterCount text).length ≤ text.length := by
  unfold afterCount
  split <;> simp

/-- The lexemes of a text that starts at an offset. -/
def lexemesFrom (offset : Nat) : List Char → List Located
  | [] => []
  | c :: text =>
    if isSeparator c then lexemesFrom (offset + c.utf8Size) text
    else if c = '\x7b' then ⟨offset, .opening⟩ :: lexemesFrom (offset + 1) text
    else if c = '\x7d' then ⟨offset, .closing⟩ :: lexemesFrom (offset + 1) text
    else if isWordChar c then
      let letters := c :: text.takeWhile isWordChar
      let rest := text.dropWhile isWordChar
      let count := countDigits rest
      let size := byteLength letters + (count.elim 0 fun digits => byteLength digits + 1)
      ⟨offset, .word letters count⟩ :: lexemesFrom (offset + size) (afterCount rest)
    else [⟨offset, .stray ((c :: text).take excerptLength)⟩]
termination_by text => text.length
decreasing_by
  all_goals simp_wf
  have h1 := length_dropWhile_le isWordChar text
  have h2 := length_afterCount_le (text.dropWhile isWordChar)
  omega

/-- The lexemes of a text. -/
def lexemes (text : List Char) : List Located := lexemesFrom 0 text

end RobotPuzzle.Notation
