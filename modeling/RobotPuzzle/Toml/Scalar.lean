import RobotPuzzle.Number.Binary64
import RobotPuzzle.Text.Decimal
import RobotPuzzle.Toml.Basic

/-!
# TOML scalars

The values that are written as one word: truth values, integers in four bases, floating-point numbers,
dates and times.

## Main definitions

- `Toml.scalar?` — the value of a word
-/

namespace RobotPuzzle.Toml

/-- The digits of a numeral in which single underscores may stand between digits. -/
def digits? (base : Nat) : List Char → Option (List Nat)
  | [] => none
  | [c] => do some [← digitIn? base c]
  | c :: '_' :: rest => do
    let d ← digitIn? base c
    some (d :: (← digits? base rest))
  | c :: rest => do
    let d ← digitIn? base c
    some (d :: (← digits? base rest))

/-- The number of some digits in a base. -/
def numberOf (base : Nat) (digits : List Nat) : Nat := digits.foldl (fun n d => n * base + d) 0

/-- The digits of a decimal numeral that begins with 0 only if it is 0. -/
def wholeDigits? (cs : List Char) : Option (List Nat) := do
  match ← digits? 10 cs with
  | 0 :: _ :: _ => none
  | digits => some digits

/-- The sign and the rest of a word. -/
def signAndRest : List Char → Bool × List Char
  | '-' :: rest => (true, rest)
  | '+' :: rest => (false, rest)
  | rest => (false, rest)

/-- Integers are kept within 128 bits, with or without sign. -/
def boundedInteger? (i : Int) : Option Toml :=
  if -Int.pow 2 127 ≤ i ∧ i < Int.pow 2 128 then some (.integer i) else none

/-- The integer of a word. A word with a base has no sign. -/
def integer? (word : List Char) : Option Toml := do
  match word with
  | '0' :: 'x' :: rest => boundedInteger? (numberOf 16 (← digits? 16 rest))
  | '0' :: 'o' :: rest => boundedInteger? (numberOf 8 (← digits? 8 rest))
  | '0' :: 'b' :: rest => boundedInteger? (numberOf 2 (← digits? 2 rest))
  | _ =>
    let (negative, rest) := signAndRest word
    let n : Int := numberOf 10 (← wholeDigits? rest)
    boundedInteger? (if negative then -n else n)

/-- Powers of ten beyond this many digits are beyond every floating-point number, or nothing. -/
def decimalReach : Int := 400

/-- Some digits times a power of ten are within the floating-point numbers. -/
def withinFloats (digits : List Nat) (power : Int) : Bool :=
  let n := numberOf 10 digits
  if n = 0 || digits.length + power < -decimalReach then true
  else if decimalReach < power then false
  else if 0 ≤ power then (Binary64.ofQuotient? false (n * Nat.pow 10 power.toNat) 1).isSome
  else (Binary64.ofQuotient? false n (Nat.pow 10 (-power).toNat)).isSome

/-- The exponent after its letter. -/
def exponent? (cs : List Char) : Option Int := do
  let (negative, rest) := signAndRest cs
  let n : Int := numberOf 10 (← digits? 10 rest)
  some (if negative then -n else n)

/-- The character begins an exponent. -/
def isExponentLetter (c : Char) : Bool := c == 'e' || c == 'E'

/-- The floating-point number of a word: a point with digits on both sides, an exponent, or both. -/
def float? (word : List Char) : Option Toml := do
  let (_, rest) := signAndRest word
  if rest = "inf".toList ∨ rest = "nan".toList then some .float
  else
    let mantissa := rest.takeWhile (!isExponentLetter ·)
    let power ← match rest.dropWhile (!isExponentLetter ·) with
      | [] => some none
      | _ :: cs => do some (some (← exponent? cs))
    let whole ← wholeDigits? (mantissa.takeWhile (· != '.'))
    let fraction ← match mantissa.dropWhile (· != '.') with
      | [] => some none
      | _ :: cs => do some (some (← digits? 10 cs))
    if power.isNone && fraction.isNone then none
    else
      let after := fraction.getD []
      if withinFloats (whole ++ after) (power.getD 0 - after.length) then some .float else none

/-- The number of exactly two digits at the start of a text. -/
def twoDigits? : List Char → Option (Nat × List Char)
  | a :: b :: rest => do some ((← digitIn? 10 a) * 10 + (← digitIn? 10 b), rest)
  | _ => none

/-- The number of days of a month. -/
def daysIn (year month : Nat) : Nat :=
  if month = 2 then
    if year % 4 = 0 && (year % 100 != 0 || year % 400 = 0) then 29 else 28
  else if month = 4 || month = 6 || month = 9 || month = 11 then 30
  else 31

/-- The text after a date. -/
def afterDate? (cs : List Char) : Option (List Char) := do
  let (century, cs) ← twoDigits? cs
  let (year, cs) ← twoDigits? cs
  let '-' :: cs := cs | none
  let (month, cs) ← twoDigits? cs
  let '-' :: cs := cs | none
  let (day, cs) ← twoDigits? cs
  if 1 ≤ month ∧ month ≤ 12 ∧ 1 ≤ day ∧ day ≤ daysIn (century * 100 + year) month then some cs
  else none

/-- The text after the fraction of a second, if there is one. -/
def afterFraction? : List Char → Option (List Char)
  | '.' :: c :: rest => if c.isDigit then some (rest.dropWhile Char.isDigit) else none
  | '.' :: [] => none
  | rest => some rest

/-- The text after a time. The seconds may be left out. -/
def afterTime? (cs : List Char) : Option (List Char) := do
  let (hour, cs) ← twoDigits? cs
  let ':' :: cs := cs | none
  let (minute, cs) ← twoDigits? cs
  if 23 < hour ∨ 59 < minute then none
  else
    match cs with
    | ':' :: cs => do
      let (second, cs) ← twoDigits? cs
      if 60 < second then none else afterFraction? cs
    | cs => some cs

/-- The text is the distance of a time from universal time. -/
def isOffset : List Char → Bool
  | [] => true
  | ['Z'] => true
  | ['z'] => true
  | [sign, a, b, ':', c, d] =>
    (sign == '+' || sign == '-') &&
      match twoDigits? [a, b], twoDigits? [c, d] with
      | some (hour, _), some (minute, _) => hour ≤ 23 && minute ≤ 59
      | _, _ => false
  | _ => false

/-- The character stands between a date and a time. -/
def isDateSeparator (c : Char) : Bool := c == 'T' || c == 't' || c == ' '

/-- The date or time of a word. -/
def moment? (word : List Char) : Option Toml :=
  match afterDate? word with
  | some [] => some .moment
  | some (c :: rest) => do
    let rest ← afterTime? rest
    if isDateSeparator c && isOffset rest then some .moment else none
  | none =>
    match afterTime? word with
    | some [] => some .moment
    | _ => none

/-- The value of a word. -/
def scalar? (word : List Char) : Option Toml :=
  if word = "true".toList then some (.boolean true)
  else if word = "false".toList then some (.boolean false)
  else integer? word <|> float? word <|> moment? word

end RobotPuzzle.Toml
