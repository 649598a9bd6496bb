import RobotPuzzle.Json.Basic
import RobotPuzzle.Text.Decimal

/-!
# JSON numerals

The number a numeral stands for. Numerals without fraction and exponent are integers if they fit 64
bits. Any other numeral is a binary64 number: its leading digits are collected while they fit 64 bits,
and the result is rounded once for the digits and once for the power of ten.

## Main definitions

- `Json.Numeral` — a numeral, taken apart
- `Json.Numeral.number` — the number it stands for
-/

namespace RobotPuzzle.Json

/-- A numeral, taken apart into its digits. -/
structure Numeral where
  negative : Bool
  /-- The digits before the point. -/
  whole : List Nat
  /-- The digits after the point, if there is one. -/
  fraction : Option (List Nat)
  /-- The sign and digits of the exponent, if there is one. -/
  exponent : Option (Bool × List Nat)
deriving DecidableEq, Repr

namespace Numeral

/-- The largest unsigned 64-bit number. -/
def maxSignificand : Nat := Nat.pow 2 64 - 1

/-- The largest exponent that is told apart. -/
def maxWrittenExponent : Nat := Nat.pow 2 31 - 1

/-- Collect digits while the number fits 64 bits. The number, and how many digits are left out. -/
def collect (value : Nat) : List Nat → Nat × Nat
  | [] => (value, 0)
  | d :: rest =>
    if maxSignificand < value * 10 + d then (value, (d :: rest).length)
    else collect (value * 10 + d) rest

/-- The value of the digits of an exponent. -/
def exponentValue (digits : List Nat) : Nat := digits.foldl (fun n d => n * 10 + d) 0

/-- Powers of ten as binary64 numbers, up to the greatest that has one. -/
def maxPowerOfTen : Nat := 308

/-- A binary64 number times a power of ten. The power is taken in steps that have a binary64 number of
their own, each step rounded; none if the result is beyond every number. -/
def scale (x : Binary64) (power : Int) : Option Binary64 :=
  if 0 ≤ power then
    if x.isZero then some x
    else if (maxPowerOfTen : Int) < power then none
    else do x.mul? (← Binary64.ofNat? (Nat.pow 10 power.toNat))
  else shrink x (-power).toNat
where
  /-- Divide by a power of ten in steps. -/
  shrink (x : Binary64) (power : Nat) : Option Binary64 :=
    if x.isZero then some x
    else if _h : maxPowerOfTen < power then do
      let y ← x.div? (← Binary64.ofNat? (Nat.pow 10 maxPowerOfTen))
      shrink y (power - maxPowerOfTen)
    else do x.div? (← Binary64.ofNat? (Nat.pow 10 power))
  termination_by power
  decreasing_by
    simp only [maxPowerOfTen] at *
    omega

/-- The number with a sign. -/
def signed (negative : Bool) (x : Binary64) : Number :=
  .real { x with negative := negative }

/-- The binary64 number of a significand times a power of ten. -/
def real (negative : Bool) (significand : Nat) (power : Int) : Number :=
  match Binary64.ofNat? significand with
  | none => .beyond
  | some x =>
    match scale x power with
    | none => .beyond
    | some y => signed negative y

/-- The number of a numeral with a fraction, an exponent or too many digits. -/
def realNumber (n : Numeral) : Number :=
  let (whole, left) := collect 0 n.whole
  let (significand, power) :=
    match n.fraction with
    | none => (whole, (left : Int))
    | some digits =>
      let (all, ignored) := collect whole digits
      (all, (left : Int) - ((digits.length - ignored : Nat) : Int))
  match n.exponent with
  | none => real n.negative significand power
  | some (negativeExponent, digits) =>
    let e := exponentValue digits
    if maxWrittenExponent < e then
      if significand ≠ 0 && !negativeExponent then .beyond
      else signed n.negative (.zero false)
    else real n.negative significand (if negativeExponent then power - e else power + e)

/-- The number a numeral stands for. Minus zero is no integer. -/
def number (n : Numeral) : Number :=
  if n.fraction.isNone && n.exponent.isNone then
    let (value, left) := collect 0 n.whole
    if left = 0 && !n.negative then .integer value
    else if left = 0 && value ≠ 0 && value ≤ Nat.pow 2 63 then .integer (-(value : Int))
    else n.realNumber
  else n.realNumber

end Numeral

end RobotPuzzle.Json
