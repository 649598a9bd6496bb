/-!
# Binary64 numbers

Finite binary floating-point numbers of 53 bits, as exact values `± mantissa * 2 ^ exponent`, with
rounding to the nearest of them and products and quotients that round once.

## Main definitions

- `Binary64` — a finite number
- `Binary64.ofQuotient?` — the nearest number to a quotient, ties to an even mantissa
- `Binary64.mul?`, `Binary64.div?` — rounded product and quotient
- `Binary64.isInteger`, `Binary64.isLess` — exact comparisons
-/

namespace RobotPuzzle

/-- The quotient of two numbers, rounded to the nearest integer; a half goes to the even neighbour. -/
def roundedQuotient (num den : Nat) : Nat :=
  let floor := num / den
  let twice := 2 * (num % den)
  if den < twice || (twice == den && floor % 2 == 1) then floor + 1 else floor

/-- The numerator and denominator of `num / den / 2 ^ shift`. -/
def shiftedQuotient (num den : Nat) (shift : Int) : Nat × Nat :=
  if 0 ≤ shift then (num, den * Nat.pow 2 shift.toNat) else (num * Nat.pow 2 (-shift).toNat, den)

/-- The greatest `e` with `2 ^ e ≤ num / den`, for positive arguments. -/
def binaryOrder (num den : Nat) : Int :=
  let guess : Int := (Nat.log2 num : Int) - (Nat.log2 den : Int)
  let (n, d) := shiftedQuotient num den guess
  if n < d then guess - 1 else guess

/-- A finite number `mantissa * 2 ^ exponent`, negated if `negative`. The mantissa has at most 53
bits, and all 53 unless the exponent is the least one, -1074. -/
structure Binary64 where
  negative : Bool
  mantissa : Nat
  exponent : Int
deriving DecidableEq, Repr

namespace Binary64

/-- The least exponent. -/
def minExponent : Int := -1074

/-- The greatest exponent. -/
def maxExponent : Int := 971

/-- Zero with a sign. -/
def zero (negative : Bool) : Binary64 := ⟨negative, 0, minExponent⟩

/-- The number is zero. -/
def isZero (x : Binary64) : Bool := x.mantissa == 0

/-- The number nearest to `num / den` with a sign, none if it is beyond the greatest. -/
def ofQuotient? (negative : Bool) (num den : Nat) : Option Binary64 :=
  if num = 0 then some (zero negative)
  else
    let exponent := max (binaryOrder num den - 52) minExponent
    let (n, d) := shiftedQuotient num den exponent
    let mantissa := roundedQuotient n d
    let (mantissa, exponent) :=
      if mantissa = Nat.pow 2 53 then (Nat.pow 2 52, exponent + 1) else (mantissa, exponent)
    if maxExponent < exponent then none else some ⟨negative, mantissa, exponent⟩

/-- The number nearest to an integer. -/
def ofNat? (n : Nat) : Option Binary64 := ofQuotient? false n 1

/-- The magnitude as a quotient of natural numbers. -/
def quotient (x : Binary64) : Nat × Nat :=
  if 0 ≤ x.exponent then (x.mantissa * Nat.pow 2 x.exponent.toNat, 1)
  else (x.mantissa, Nat.pow 2 (-x.exponent).toNat)

/-- The number with the other sign. -/
def neg (x : Binary64) : Binary64 := { x with negative := !x.negative }

/-- The rounded product, none if it is beyond the greatest number. -/
def mul? (x y : Binary64) : Option Binary64 :=
  let (a, b) := x.quotient
  let (c, d) := y.quotient
  ofQuotient? (x.negative != y.negative) (a * c) (b * d)

/-- The rounded quotient by a number other than zero, none if it is beyond the greatest number. -/
def div? (x y : Binary64) : Option Binary64 :=
  let (a, b) := x.quotient
  let (c, d) := y.quotient
  ofQuotient? (x.negative != y.negative) (a * d) (b * c)

/-- The number is an integer. -/
def isInteger (x : Binary64) : Bool :=
  let (n, d) := x.quotient
  n % d == 0

/-- The number is less than a natural number. -/
def isLess (x : Binary64) (bound : Nat) : Bool :=
  let (n, d) := x.quotient
  if x.negative && n != 0 then true else n < bound * d

end Binary64

end RobotPuzzle
