import RobotPuzzle.Number.Binary64
import RobotPuzzle.Text.Decimal

/-!
# Shortest decimals

The decimal with the fewest digits that is nearer to a given binary64 number than to any other, and
how it is written.

## Main definitions

- `Binary64.shortest` — the digits and the power of ten of the shortest decimal
- `Binary64.scientific` — positional for middling magnitudes, with an exponent otherwise
-/

namespace RobotPuzzle

/-- The numerator and denominator of `num / den / 10 ^ power`. -/
def scaledByTen (num den : Nat) (power : Int) : Nat × Nat :=
  if 0 ≤ power then (num, den * Nat.pow 10 power.toNat) else (num * Nat.pow 10 (-power).toNat, den)

/-- The greatest `p` with `10 ^ p ≤ num / den`, for positive arguments. -/
def decimalOrder (num den : Nat) : Int :=
  if den ≤ num then ((decimal (num / den)).length : Int) - 1
  else -((decimal ((den - 1) / num)).length : Int)

/-- A decimal `digits * 10 ^ power`. -/
structure DecimalNumber where
  digits : Nat
  power : Int
deriving DecidableEq, Repr

namespace Binary64

/-- The decimals that round to a number: those between the two ends, which themselves belong to it if
the mantissa is even. The ends and the number are in quarters of a unit of the last place. -/
structure RoundingInterval where
  low : Nat
  value : Nat
  high : Nat
  closed : Bool

/-- The rounding interval of a number other than zero. Below a power of two the next number is only
half as far away. -/
def roundingInterval (x : Binary64) : RoundingInterval :=
  let below := if x.mantissa = Nat.pow 2 52 && minExponent < x.exponent then 1 else 2
  ⟨4 * x.mantissa - below, 4 * x.mantissa, 4 * x.mantissa + 2, x.mantissa % 2 == 0⟩

/-- The decimal lies in the rounding interval. -/
def RoundingInterval.contains (i : RoundingInterval) (exponent : Int) (n : DecimalNumber) : Bool :=
  -- both sides as multiples of a quarter of the last place
  let (top, bottom) := shiftedQuotient n.digits 1 (exponent - 2)
  let (num, den) :=
    if 0 ≤ n.power then (top * Nat.pow 10 n.power.toNat, bottom)
    else (top, bottom * Nat.pow 10 (-n.power).toNat)
  if i.closed then i.low * den ≤ num && num ≤ i.high * den
  else i.low * den < num && num < i.high * den

/-- The decimal with `count` digits nearest to the number among those that round to it. Of two that are
equally near the one with even digits is taken. -/
def nearestDecimal? (x : Binary64) (order : Int) (count : Nat) : Option DecimalNumber :=
  let power := order - (count - 1 : Nat)
  let (num, den) := x.quotient
  let (n, d) := scaledByTen num den power
  let lower : DecimalNumber := ⟨n / d, power⟩
  let upper : DecimalNumber := ⟨n / d + 1, power⟩
  let i := x.roundingInterval
  let fits := fun m : DecimalNumber => i.contains x.exponent m
  let twice := 2 * (n % d)
  let (nearer, farther) :=
    if twice < d || (twice == d && n / d % 2 == 0) then (lower, upper) else (upper, lower)
  if fits nearer then some nearer else if fits farther then some farther else none

/-- The decimal without trailing zeros among its digits. -/
def DecimalNumber.trimmed (n : DecimalNumber) : Nat → DecimalNumber
  | 0 => n
  | k + 1 =>
    if n.digits ≠ 0 && n.digits % 10 = 0 then
      DecimalNumber.trimmed ⟨n.digits / 10, n.power + 1⟩ k
    else n

/-- The shortest decimal of a number other than zero. Seventeen digits are always enough. -/
def shortest (x : Binary64) : DecimalNumber :=
  let (num, den) := x.quotient
  let order := decimalOrder num den
  let candidates := (List.range 17).filterMap fun k => x.nearestDecimal? order (k + 1)
  match candidates with
  | n :: _ => DecimalNumber.trimmed n 17
  | [] => ⟨0, 0⟩

/-- The digits with zeros up to the point, or with the point among or before them, and at least one
digit after the point. -/
def pointed (digits : List Char) (power : Int) : List Char :=
  let count : Int := digits.length
  let point := count + power
  if 0 ≤ power then digits ++ List.replicate power.toNat '0' ++ ['.', '0']
  else if 0 < point then digits.take point.toNat ++ '.' :: digits.drop point.toNat
  else '0' :: '.' :: (List.replicate (-point).toNat '0' ++ digits)

/-- The digits with a signed exponent, and a point after the first digit if there are more. -/
def withExponent (digits : List Char) (power : Int) : List Char :=
  let exponent := power + (digits.length - 1 : Nat)
  let front :=
    match digits with
    | first :: next :: more => first :: '.' :: next :: more
    | short => short
  let mark := if exponent < 0 then ['e'] else ['e', '+']
  front ++ mark ++ signedDecimal exponent

/-- The sign of a number, as it is written before the digits. -/
def sign (x : Binary64) : List Char := if x.negative then ['-'] else []

/-- The number in positional notation if its point lies from five places before its first digit to
sixteen places after it, and with an exponent otherwise. -/
def scientific (x : Binary64) : List Char :=
  if x.isZero then x.sign ++ ['0', '.', '0']
  else
    let n := x.shortest
    let digits := decimal n.digits
    let point := n.power + (digits.length : Int)
    if -5 < point && point ≤ 16 then x.sign ++ pointed digits n.power
    else x.sign ++ withExponent digits n.power

end Binary64

end RobotPuzzle
