/-!
# Decimal numerals

Numbers written in ASCII digits without leading zeros, and reading numerals with a bound.

## Main definitions

- `decimal`, `signedDecimal` — the numeral of a number
- `digitValue?`, `digitIn?` — the value of an ASCII digit, in base ten and in other bases
- `decimalWithin` — the number of a numeral, or why it has none

## Main statements

- `decimal_injective` — different numbers have different numerals
-/

namespace RobotPuzzle

/-- The decimal numeral of a natural number. -/
def decimal (n : Nat) : List Char := Nat.toDigits 10 n

/-- The decimal numeral of an integer, with a minus sign before a negative one. -/
def signedDecimal (i : Int) : List Char :=
  if i < 0 then '-' :: decimal i.natAbs else decimal i.natAbs

theorem decimal_injective {m n : Nat} (h : decimal m = decimal n) : m = n := by
  have hm := Nat.ofDigitChars_toDigits (b := 10) (n := m) (by decide) (by decide)
  have hn := Nat.ofDigitChars_toDigits (b := 10) (n := n) (by decide) (by decide)
  unfold decimal at h
  rw [← hm, h, hn]

theorem isDigit_of_mem_decimal {n : Nat} {c : Char} (hc : c ∈ decimal n) : c.isDigit = true :=
  Nat.isDigit_of_mem_toDigits (by decide) (by decide) hc

theorem notMem_decimal {c : Char} (hc : c.isDigit = false) (n : Nat) : c ∉ decimal n := by
  intro hmem
  rw [isDigit_of_mem_decimal hmem] at hc
  cases hc

theorem decimal_ne_nil (n : Nat) : decimal n ≠ [] := Nat.toDigits_ne_nil

theorem exists_decimal_eq_cons (n : Nat) : ∃ d ds, decimal n = d :: ds ∧ d.isDigit = true := by
  obtain ⟨d, ds, hcons⟩ := List.exists_cons_of_ne_nil (decimal_ne_nil n)
  exact ⟨d, ds, hcons, isDigit_of_mem_decimal (hcons ▸ List.mem_cons_self)⟩

/-- Only the numeral of 0 begins with 0. -/
theorem head?_decimal_ne_zero {n : Nat} (hpos : 0 < n) : (decimal n).head? ≠ some '0' := by
  induction n using Nat.strongRecOn with
  | ind n ih =>
    rcases Nat.lt_or_ge n 10 with hlt | hge
    · have hdigits : ∀ m < 10, 0 < m → [m.digitChar].head? ≠ some '0' := by decide
      rw [decimal, Nat.toDigits_of_lt_base hlt]
      exact hdigits n hlt hpos
    · have hfront := ih (n / 10) (by omega) (by omega)
      obtain ⟨c, rest, hcons⟩ := List.exists_cons_of_ne_nil (decimal_ne_nil (n / 10))
      rw [hcons] at hfront
      rw [decimal] at hcons
      rw [decimal, Nat.toDigits_of_base_le (by decide) hge, hcons]
      exact hfront

/-- The value of an ASCII digit. -/
def digitValue? (c : Char) : Option Nat :=
  if c.isDigit then some (c.toNat - '0'.toNat) else none

/-- The value of a character as a digit of a base up to 16. -/
def digitIn? (base : Nat) (c : Char) : Option Nat :=
  let value :=
    if c.isDigit then some (c.toNat - '0'.toNat)
    else if 'a' ≤ c ∧ c ≤ 'f' then some (c.toNat - 'a'.toNat + 10)
    else if 'A' ≤ c ∧ c ≤ 'F' then some (c.toNat - 'A'.toNat + 10)
    else none
  value.filter (· < base)

/-- Why a numeral has no number. -/
inductive NumeralError
  | notDigit
  | tooLarge
deriving DecidableEq, Repr

/-- Read further digits of a numeral whose first digits have the value `value`. The fault that comes
first counts, and at one character a wrong digit comes before a value beyond the bound. -/
def decimalWithin (bound : Nat) (value : Nat) : List Char → Except NumeralError Nat
  | [] => .ok value
  | c :: rest =>
    match digitValue? c with
    | none => .error .notDigit
    | some d =>
      if bound < value * 10 + d then .error .tooLarge
      else decimalWithin bound (value * 10 + d) rest

end RobotPuzzle
