import RobotPuzzle.Toml.Reading

/-!
# Reading numerals

A decimal numeral is a word that has an integer for its value. Whatever stands behind the numeral, the word
ends where its digits end, unless a character follows that words are made of.

## Main statements

- `Toml.scalar?_decimal` — the value of a numeral
- `Toml.readWord?_decimal` — the numeral at the start of a text
-/

namespace RobotPuzzle.Toml

variable {c : Char} {cs : List Char} {n : Nat}

/-! ## Digits -/

theorem toNat_of_isDigit (h : c.isDigit = true) : 48 ≤ c.toNat ∧ c.toNat ≤ 57 := by
  simpa [Char.isDigit, UInt32.le_iff_toNat_le] using h

theorem digitIn?_of_isDigit (h : c.isDigit = true) : digitIn? 10 c = some (c.toNat - '0'.toNat) := by
  have hrange := toNat_of_isDigit h
  have hlt : c.toNat - 48 < 10 := by omega
  simp [digitIn?, h, hlt]

theorem digits?_of_isDigit (hne : cs ≠ []) (hcs : ∀ c ∈ cs, c.isDigit = true) :
    digits? 10 cs = some (cs.map fun c => c.toNat - '0'.toNat) := by
  fun_induction digits? 10 cs with
  | case1 => exact absurd rfl hne
  | case2 c => simp [digitIn?_of_isDigit (hcs c (by simp))]
  | case3 c rest => exact absurd (hcs '_' (by simp)) (by decide)
  | case4 c rest hrest _ ih =>
    rw [ih hrest fun d hd => hcs d (List.mem_cons_of_mem _ hd)]
    simp [digitIn?_of_isDigit (hcs c (by simp))]

theorem numberOf_map (cs : List Char) :
    numberOf 10 (cs.map fun c => c.toNat - '0'.toNat) = Nat.ofDigitChars 10 cs 0 := by
  rw [numberOf, List.foldl_map, Nat.ofDigitChars]
  congr 1
  funext n c
  rw [Nat.mul_comm]

/-! ## Words -/

/-- A numeral begins with 0 only if it is 0, as integers have to. -/
theorem wholeDigits?_decimal (n : Nat) :
    ∃ digits, wholeDigits? (decimal n) = some digits ∧ numberOf 10 digits = n := by
  have hdigits := digits?_of_isDigit (decimal_ne_nil n) fun _ => isDigit_of_mem_decimal
  refine ⟨_, ?_, (numberOf_map _).trans (Nat.ofDigitChars_toDigits (by decide) (by decide))⟩
  rw [wholeDigits?, hdigits, Option.bind_eq_bind, Option.bind_some]
  split
  · rename_i digits d rest h
    obtain ⟨c, cs, hcons, hzero, hrest⟩ := List.map_eq_cons_iff.1 h
    exfalso
    rcases Nat.eq_zero_or_pos n with rfl | hpos
    · obtain ⟨rfl, rfl⟩ := List.cons.inj hcons
      cases hrest
    · refine head?_decimal_ne_zero hpos ?_
      rw [hcons, List.head?_cons, Option.some.injEq]
      have hdigit : c.isDigit = true := isDigit_of_mem_decimal (hcons ▸ List.mem_cons_self)
      have hrange := toNat_of_isDigit hdigit
      exact Char.toNat_inj.1 (Nat.le_antisymm (Nat.le_of_sub_eq_zero hzero) hrange.1)
  · rfl

theorem signAndRest_decimal (n : Nat) : signAndRest (decimal n) = (false, decimal n) := by
  have hsign : ∀ sign ∈ decimal n, sign.isDigit = true := fun _ => isDigit_of_mem_decimal
  unfold signAndRest
  split
  · rename_i h
    rw [h] at hsign
    exact absurd (hsign '-' (by simp)) (by decide)
  · rename_i h
    rw [h] at hsign
    exact absurd (hsign '+' (by simp)) (by decide)
  · rfl

theorem boundedInteger?_of_lt (hmax : n < Nat.pow 2 127) : boundedInteger? n = some (.integer n) := by
  have hpow (k : Nat) : Int.pow 2 k = (Nat.pow 2 k : Int) := (Int.natCast_pow 2 k).symm
  have hle : Nat.pow 2 127 ≤ Nat.pow 2 128 := Nat.pow_le_pow_right (by decide) (by decide)
  rw [boundedInteger?, hpow, hpow, if_pos]
  constructor
  · exact Int.le_trans (Int.neg_nonpos_of_nonneg (Int.natCast_nonneg _)) (Int.natCast_nonneg _)
  · exact Int.ofNat_lt.2 (Nat.lt_of_lt_of_le hmax hle)

theorem integer?_decimal (hmax : n < Nat.pow 2 127) : integer? (decimal n) = some (.integer n) := by
  have hdigit : ∀ c ∈ decimal n, c.isDigit = true := fun _ => isDigit_of_mem_decimal
  unfold integer?
  split
  · rename_i h
    rw [h] at hdigit
    exact absurd (hdigit 'x' (by simp)) (by decide)
  · rename_i h
    rw [h] at hdigit
    exact absurd (hdigit 'o' (by simp)) (by decide)
  · rename_i h
    rw [h] at hdigit
    exact absurd (hdigit 'b' (by simp)) (by decide)
  · obtain ⟨digits, hwhole, hvalue⟩ := wholeDigits?_decimal n
    rw [signAndRest_decimal]
    dsimp only
    rw [hwhole, Option.bind_eq_bind, Option.bind_some, hvalue, if_neg Bool.false_ne_true,
      boundedInteger?_of_lt hmax]

theorem scalar?_decimal (hmax : n < Nat.pow 2 127) : scalar? (decimal n) = some (.integer n) := by
  have hdigit : ∀ c ∈ decimal n, c.isDigit = true := fun _ => isDigit_of_mem_decimal
  have hword : ∀ word : List Char, 't' ∈ word ∨ 'f' ∈ word → decimal n ≠ word := by
    rintro word hletter rfl
    rcases hletter with h | h
    · exact absurd (hdigit _ h) (by decide)
    · exact absurd (hdigit _ h) (by decide)
  rw [scalar?, if_neg (hword _ (by simp)), if_neg (hword _ (by simp)), integer?_decimal hmax]
  rfl

theorem isWordChar_of_isDigit (h : c.isDigit = true) : isWordChar c = true := by
  simp [isWordChar, Char.isAlphanum, h]

/-- The word ends where the digits end, unless a blank or a further character of words follows. -/
theorem readWord?_decimal (hmax : n < Nat.pow 2 127) (hc : isWordChar c = false) (hblank : c ≠ ' ') :
    readWord? (decimal n ++ c :: cs) = some (.integer n, c :: cs) := by
  have hword : ∀ d ∈ decimal n, isWordChar d = true := fun d hd =>
    isWordChar_of_isDigit (isDigit_of_mem_decimal hd)
  simp only [readWord?, List.takeWhile_append_of_pos hword, List.dropWhile_append_of_pos hword]
  rw [List.takeWhile_cons_of_neg (by simp [hc]), List.dropWhile_cons_of_neg (by simp [hc]), List.append_nil]
  split
  · rename_i h
    exact absurd (List.cons.inj h).1 hblank
  · rw [scalar?_decimal hmax]
    rfl

end RobotPuzzle.Toml
