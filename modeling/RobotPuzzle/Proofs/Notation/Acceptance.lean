import Mathlib.Data.List.Nodup
import RobotPuzzle.Proofs.Notation.Lexing

/-!
# What the reader accepts

The reader takes in a lexeme under conditions it checks one after the other. They are told here without that
order: which word calls an instruction, which repeat count a loop word stands for, and which lexeme may
follow what has been read.

## Main definitions

- `Calls` — a word calls a kind of instruction
- `CountRule.Gives` — the repeat count of a loop word

## Main statements

- `kindOfWord?_eq_some_iff` — the kind of a word is the one the table has for it
- `decimalWithin_eq_ok_iff` — the value of a numeral that stays within a bound
- `Draft.accept_opening_eq_ok_iff`, `Draft.accept_closing_eq_ok_iff`, `Draft.accept_word_eq_ok_iff` — what it
  takes for a lexeme to be taken in, and what has been read then
-/

namespace RobotPuzzle

theorem exists_of_bind_eq_ok {ε α β : Type} {x : Except ε α} {g : α → Except ε β} {b : β}
    (h : x >>= g = .ok b) : ∃ a, x = .ok a ∧ g a = .ok b := by
  cases x with
  | error reason => cases h
  | ok a => exact ⟨a, rfl, h⟩

theorem exists_of_bind_eq_error {ε α β : Type} {x : Except ε α} {g : α → Except ε β} {reason : ε}
    (h : x >>= g = .error reason) : x = .error reason ∨ ∃ a, x = .ok a ∧ g a = .error reason := by
  cases x with
  | error other =>
    obtain rfl : other = reason := Except.error.inj h
    exact Or.inl rfl
  | ok a => exact Or.inr ⟨a, rfl, h⟩

/-! ## Numerals -/

theorem le_ofDigitChars (digits : List Char) (value : Nat) :
    value ≤ Nat.ofDigitChars 10 digits value := by
  induction digits generalizing value with
  | nil => exact Nat.le_refl _
  | cons c digits ih =>
    rw [Nat.ofDigitChars_cons]
    exact Nat.le_trans (by omega) (ih _)

/-- A numeral is read if it has digits only and its value stays within the bound. -/
theorem decimalWithin_eq_ok_iff {bound value n : Nat} {digits : List Char} (hvalue : value ≤ bound) :
    decimalWithin bound value digits = .ok n ↔
      (∀ c ∈ digits, c.isDigit = true) ∧ Nat.ofDigitChars 10 digits value = n ∧ n ≤ bound := by
  induction digits generalizing value with
  | nil =>
    simp only [decimalWithin, Except.ok.injEq, List.not_mem_nil, false_implies, implies_true, true_and,
      Nat.ofDigitChars_nil]
    exact ⟨fun h => ⟨h, h ▸ hvalue⟩, And.left⟩
  | cons c digits ih =>
    rw [decimalWithin, digitValue?, Nat.ofDigitChars_cons, List.forall_mem_cons]
    by_cases hc : c.isDigit = true
    · simp only [if_pos hc, Nat.mul_comm 10 value]
      split
      · -- the value never falls again
        rename_i hlarge
        have hle := le_ofDigitChars digits (value * 10 + (c.toNat - '0'.toNat))
        constructor
        · intro h
          cases h
        · rintro ⟨-, rfl, hn⟩
          omega
      · rename_i hsmall
        rw [ih (Nat.le_of_not_lt hsmall)]
        simp only [hc, true_and]
    · simp [hc]

namespace Notation

variable {rule : CountRule} {d e : Draft} {offset n : Nat} {letters : List Char}
  {digits : Option (List Char)} {kind : Kind}

/-! ## Words -/

/-- The word calls the kind of instruction, whatever the case of its letters. -/
def Calls (word : List Char) (kind : Kind) : Prop := (word.map Char.toLower, kind) ∈ wordTable

/-- No word calls two kinds. -/
theorem nodup_words : (wordTable.map (·.1)).Nodup := by
  decide

theorem Calls.ne_nil (h : Calls letters kind) : letters ≠ [] := by
  rintro rfl
  have hnone : ∀ entry ∈ wordTable, entry.1 ≠ [] := by decide
  exact hnone _ h rfl

theorem kindOfWord?_eq_some_iff : kindOfWord? letters = some kind ↔ Calls letters kind := by
  rw [kindOfWord?, Option.map_eq_some_iff, Calls]
  constructor
  · rintro ⟨entry, hfind, rfl⟩
    have hkey := List.find?_some hfind
    rw [← beq_iff_eq.1 hkey]
    exact List.mem_of_find?_eq_some hfind
  · intro hmem
    obtain ⟨entry, hfind⟩ := Option.isSome_iff_exists.1 <|
      List.find?_isSome (p := (·.1 == letters.map Char.toLower)).2 ⟨_, hmem, beq_self_eq_true _⟩
    have hkey := List.find?_some hfind
    refine ⟨entry, hfind, ?_⟩
    rw [List.inj_on_of_nodup_map nodup_words (List.mem_of_find?_eq_some hfind) hmem (beq_iff_eq.1 hkey)]

/-! ## Repeat counts -/

/-- The characters are ASCII digits and write a count. There may be zeros in front. -/
def IsNumeral (digits : List Char) (n : Nat) : Prop :=
  (∀ c ∈ digits, c.isDigit = true) ∧ Nat.ofDigitChars 10 digits 0 = n ∧ n ≤ maxCount

/-- The count that a loop word stands for: the default without digits, and otherwise their value. -/
def CountRule.Denotes (rule : CountRule) : Option (List Char) → Nat → Prop
  | none, n => n = rule.default
  | some digits, n => IsNumeral digits n

/-- A loop word with these digits, or with none, may stand for a loop with this count. -/
structure CountRule.Gives (rule : CountRule) (digits : Option (List Char)) (n : Nat) : Prop where
  denotes : rule.Denotes digits n
  pos : 1 ≤ n
  offered : rule.offered n = true

theorem CountRule.Gives.ne_nil {digits : List Char} (h : rule.Gives (some digits) n) :
    digits ≠ [] := by
  rintro rfl
  have hzero : 0 = n := h.denotes.2.1
  exact absurd h.pos (hzero ▸ Nat.not_succ_le_zero 0)

/-- No count is too large to be written down. -/
theorem CountRule.Gives.le_maxCount (h : rule.Gives digits n) (hdefault : rule.default ≤ maxCount) :
    n ≤ maxCount := by
  obtain ⟨hdenotes, -, -⟩ := h
  cases digits with
  | none =>
    obtain rfl : n = rule.default := hdenotes
    exact hdefault
  | some digits => exact hdenotes.2.2

namespace Draft

theorem readCount_eq_ok_iff {ds : List Char} {count : Option Nat} :
    readCount offset (some ds) = .ok count ↔ ∃ n, count = some n ∧ IsNumeral ds n := by
  simp only [readCount, IsNumeral, ← decimalWithin_eq_ok_iff (Nat.zero_le maxCount)]
  cases decimalWithin maxCount 0 ds with
  | error reason => simp
  | ok n => simp [eq_comm]

theorem acceptLoop_eq_ok_iff {count : Option Nat} :
    d.acceptLoop rule count offset = .ok e ↔
      1 ≤ count.getD rule.default ∧ rule.offered (count.getD rule.default) = true ∧
        e = { d with pending := some ⟨count.getD rule.default, offset⟩ } := by
  simp only [acceptLoop]
  split
  · rename_i hzero
    simp [hzero]
  · rename_i hpos
    split
    · rename_i hoffered
      simp [hoffered]
    · rename_i hoffered
      have hone : 1 ≤ count.getD rule.default := Nat.pos_of_ne_zero hpos
      rw [Bool.not_eq_false] at hoffered
      simp only [hone, hoffered, true_and, Except.ok.injEq, eq_comm]

/-- A loop word is taken in if it gives a count, which its body then waits for. -/
theorem acceptLoop_readCount_eq_ok_iff :
    (readCount offset digits >>= fun count => d.acceptLoop rule count offset) = .ok e ↔
      ∃ n, rule.Gives digits n ∧ e = { d with pending := some ⟨n, offset⟩ } := by
  cases digits with
  | none =>
    change d.acceptLoop rule none offset = .ok e ↔ _
    rw [acceptLoop_eq_ok_iff]
    constructor
    · rintro ⟨hpos, hoffered, he⟩
      exact ⟨rule.default, ⟨rfl, hpos, hoffered⟩, he⟩
    · rintro ⟨n, ⟨rfl, hpos, hoffered⟩, he⟩
      exact ⟨hpos, hoffered, he⟩
  | some ds =>
    constructor
    · intro h
      obtain ⟨count, hcount, haccept⟩ := exists_of_bind_eq_ok h
      obtain ⟨n, rfl, hnumeral⟩ := readCount_eq_ok_iff.1 hcount
      obtain ⟨hpos, hoffered, he⟩ := acceptLoop_eq_ok_iff.1 haccept
      exact ⟨n, ⟨hnumeral, hpos, hoffered⟩, he⟩
    · rintro ⟨n, hgives, he⟩
      rw [readCount_eq_ok_iff.2 ⟨n, rfl, hgives.denotes⟩]
      exact acceptLoop_eq_ok_iff.2 ⟨hgives.pos, hgives.offered, he⟩

/-- No command takes a count. -/
theorem acceptCommand_readCount_eq_ok_iff {c : Command} :
    (readCount offset digits >>= fun count => d.acceptCommand c count offset) = .ok e ↔
      digits = none ∧ e = { d with current := d.current ++ .command () c .nil } := by
  cases digits with
  | none =>
    change Except.ok _ = Except.ok e ↔ _
    simp [eq_comm]
  | some ds =>
    simp only [reduceCtorEq, false_and, iff_false]
    intro h
    obtain ⟨count, hcount, haccept⟩ := exists_of_bind_eq_ok h
    obtain ⟨n, rfl, -⟩ := readCount_eq_ok_iff.1 hcount
    cases haccept

/-! ## Lexemes -/

theorem accept_opening_eq_ok_iff :
    d.accept rule ⟨offset, .opening⟩ = .ok e ↔
      ∃ p, d.pending = some p ∧ e = ⟨⟨p.count, d.current⟩ :: d.loops, .nil, none⟩ := by
  rw [accept]
  cases d.pending with
  | none => simp
  | some p => simp [eq_comm]

theorem accept_closing_eq_ok_iff :
    d.accept rule ⟨offset, .closing⟩ = .ok e ↔
      d.pending = none ∧ ∃ inner outer, d.loops = inner :: outer ∧
        e = { d with loops := outer, current := inner.before ++ .loop () inner.count d.current .nil } := by
  obtain ⟨loops, current, pending⟩ := d
  cases pending with
  | some p => simp [accept]
  | none =>
    simp only [accept, acceptClosing]
    cases loops with
    | nil => simp
    | cons inner outer => simp [eq_comm]

/-- A word is taken in unless a body is due: the word of a command without a count, and a loop word that
gives one. -/
theorem accept_word_eq_ok_iff :
    d.accept rule ⟨offset, .word letters digits⟩ = .ok e ↔
      d.pending = none ∧
        ((∃ c : Command, Calls letters c.kind ∧ digits = none ∧
            e = { d with current := d.current ++ .command () c .nil }) ∨
          (Calls letters .loop ∧ ∃ n, rule.Gives digits n ∧ e = { d with pending := some ⟨n, offset⟩ })) := by
  obtain ⟨loops, current, pending⟩ := d
  cases pending with
  | some p => simp [accept]
  | none =>
    simp only [accept, ← kindOfWord?_eq_some_iff, acceptWord, true_and]
    cases kindOfWord? letters with
    | none => simp
    | some kind =>
      simp only
      cases hkind : kind.command? with
      | none =>
        obtain rfl := Kind.eq_loop_of_command? hkind
        refine acceptLoop_readCount_eq_ok_iff.trans ?_
        simp [(Command.kind_ne_loop _).symm]
      | some c =>
        obtain rfl := Kind.eq_kind_of_command? hkind
        refine acceptCommand_readCount_eq_ok_iff.trans ⟨fun h => Or.inl ⟨c, rfl, h⟩, ?_⟩
        rintro (⟨other, hother, h⟩ | ⟨hloop, -⟩)
        · obtain rfl : c = other := by
            simpa using congrArg Kind.command? (Option.some.inj hother)
          exact h
        · exact absurd (Option.some.inj hloop) c.kind_ne_loop

end Draft

end Notation

end RobotPuzzle
