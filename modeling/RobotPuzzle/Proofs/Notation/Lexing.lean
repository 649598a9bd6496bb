import Mathlib.Data.List.Basic
import Mathlib.Data.List.TakeWhile
import RobotPuzzle.Notation.Reading

/-!
# Going on with a text

The reader cuts a text into lexemes and takes them in from left to right. What it does with a text is told
here by what the text begins with: a separator is passed over, and the piece that spells a brace or a word is
taken in before the reader goes on behind it. Nothing else opens the cutting of a text.

## Main definitions

- `countText` — the text of a repeat count
- `EndsWord`, `Spells` — a word ends before a text, and a piece of text spells a lexeme before a text
- `StartsWithBrace` — the texts before which every piece may stand
- `Draft.readFrom` — go on with a text that starts at an offset

## Main statements

- `countText_append_afterCount`, `EndsWord.countDigits_eq` — the repeat count at the start of a text
- `Spells.of_append`, `Spells.append` — a piece spells its lexeme before less and before more of the text
- `cut_induction` — induction along the pieces of a text
- `Draft.readFrom_separators`, `Draft.readFrom_piece` — one step of the reader
-/

namespace RobotPuzzle

/-! ## Characters -/

/-- A code point in a range of one list is in none of another whose ranges lie elsewhere. -/
theorem inRanges_eq_false {ranges others : List (Nat × Nat)} {code : Nat}
    (hapart : ∀ r ∈ ranges, ∀ s ∈ others, r.2 < s.1 ∨ s.2 < r.1) (h : inRanges ranges code = true) :
    inRanges others code = false := by
  simp only [inRanges, List.any_eq_true, Bool.and_eq_true, decide_eq_true_eq] at h
  obtain ⟨r, hr, hcode⟩ := h
  simp only [inRanges, List.any_eq_false, Bool.and_eq_true, decide_eq_true_eq]
  intro s hs hcode'
  have := hapart r hr s hs
  omega

namespace Notation

variable {c : Char} {text : List Char}

/-- The digits of a repeat count that are read are among those that are cut off. -/
theorem isDecimalDigit_of_isDigit (h : c.isDigit = true) : isDecimalDigit c = true := by
  simp only [Char.isDigit, Bool.and_eq_true, decide_eq_true_eq] at h
  have hrange : (decide (0x30 ≤ c.toNat) && decide (c.toNat ≤ 0x39)) = true := by
    simpa using And.intro (UInt32.le_iff_toNat_le.1 h.1) (UInt32.le_iff_toNat_le.1 h.2)
  simp only [isDecimalDigit, inRanges, decimalDigitRanges, List.any_cons, hrange, Bool.true_or]

/-- No separator is a digit. -/
theorem isDecimalDigit_of_isSeparator (h : isSeparator c = true) : isDecimalDigit c = false := by
  rw [isSeparator, Bool.or_eq_true, beq_iff_eq] at h
  rcases h with hspace | rfl
  · exact inRanges_eq_false (by decide) hspace
  · decide

/-- The ranges of the characters of words. -/
private theorem inRanges_of_isWordChar (h : isWordChar c = true) :
    inRanges [(0x41, 0x5A), (0x5F, 0x5F), (0x61, 0x7A)] c.toNat = true := by
  have hcases : (decide ('A'.val ≤ c.val ∧ c.val ≤ 'Z'.val) ||
      (decide ('a'.val ≤ c.val) && decide (c.val ≤ 'z'.val)) || c == '_') = true := h
  simp only [Bool.or_eq_true, Bool.and_eq_true, decide_eq_true_eq, beq_iff_eq,
    UInt32.le_iff_toNat_le] at hcases
  simp only [inRanges, List.any_cons, List.any_nil, Bool.or_false, Bool.or_eq_true, Bool.and_eq_true,
    decide_eq_true_eq]
  rcases hcases with (hupper | hlower) | rfl
  · exact Or.inl hupper
  · exact Or.inr (Or.inr hlower)
  · decide

/-- No character of a word separates. -/
theorem isSeparator_of_isWordChar (h : isWordChar c = true) : isSeparator c = false := by
  have hspace : isWhiteSpace c = false :=
    inRanges_eq_false (by decide) (inRanges_of_isWordChar h)
  have hcomma : c ≠ ',' := by
    rintro rfl
    simp [isWordChar] at h
  simp [isSeparator, hspace, hcomma]

theorem isWordChar_of_isSeparator (h : isSeparator c = true) : isWordChar c = false := by
  by_contra hword
  rw [isSeparator_of_isWordChar (Bool.not_eq_false _ ▸ hword)] at h
  cases h

/-! ## Repeat counts -/

/-- The text of the repeat count of a word, if it has one. -/
def countText : Option (List Char) → List Char
  | none => []
  | some digits => '*' :: digits

theorem byteLength_countText (digits : Option (List Char)) :
    byteLength (countText digits) = digits.elim 0 fun digits => byteLength digits + 1 := by
  cases digits with
  | none => rfl
  | some digits => exact Nat.add_comm _ _

theorem countDigits_eq_some_iff {digits : List Char} :
    countDigits text = some digits ↔
      digits ≠ [] ∧ ∃ rest, text = '*' :: rest ∧ rest.takeWhile isDecimalDigit = digits := by
  unfold countDigits
  split
  · rename_i rest
    split
    · rename_i hnone
      simp [hnone, eq_comm]
    · rename_i hsome
      constructor
      · intro hdigits
        obtain rfl := Option.some.inj hdigits
        exact ⟨fun h => hsome h, rest, rfl, rfl⟩
      · rintro ⟨-, other, hother, rfl⟩
        rw [List.cons.injEq] at hother
        rw [hother.2]
  · rename_i hstar
    constructor
    · intro hdigits
      cases hdigits
    · rintro ⟨-, rest, rfl, -⟩
      exact absurd rfl (hstar rest)

theorem countDigits_eq_none_iff :
    countDigits text = none ↔ ∀ rest, text = '*' :: rest → ∀ x ∈ rest.head?, isDecimalDigit x = false := by
  rw [Option.eq_none_iff_forall_ne_some]
  simp only [ne_eq, countDigits_eq_some_iff, not_and, not_exists]
  constructor
  · intro h rest htext x hx
    by_contra hdigit
    obtain ⟨rest, rfl⟩ : ∃ more, rest = x :: more := List.head?_eq_some_iff.1 hx
    rw [Bool.not_eq_false] at hdigit
    exact h (x :: rest.takeWhile isDecimalDigit) (List.cons_ne_nil _ _) _ htext (by simp [hdigit])
  · rintro h digits hne rest htext rfl
    cases rest with
    | nil => exact hne rfl
    | cons x rest =>
      rw [List.takeWhile_cons, h _ htext x rfl, if_neg Bool.false_ne_true] at hne
      exact hne rfl

theorem countDigits_eq_none (hstar : ∀ x ∈ text.head?, x ≠ '*') : countDigits text = none := by
  refine countDigits_eq_none_iff.2 fun rest htext => absurd rfl (hstar '*' ?_)
  rw [htext]
  rfl

/-- A text begins with its repeat count. -/
theorem countText_append_afterCount (text : List Char) :
    countText (countDigits text) ++ afterCount text = text := by
  unfold afterCount
  cases hdigits : countDigits text with
  | none => rfl
  | some digits =>
    obtain ⟨-, rest, rfl, rfl⟩ := countDigits_eq_some_iff.1 hdigits
    have hsplit := List.prefix_iff_eq_append.1 (rest.takeWhile_prefix isDecimalDigit)
    simp only [countText, List.cons_append, List.drop_succ_cons, hsplit]

theorem takeWhile_append_of_head {p : Char → Bool} {letters : List Char}
    (hletters : ∀ x ∈ letters, p x = true) (hend : ∀ x ∈ text.head?, p x = false) :
    (letters ++ text).takeWhile p = letters := by
  have htext : text.takeWhile p = [] := by
    cases text with
    | nil => rfl
    | cons c rest => rw [List.takeWhile_cons, hend c rfl, if_neg Bool.false_ne_true]
  rw [List.takeWhile_append_of_pos hletters, htext, List.append_nil]

/-- A word with these digits, or with none, ends where the text begins: the text goes on neither with its
letters nor with its digits, and does not begin with a count where there is none. -/
def EndsWord : Option (List Char) → List Char → Prop
  | none, text => (∀ x ∈ text.head?, isWordChar x = false) ∧ countDigits text = none
  | some digits, text =>
    digits ≠ [] ∧ (∀ x ∈ digits, isDecimalDigit x = true) ∧ ∀ x ∈ text.head?, isDecimalDigit x = false

/-- What follows the letters of a word and its count is where the word ends. -/
theorem endsWord_afterCount (hend : ∀ x ∈ text.head?, isWordChar x = false) :
    EndsWord (countDigits text) (afterCount text) := by
  have hsplit := countText_append_afterCount text
  cases hdigits : countDigits text with
  | none =>
    have hafter : afterCount text = text := by rwa [hdigits] at hsplit
    rw [hafter]
    exact ⟨hend, hdigits⟩
  | some digits =>
    rw [hdigits] at hsplit
    obtain ⟨hne, rest, rfl, rfl⟩ := countDigits_eq_some_iff.1 hdigits
    have hafter : afterCount ('*' :: rest) = rest.dropWhile isDecimalDigit :=
      List.append_cancel_left ((List.cons.inj hsplit).2.trans List.takeWhile_append_dropWhile.symm)
    refine ⟨hne, fun x hx => List.mem_takeWhile_imp hx, fun x hx => ?_⟩
    have hnot := List.head?_dropWhile_not isDecimalDigit rest
    rw [hafter, Option.mem_def] at hx
    rwa [hx] at hnot

namespace EndsWord

variable {digits : Option (List Char)} {rest : List Char}

theorem isWordChar_head (h : EndsWord digits text) :
    ∀ x ∈ (countText digits ++ text).head?, isWordChar x = false := by
  cases digits with
  | none => exact h.1
  | some digits =>
    intro x hx
    obtain rfl := Option.some.inj hx
    decide

theorem countDigits_eq (h : EndsWord digits text) : countDigits (countText digits ++ text) = digits := by
  cases digits with
  | none => exact h.2
  | some digits =>
    exact countDigits_eq_some_iff.2 ⟨h.1, digits ++ text, rfl, takeWhile_append_of_head h.2.1 h.2.2⟩

theorem afterCount_eq (h : EndsWord digits text) : afterCount (countText digits ++ text) = text := by
  have hsplit := countText_append_afterCount (countText digits ++ text)
  rw [h.countDigits_eq] at hsplit
  exact List.append_cancel_left hsplit

/-- A word ends before the beginning of a text if it ends before the whole. -/
theorem of_append (h : EndsWord digits (text ++ rest)) : EndsWord digits text := by
  have hhead : ∀ {s : List Char}, ∀ x ∈ s.head?, x ∈ (s ++ rest).head? :=
    fun _ hx => List.mem_head?_append_of_mem_head? hx
  cases digits with
  | some digits => exact ⟨h.1, h.2.1, fun x hx => h.2.2 x (hhead x hx)⟩
  | none =>
    refine ⟨fun x hx => h.1 x (hhead x hx), countDigits_eq_none_iff.2 ?_⟩
    rintro more rfl x hx
    exact countDigits_eq_none_iff.1 h.2 (more ++ rest) rfl x (hhead x hx)

end EndsWord

/-- The text begins with a brace, or is empty. -/
def StartsWithBrace (text : List Char) : Prop := ∀ x ∈ text.head?, x = '\x7b' ∨ x = '\x7d'

theorem head_append {p : Char → Prop} {rest : List Char} (htext : ∀ x ∈ text.head?, p x)
    (hrest : ∀ x ∈ rest.head?, p x) : ∀ x ∈ (text ++ rest).head?, p x := by
  cases text with
  | nil => exact hrest
  | cons c text => exact htext

/-- No brace goes on with a word, with its star or with its digits. -/
theorem EndsWord.append {digits : Option (List Char)} {rest : List Char} (h : EndsWord digits text)
    (hrest : StartsWithBrace rest) : EndsWord digits (text ++ rest) := by
  have hdigit : ∀ x ∈ rest.head?, isDecimalDigit x = false := by
    intro x hx
    rcases hrest x hx with rfl | rfl <;> decide
  have hword : ∀ x ∈ rest.head?, isWordChar x = false := by
    intro x hx
    rcases hrest x hx with rfl | rfl <;> decide
  cases digits with
  | some digits => exact ⟨h.1, h.2.1, head_append h.2.2 hdigit⟩
  | none =>
    refine ⟨head_append h.1 hword, countDigits_eq_none_iff.2 fun more hmore => ?_⟩
    cases text with
    | nil =>
      obtain rfl : rest = '*' :: more := hmore
      rcases hrest '*' rfl with hbrace | hbrace <;> cases hbrace
    | cons c text =>
      obtain ⟨rfl, rfl⟩ := List.cons.inj hmore
      exact head_append (countDigits_eq_none_iff.1 h.2 text rfl) hdigit

/-! ## The pieces of a text -/

/-- The piece spells the lexeme if this rest of the text follows it. -/
inductive Spells : List Char → Lexeme → List Char → Prop
  | opening (rest : List Char) : Spells ['\x7b'] .opening rest
  | closing (rest : List Char) : Spells ['\x7d'] .closing rest
  | word {letters rest : List Char} {digits : Option (List Char)} (hne : letters ≠ [])
      (hletters : ∀ x ∈ letters, isWordChar x = true) (hends : EndsWord digits rest) :
      Spells (letters ++ countText digits) (.word letters digits) rest

section
variable {offset : Nat} {piece rest : List Char} {lexeme : Lexeme}

/-- Cutting the text between two lexemes changes neither of them. -/
theorem Spells.of_append (h : Spells piece lexeme (text ++ rest)) : Spells piece lexeme text := by
  cases h with
  | opening => exact .opening text
  | closing => exact .closing text
  | word hne hletters hends => exact .word hne hletters hends.of_append

theorem Spells.append (h : Spells piece lexeme text) (hrest : StartsWithBrace rest) :
    Spells piece lexeme (text ++ rest) := by
  cases h with
  | opening => exact .opening (text ++ rest)
  | closing => exact .closing (text ++ rest)
  | word hne hletters hends => exact .word hne hletters (hends.append hrest)

theorem Spells.byteLength_pos (h : Spells piece lexeme rest) : 1 ≤ byteLength piece := by
  cases h with
  | opening | closing => decide
  | @word letters rest digits hne hletters hends =>
    obtain ⟨c, letters, rfl⟩ := List.exists_cons_of_ne_nil hne
    rw [List.cons_append, byteLength_cons]
    exact Nat.le_add_right_of_le c.utf8Size_pos

theorem lexemesFrom_separator (hc : isSeparator c = true) :
    lexemesFrom offset (c :: text) = lexemesFrom (offset + c.utf8Size) text := by
  rw [lexemesFrom, if_pos hc]

/-- A piece is cut off as the lexeme that it spells. -/
theorem lexemesFrom_piece (h : Spells piece lexeme rest) :
    lexemesFrom offset (piece ++ rest) =
      ⟨offset, lexeme⟩ :: lexemesFrom (offset + byteLength piece) rest := by
  cases h with
  | opening =>
    rw [List.singleton_append, lexemesFrom, if_neg (by decide), if_pos rfl]
    rfl
  | closing =>
    rw [List.singleton_append, lexemesFrom, if_neg (by decide), if_neg (by decide), if_pos rfl]
    rfl
  | @word letters rest digits hne hletters hends =>
    obtain ⟨c, letters, rfl⟩ := List.exists_cons_of_ne_nil hne
    obtain ⟨hc, hrest⟩ := List.forall_mem_cons.1 hletters
    have hletters' : (letters ++ (countText digits ++ rest)).takeWhile isWordChar = letters :=
      takeWhile_append_of_head hrest hends.isWordChar_head
    have hafter : (letters ++ (countText digits ++ rest)).dropWhile isWordChar = countText digits ++ rest := by
      have hsplit := List.takeWhile_append_dropWhile
        (l := letters ++ (countText digits ++ rest)) (p := isWordChar)
      rw [hletters'] at hsplit
      exact List.append_cancel_left hsplit
    have hopen : c ≠ '\x7b' := by
      rintro rfl
      exact absurd hc (by decide)
    have hclose : c ≠ '\x7d' := by
      rintro rfl
      exact absurd hc (by decide)
    rw [List.append_assoc, List.cons_append, lexemesFrom, isSeparator_of_isWordChar hc,
      if_neg Bool.false_ne_true, if_neg hopen, if_neg hclose, if_pos hc, hletters', hafter]
    simp only [hends.countDigits_eq, hends.afterCount_eq, byteLength_append, byteLength_countText]

theorem lexemesFrom_stray (hsep : isSeparator c = false) (hopen : c ≠ '\x7b') (hclose : c ≠ '\x7d')
    (hword : isWordChar c = false) :
    lexemesFrom offset (c :: text) = [⟨offset, .stray ((c :: text).take excerptLength)⟩] := by
  rw [lexemesFrom, hsep, if_neg Bool.false_ne_true, if_neg hopen, if_neg hclose, hword,
    if_neg Bool.false_ne_true]

end

/-- A text is nothing, begins with a separator or with a piece that spells a lexeme, or begins with what
spells none. -/
@[elab_as_elim]
theorem cut_induction {motive : Nat → List Char → Prop} (nil : ∀ offset, motive offset [])
    (separator : ∀ offset c text, isSeparator c = true → motive (offset + c.utf8Size) text →
      motive offset (c :: text))
    (piece : ∀ offset piece lexeme rest, Spells piece lexeme rest →
      motive (offset + byteLength piece) rest → motive offset (piece ++ rest))
    (stray : ∀ offset c text, isSeparator c = false → c ≠ '\x7b' → c ≠ '\x7d' → isWordChar c = false →
      motive offset (c :: text))
    (offset : Nat) (text : List Char) : motive offset text := by
  induction offset, text using lexemesFrom.induct with
  | case1 offset => exact nil offset
  | case2 offset c text hc ih => exact separator offset c text hc ih
  | case3 offset text hsep ih => exact piece offset ['\x7b'] .opening text (.opening text) ih
  | case4 offset text hsep hopen ih => exact piece offset ['\x7d'] .closing text (.closing text) ih
  | case5 offset c text hsep hopen hclose hc letters rest count size =>
    rename_i ih
    have htext : letters ++ countText count ++ afterCount rest = c :: text := by
      rw [List.append_assoc, countText_append_afterCount, List.cons_append, List.takeWhile_append_dropWhile]
    have hletters : ∀ x ∈ letters, isWordChar x = true :=
      List.forall_mem_cons.2 ⟨hc, fun x hx => List.mem_takeWhile_imp hx⟩
    have hends : EndsWord count (afterCount rest) := by
      refine endsWord_afterCount fun x hx => ?_
      have hnot := List.head?_dropWhile_not isWordChar text
      rwa [Option.mem_def.1 hx] at hnot
    rw [← htext]
    refine piece offset _ _ _ (.word (List.cons_ne_nil _ _) hletters hends) ?_
    rwa [byteLength_append, byteLength_countText]
  | case6 offset c text hsep hopen hclose hc =>
    exact stray offset c text (Bool.eq_false_iff.2 hsep) hopen hclose (Bool.eq_false_iff.2 hc)

/-! ## One step of the reader -/

namespace Draft

variable {rule : CountRule} {d : Draft} {offset : Nat} {piece rest : List Char} {lexeme : Lexeme}

/-- Go on with a text that starts at an offset. -/
def readFrom (rule : CountRule) (d : Draft) (offset : Nat) (text : List Char) : Except ReadError Draft :=
  (lexemesFrom offset text).foldlM (accept rule) d

@[simp] theorem readFrom_nil : d.readFrom rule offset [] = .ok d := by
  rw [readFrom, lexemesFrom]
  rfl

theorem readFrom_separator (hc : isSeparator c = true) :
    d.readFrom rule offset (c :: text) = d.readFrom rule (offset + c.utf8Size) text := by
  rw [readFrom, lexemesFrom_separator hc, readFrom]

/-- Separators are passed over. -/
theorem readFrom_separators {seps : List Char} (hseps : ∀ x ∈ seps, isSeparator x = true) :
    d.readFrom rule offset (seps ++ text) = d.readFrom rule (offset + byteLength seps) text := by
  induction seps generalizing offset with
  | nil => rfl
  | cons c seps ih =>
    rw [List.forall_mem_cons] at hseps
    rw [List.cons_append, readFrom_separator hseps.1, ih hseps.2, byteLength_cons, Nat.add_assoc]

/-- A piece is taken in as the lexeme that it spells. -/
theorem readFrom_piece (h : Spells piece lexeme rest) :
    d.readFrom rule offset (piece ++ rest) =
      d.accept rule ⟨offset, lexeme⟩ >>= fun e => e.readFrom rule (offset + byteLength piece) rest := by
  rw [readFrom, lexemesFrom_piece h, List.foldlM_cons]
  rfl

theorem readFrom_opening :
    d.readFrom rule offset ('\x7b' :: text) =
      d.accept rule ⟨offset, .opening⟩ >>= fun e => e.readFrom rule (offset + 1) text :=
  readFrom_piece (.opening text)

theorem readFrom_closing :
    d.readFrom rule offset ('\x7d' :: text) =
      d.accept rule ⟨offset, .closing⟩ >>= fun e => e.readFrom rule (offset + 1) text :=
  readFrom_piece (.closing text)

/-- What begins no lexeme is not read. -/
theorem readFrom_stray (hsep : isSeparator c = false) (hopen : c ≠ '\x7b') (hclose : c ≠ '\x7d')
    (hword : isWordChar c = false) :
    d.readFrom rule offset (c :: text) = .error (.stray offset ((c :: text).take excerptLength)) := by
  rw [readFrom, lexemesFrom_stray hsep hopen hclose hword]
  rfl

end Draft

end Notation

end RobotPuzzle
