import Mathlib.Data.List.TakeWhile
import RobotPuzzle.Toml.Quoted
import RobotPuzzle.Toml.Writing

/-!
# Reading written strings

A string is written in one of four forms, and read from any of them as it was. Inside its marks it is made up
of texts that each stand for one character. On several lines the end is sought at every run of marks, so no
run inside may be as long as the three marks of the end; a run right before the end goes on in it.

## Main definitions

- `Toml.Spells` — a text that stands for a character
- `Toml.Spelled` — a text that stands for the characters of a string on several lines

## Main statements

- `Toml.Spelled.readLines?` — the string is read up to its end
- `Toml.readString?_writtenString` — every string is read from the form it is written in
-/

namespace RobotPuzzle.Toml

variable {escapes lines : Bool} {mark c : Char} {cs text content rest done : List Char} {fuel : Nat}

/-! ## Characters -/

/-- All but control characters may stand as they are. -/
theorem isPlain_of_isControl_eq_false (hcontrol : isControl c = false) (hbreak : c ≠ '\n') :
    isPlain c = true := by
  rw [isControl, Bool.or_eq_false_iff] at hcontrol
  obtain ⟨hlow, hdelete⟩ := hcontrol
  by_cases htab : c = '\t'
  · rw [htab]
    rfl
  · have hle : 32 ≤ c.toNat := by simpa [htab, hbreak] using hlow
    have hne : c.toNat ≠ 127 := fun h => by
      have : c = '\x7f' := Char.toNat_inj.1 h
      simp [this] at hdelete
    simp [isPlain, hle, hne]

theorem ne_of_isPlain (h : isPlain c = true) : c ≠ '\n' ∧ c ≠ '\r' :=
  ⟨by rintro rfl; revert h; decide, by rintro rfl; revert h; decide⟩

theorem toNat_lt_of_isControl (h : isControl c = true) : c.toNat < 128 := by
  simp only [isControl, Bool.or_eq_true, Bool.and_eq_true, decide_eq_true_eq, beq_iff_eq] at h
  rcases h with h | rfl
  · omega
  · decide

theorem digitIn?_upperHexDigit : ∀ n < 16, digitIn? 16 (upperHexDigit n) = some n := by
  decide

/-- A character is read from the digits of its number. -/
theorem readCode?_append {code : List Char} {digits : List Nat} (hdigits : code.mapM (digitIn? 16) = some digits)
    (hcode : digits.foldl (fun n d => n * 16 + d) 0 = c.toNat) (rest : List Char) :
    readCode? code.length (code ++ rest) = some (c, rest) := by
  have hlong : ¬ (code ++ rest).length < code.length := by simp
  rw [readCode?, if_neg hlong, List.take_left, List.drop_left, hdigits, Option.bind_eq_bind, Option.bind_some]
  dsimp only
  generalize digits.foldl (fun n d => n * 16 + d) 0 = number at hcode
  subst number
  exact dif_pos c.valid

theorem readCode?_upperHexDigit (hsmall : c.toNat < 256) (rest : List Char) :
    readCode? 4 ('0' :: '0' :: upperHexDigit (c.toNat / 16) :: upperHexDigit (c.toNat % 16) :: rest)
      = some (c, rest) := by
  have hzero : digitIn? 16 '0' = some 0 := rfl
  have hhigh := digitIn?_upperHexDigit (c.toNat / 16) (by omega)
  have hlow := digitIn?_upperHexDigit (c.toNat % 16) (by omega)
  have hdigits : ['0', '0', upperHexDigit (c.toNat / 16), upperHexDigit (c.toNat % 16)].mapM (digitIn? 16) =
      some [0, 0, c.toNat / 16, c.toNat % 16] := by
    simp [hzero, hhigh, hlow]
  have hcode : [0, 0, c.toNat / 16, c.toNat % 16].foldl (fun n d => n * 16 + d) 0 = c.toNat := by
    simp only [List.foldl_cons, List.foldl_nil]
    omega
  exact readCode?_append hdigits hcode rest

/-- A text that stands for a character in a string. -/
inductive Spells (escapes lines : Bool) (c : Char) : List Char → Prop
  | plain (h : isPlain c = true) (hbackslash : escapes = true → c ≠ '\\') : Spells escapes lines c [c]
  | lineBreak (h : c = '\n') (hlines : lines = true) : Spells escapes lines c [c]
  | escape {code : List Char} (h : ∀ rest, readEscape? (code ++ rest) = some (c, rest))
    (hbreak : ∀ rest, skipEscapedBreak? (code ++ rest) = none) (hescapes : escapes = true) :
    Spells escapes lines c ('\\' :: code)

theorem spells_escapedChar (lines : Bool) (c : Char) : Spells true lines c (escapedChar lines c) := by
  unfold escapedChar
  split
  · subst c
    exact .escape (fun _ => rfl) (fun _ => rfl) rfl
  split
  · subst c
    exact .escape (fun _ => rfl) (fun _ => rfl) rfl
  split
  · subst c
    cases lines
    · exact .escape (fun _ => rfl) (fun _ => rfl) rfl
    · exact .lineBreak rfl rfl
  split
  · subst c
    exact .escape (fun _ => rfl) (fun _ => rfl) rfl
  split
  · subst c
    exact .escape (fun _ => rfl) (fun _ => rfl) rfl
  split
  · subst c
    exact .escape (fun _ => rfl) (fun _ => rfl) rfl
  split
  · rename_i hcontrol
    have hsmall := toNat_lt_of_isControl hcontrol
    exact .escape (fun rest => readCode?_upperHexDigit (by omega) rest) (fun _ => rfl) rfl
  · rename_i hbreak _ _ hbackslash hcontrol
    exact .plain (isPlain_of_isControl_eq_false (by simpa using hcontrol) hbreak) fun _ => hbackslash

theorem spells_escapedQuote (lines : Bool) : Spells true lines '"' ['\\', '"'] :=
  .escape (fun _ => rfl) (fun _ => rfl) rfl

theorem Spells.ne_nil (h : Spells escapes lines c text) : text ≠ [] := by
  cases h <;> exact List.cons_ne_nil _ _

/-- The text begins with its character, or with a backslash. -/
theorem Spells.head? (h : Spells escapes lines c text) : text.head? = some c ∨ text.head? = some '\\' := by
  cases h with
  | plain | lineBreak => exact Or.inl rfl
  | escape => exact Or.inr rfl

/-! ## Strings on one line -/

theorem Spells.readBasic? (h : Spells true false c text) (hquote : text.head? ≠ some '"') :
    readBasic? (fuel + 1) done (text ++ rest) = readBasic? fuel (c :: done) rest := by
  cases h with
  | plain h hbackslash =>
    have hne : c ≠ '"' := by simpa using hquote
    simp [Toml.readBasic?, hbackslash, h]
  | lineBreak h hlines => cases hlines
  | escape h hbreak hescapes =>
    rw [List.cons_append, Toml.readBasic?, h]
    rfl

theorem length_le_escapedContent (lines : Bool) (free run : Nat) (cs : List Char) :
    cs.length ≤ (escapedContent lines free run cs).length := by
  induction cs generalizing run with
  | nil => exact Nat.le_refl 0
  | cons c cs ih =>
    have htext := List.length_pos_iff.2 (spells_escapedChar lines c).ne_nil
    have hraw := ih (run + 1)
    have hbroken := ih 0
    rw [escapedContent]
    split
    · split <;> simp only [List.length_cons] <;> omega
    · rw [List.length_cons, List.length_append]
      omega

/-- All quotes are escaped if none may stand as it is. -/
theorem readBasic?_escapedContent (hfuel : cs.length < fuel) :
    readBasic? fuel done (escapedContent false 0 0 cs ++ '"' :: rest) = some (done.reverse ++ cs, rest) := by
  induction cs generalizing fuel done with
  | nil =>
    obtain ⟨fuel, rfl⟩ := Nat.exists_eq_succ_of_ne_zero (Nat.ne_of_gt hfuel)
    simp [escapedContent, readBasic?]
  | cons c cs ih =>
    obtain ⟨fuel, rfl⟩ := Nat.exists_eq_succ_of_ne_zero (Nat.ne_of_gt (Nat.zero_lt_of_lt hfuel))
    have hrest : readBasic? fuel (c :: done) (escapedContent false 0 0 cs ++ '"' :: rest) =
        some (done.reverse ++ c :: cs, rest) := by
      rw [ih (Nat.lt_of_succ_lt_succ hfuel), List.reverse_cons, List.append_assoc, List.singleton_append]
    rw [escapedContent]
    split
    · subst c
      rw [if_neg (Nat.lt_irrefl 0), ← hrest]
      exact (spells_escapedQuote false).readBasic? (by decide)
    · rename_i hquote
      rw [List.append_assoc, (spells_escapedChar false c).readBasic?, hrest]
      rcases (spells_escapedChar false c).head? with h | h
      · simpa [h] using hquote
      · simp [h]

theorem readLiteral?_of_notMem (hcs : '\'' ∉ cs) (hplain : ∀ c ∈ cs, isPlain c = true) :
    readLiteral? (cs ++ '\'' :: rest) = some (cs, rest) := by
  have hmarks : ∀ c ∈ cs, (c != '\'') = true := fun c hc => by
    simpa using ne_of_mem_of_not_mem hc hcs
  rw [readLiteral?, List.takeWhile_append_of_pos hmarks, List.dropWhile_append_of_pos hmarks]
  simpa using hplain

/-! ## Strings on several lines -/

/-- The end of a string is found at a run of marks that goes on in it, and not at a shorter run before it. -/
theorem closing?_append (hrun : (content.takeWhile (· == mark)).length ≤ 2) (hrest : rest.head? ≠ some mark) :
    closing? mark (content ++ (List.replicate 3 mark ++ rest)) =
      if content.all (· == mark) then some (content.length, rest) else none := by
  by_cases hall : content.all (· == mark) = true
  · have hcontent : ∀ c ∈ content, (c == mark) = true := List.all_eq_true.1 hall
    have hmarks : ∀ c ∈ List.replicate 3 mark, (c == mark) = true := by simp
    have hend : rest.takeWhile (· == mark) = [] := by
      cases rest with
      | nil => rfl
      | cons c rest => exact List.takeWhile_cons_of_neg (by simpa using hrest)
    have hlength : content.length ≤ 2 := by
      rwa [List.takeWhile_eq_self_iff.2 hcontent] at hrun
    have hthree : ¬ content.length + 3 < 3 := by omega
    have hinside : min (content.length + 3 - 3) 2 = content.length := by omega
    rw [closing?, List.takeWhile_append_of_pos hcontent, List.takeWhile_append_of_pos hmarks, hend, if_pos hall]
    simp only [List.append_nil, List.length_append, List.length_replicate, if_neg hthree, hinside]
    rw [← List.append_assoc, List.drop_left' (by simp)]
  · have hshort : (content.takeWhile (· == mark)).length ≠ content.length := fun h =>
      hall (List.all_eq_true.2 (List.takeWhile_eq_self_iff.1 ((List.takeWhile_prefix _).eq_of_length h)))
    rw [closing?, List.takeWhile_append, if_neg hshort, if_neg hall]
    exact if_pos (Nat.lt_succ_of_le hrun)

/-- A text that stands for the characters of a string on several lines. -/
inductive Spelled (mark : Char) (escapes : Bool) : List Char → List Char → Prop
  | nil : Spelled mark escapes [] []
  | cons {c : Char} {text cs content : List Char} (h : Spells escapes true c text)
    (hrun : ((text ++ content).takeWhile (· == mark)).length ≤ 2) (hrest : Spelled mark escapes cs content) :
    Spelled mark escapes (c :: cs) (text ++ content)

theorem Spells.readLines? (h : Spells escapes true c text) (hclosing : closing? mark (text ++ rest) = none) :
    readLines? mark escapes (fuel + 1) done (text ++ rest) = readLines? mark escapes fuel (c :: done) rest := by
  rw [Toml.readLines?.eq_def]
  dsimp only
  rw [hclosing]
  dsimp only
  cases h with
  | plain h hbackslash =>
    obtain ⟨hbreak, hreturn⟩ := ne_of_isPlain h
    have hescape : ¬ (c = '\\' && escapes) = true := by
      simp only [Bool.and_eq_true, decide_eq_true_eq, not_and]
      exact fun h hescapes => hbackslash hescapes h
    rw [List.singleton_append]
    split
    · contradiction
    · exact absurd (List.cons.inj ‹_›).1 hbreak
    · exact absurd (List.cons.inj ‹_›).1 hreturn
    · obtain ⟨rfl, rfl⟩ := List.cons.inj ‹_›
      rw [if_neg hescape, if_pos h]
  | lineBreak h hlines =>
    subst c
    rfl
  | escape h hbreak hescapes =>
    subst escapes
    simp [h, hbreak]

theorem skipFirstBreak_cons (hc : c ≠ '\n' ∧ c ≠ '\r') (rest : List Char) :
    skipFirstBreak (c :: rest) = c :: rest := by
  unfold skipFirstBreak
  split
  · exact absurd (List.cons.inj ‹_›).1 hc.1
  · exact absurd (List.cons.inj ‹_›).1 hc.2
  · rfl

namespace Spelled

theorem length_le (h : Spelled mark escapes cs content) : cs.length ≤ content.length := by
  induction h with
  | nil => exact Nat.le_refl 0
  | cons h hrun hrest ih =>
    have htext := List.length_pos_iff.2 h.ne_nil
    rw [List.length_cons, List.length_append]
    omega

/-- A text of nothing but marks stands for itself. -/
theorem eq_of_all (h : Spelled mark escapes cs content) (hmark : mark ≠ '\\') (hall : ∀ x ∈ content, x = mark) :
    content = cs := by
  induction h with
  | nil => rfl
  | cons h hrun hrest ih =>
    rw [List.forall_mem_append] at hall
    rw [ih hall.2]
    cases h with
    | plain | lineBreak => rfl
    | escape => exact absurd (hall.1 '\\' List.mem_cons_self).symm hmark

/-- The string is read up to its end. -/
theorem readLines? (h : Spelled mark escapes cs content) (hmark : mark ≠ '\\') (hrest : rest.head? ≠ some mark)
    (hfuel : cs.length < fuel) :
    readLines? mark escapes fuel done (content ++ (List.replicate 3 mark ++ rest)) =
      some (done.reverse ++ cs, rest) := by
  induction h generalizing fuel done with
  | nil =>
    obtain ⟨fuel, rfl⟩ := Nat.exists_eq_succ_of_ne_zero (Nat.ne_of_gt hfuel)
    have hclosing : closing? mark ([] ++ (List.replicate 3 mark ++ rest)) = some (0, rest) :=
      closing?_append (Nat.zero_le 2) hrest
    rw [Toml.readLines?.eq_def]
    dsimp only
    rw [hclosing]
    rfl
  | @cons c text cs content h hrun hrest' ih =>
    obtain ⟨fuel, rfl⟩ := Nat.exists_eq_succ_of_ne_zero (Nat.ne_of_gt (Nat.zero_lt_of_lt hfuel))
    have hclosing := closing?_append hrun hrest
    by_cases hall : (text ++ content).all (· == mark) = true
    · -- the run goes on in the three marks of the end
      rw [if_pos hall] at hclosing
      have hmarks : ∀ x ∈ text ++ content, x = mark := fun x hx => by simpa using List.all_eq_true.1 hall x hx
      rw [Toml.readLines?.eq_def]
      dsimp only
      rw [hclosing, ← (Spelled.cons h hrun hrest').eq_of_all hmark hmarks]
      dsimp only
      rw [← List.eq_replicate_of_mem hmarks]
    · rw [if_neg hall, List.append_assoc] at hclosing
      rw [List.append_assoc, h.readLines? hclosing, ih (Nat.lt_of_succ_lt_succ hfuel), List.reverse_cons,
        List.append_assoc, List.singleton_append]

/-- No line break stands at the start if there is none in the string. -/
theorem skipFirstBreak_append (h : Spelled mark escapes cs content) (hbreaks : '\n' ∉ cs)
    (hmark : mark ≠ '\n' ∧ mark ≠ '\r') :
    skipFirstBreak (content ++ (List.replicate 3 mark ++ rest)) = content ++ (List.replicate 3 mark ++ rest) := by
  cases h with
  | nil => exact skipFirstBreak_cons hmark _
  | cons h hrun hrest =>
    cases h with
    | plain h => exact skipFirstBreak_cons (ne_of_isPlain h) _
    | lineBreak h => exact absurd (h ▸ List.mem_cons_self) hbreaks
    | escape => exact skipFirstBreak_cons (by decide) _

end Spelled

theorem Spells.takeWhile_eq_nil (h : Spells escapes lines c text) (hc : c ≠ mark) (hmark : mark ≠ '\\') :
    (text ++ rest).takeWhile (· == mark) = [] := by
  cases h with
  | plain | lineBreak => exact List.takeWhile_cons_of_neg (by simpa using hc)
  | escape => exact List.takeWhile_cons_of_neg (by simpa using hmark.symm)

theorem leading_escapedContent_le {run : Nat} (hrun : run ≤ 2) (cs : List Char) :
    run + ((escapedContent true 2 run cs).takeWhile (· == '"')).length ≤ 2 := by
  induction cs generalizing run with
  | nil => exact hrun
  | cons c cs ih =>
    rw [escapedContent]
    split
    · split
      · rename_i hfree
        have hrest := ih (show run + 1 ≤ 2 from hfree)
        rw [List.takeWhile_cons_of_pos rfl, List.length_cons]
        omega
      · exact hrun
    · rename_i hquote
      rw [(spells_escapedChar true c).takeWhile_eq_nil hquote (by decide)]
      exact hrun

theorem spelled_escapedContent {run : Nat} (hrun : run ≤ 2) (cs : List Char) :
    Spelled '"' true cs (escapedContent true 2 run cs) := by
  induction cs generalizing run with
  | nil => exact .nil
  | cons c cs ih =>
    have hleading := leading_escapedContent_le hrun (c :: cs)
    rw [escapedContent] at hleading ⊢
    by_cases hquote : c = '"'
    · rw [if_pos hquote] at hleading ⊢
      subst c
      by_cases hfree : run < 2
      · rw [if_pos hfree] at hleading ⊢
        have hquote : Spells true true '"' ['"'] := .plain rfl (by decide)
        exact .cons hquote (Nat.le_of_add_left_le hleading) (ih hfree)
      · rw [if_neg hfree] at hleading ⊢
        exact .cons (spells_escapedQuote true) (Nat.le_of_add_left_le hleading) (ih (Nat.zero_le 2))
    · rw [if_neg hquote] at hleading ⊢
      exact .cons (spells_escapedChar true c) (Nat.le_of_add_left_le hleading) (ih (Nat.zero_le 2))

/-! ## Runs -/

/-- The longest run so far, and the run that may go on: one step of `longestRun`. -/
def countRun (mark : Char) (runs : Nat × Nat) (c : Char) : Nat × Nat :=
  if c = mark then (max runs.1 (runs.2 + 1), runs.2 + 1) else (runs.1, 0)

/-- The longest run is as long as the longest before it, and as the run at the start with what it goes on. -/
theorem le_foldl_countRun (mark : Char) (runs : Nat × Nat) (cs : List Char) :
    runs.1 ≤ (cs.foldl (countRun mark) runs).1 ∧
      runs.2 + (cs.takeWhile (· == mark)).length ≤ max runs.2 (cs.foldl (countRun mark) runs).1 := by
  induction cs generalizing runs with
  | nil => exact ⟨Nat.le_refl _, Nat.le_max_left _ _⟩
  | cons c cs ih =>
    obtain ⟨hlongest, hleading⟩ := ih (countRun mark runs c)
    rw [List.foldl_cons]
    by_cases hc : c = mark
    · rw [countRun, if_pos hc] at hlongest hleading ⊢
      rw [List.takeWhile_cons_of_pos (by simpa using hc), List.length_cons]
      omega
    · rw [countRun, if_neg hc] at hlongest hleading ⊢
      rw [List.takeWhile_cons_of_neg (by simpa using hc), List.length_nil]
      omega

theorem notMem_of_foldl_countRun_eq_zero {runs : Nat × Nat} (h : (cs.foldl (countRun mark) runs).1 = 0) :
    mark ∉ cs := by
  induction cs generalizing runs with
  | nil => exact List.not_mem_nil
  | cons c cs ih =>
    rw [List.foldl_cons] at h
    have hlongest := (le_foldl_countRun mark (countRun mark runs c) cs).1
    refine List.not_mem_cons_of_ne_of_not_mem ?_ (ih h)
    rintro rfl
    rw [h, countRun, if_pos rfl] at hlongest
    omega

/-- A string is written as it stands where it has no control characters and no long run of marks. -/
theorem spelled_self {runs : Nat × Nat} (hcontrol : ∀ c ∈ cs, isControl c = false)
    (hruns : (cs.foldl (countRun mark) runs).1 ≤ 2) : Spelled mark false cs cs := by
  induction cs generalizing runs with
  | nil => exact .nil
  | cons c cs ih =>
    rw [List.forall_mem_cons] at hcontrol
    have hleading := (le_foldl_countRun mark runs (c :: cs)).2
    have hc : Spells false true c [c] := by
      by_cases hbreak : c = '\n'
      · exact .lineBreak hbreak rfl
      · exact .plain (isPlain_of_isControl_eq_false hcontrol.1 hbreak) nofun
    exact .cons hc (by rw [List.singleton_append]; omega) (ih hcontrol.2 hruns)

/-! ## The forms of a string -/

/-- Three marks do not begin a string on one line, be it empty, if no further mark comes after it. -/
theorem not_tripled {tail : List Char} (hcontent : content.head? ≠ some mark) (hrest : rest.head? ≠ some mark) :
    content ++ mark :: rest ≠ mark :: mark :: tail := by
  rintro h
  cases content with
  | nil =>
    rw [List.nil_append] at h
    rw [(List.cons.inj h).2] at hrest
    exact hrest rfl
  | cons c content =>
    rw [(List.cons.inj h).1] at hcontent
    exact hcontent rfl

theorem readString?_basicString (cs : List Char) (hrest : rest.head? ≠ some '"') :
    readString? (basicString cs ++ rest) = some (cs, rest) := by
  have hhead : (escapedContent false 0 0 cs).head? ≠ some '"' := by
    cases cs with
    | nil => nofun
    | cons c cs =>
      rw [escapedContent]
      split
      · simp
      · rename_i hquote
        rcases (spells_escapedChar false c).head? with h | h
        · simpa [List.head?_append, h] using hquote
        · simp [List.head?_append, h]
  have hform : basicString cs ++ rest = '"' :: (escapedContent false 0 0 cs ++ '"' :: rest) := by
    simp [basicString]
  rw [hform]
  unfold readString?
  split
  · exact absurd (List.cons.inj ‹_›).2 (not_tripled hhead hrest)
  · cases (List.cons.inj ‹_›).1
  · have hlength := length_le_escapedContent false 0 0 cs
    refine readBasic?_escapedContent ?_
    rw [List.length_append]
    omega

theorem readString?_literalString (hmark : '\'' ∉ cs) (hplain : ∀ c ∈ cs, isPlain c = true)
    (hrest : rest.head? ≠ some '\'') : readString? (literalString cs ++ rest) = some (cs, rest) := by
  have hhead : cs.head? ≠ some '\'' := fun h => hmark (List.mem_of_mem_head? h)
  have hform : literalString cs ++ rest = '\'' :: (cs ++ '\'' :: rest) := by
    simp [literalString]
  rw [hform]
  unfold readString?
  split
  · cases (List.cons.inj ‹_›).1
  · exact absurd (List.cons.inj ‹_›).2 (not_tripled hhead hrest)
  · exact readLiteral?_of_notMem hmark hplain

/-- A string on several lines is read from what stands behind its first three marks. The line break that is
added there if the string has one is skipped. -/
theorem Spelled.readLines?_skipFirstBreak (h : Spelled mark escapes cs content) (hmark : mark = '"' ∨ mark = '\'')
    (hrest : rest.head? ≠ some mark) :
    let text := (if cs.contains '\n' then ['\n'] else []) ++ (content ++ (List.replicate 3 mark ++ rest))
    Toml.readLines? mark escapes (text.length + 1) [] (skipFirstBreak text) = some (cs, rest) := by
  intro text
  have hne : mark ≠ '\\' ∧ mark ≠ '\n' ∧ mark ≠ '\r' := by rcases hmark with rfl | rfl <;> decide
  have hskip : skipFirstBreak text = content ++ (List.replicate 3 mark ++ rest) := by
    by_cases hbreaks : '\n' ∈ cs
    · simp [text, hbreaks, skipFirstBreak]
    · have htext : text = content ++ (List.replicate 3 mark ++ rest) := by simp [text, hbreaks]
      rw [htext, h.skipFirstBreak_append hbreaks hne.2]
  have hfuel : cs.length < text.length + 1 := by
    have hle := h.length_le
    simp only [text, List.length_append]
    omega
  rw [hskip, h.readLines? hne.1 hrest hfuel]
  rfl

theorem readString?_basicLines (cs : List Char) (hrest : rest.head? ≠ some '"') :
    readString? (basicLines cs ++ rest) = some (cs, rest) := by
  have hform : basicLines cs ++ rest = '"' :: '"' :: '"' :: ((if cs.contains '\n' then ['\n'] else []) ++
      (escapedContent true 2 0 cs ++ (List.replicate 3 '"' ++ rest))) := by
    simp [basicLines, tripled]
  rw [hform]
  exact (spelled_escapedContent (Nat.zero_le 2) cs).readLines?_skipFirstBreak (Or.inl rfl) hrest

theorem readString?_literalLines (hcontrol : ∀ c ∈ cs, isControl c = false) (hruns : longestRun '\'' cs ≤ 2)
    (hrest : rest.head? ≠ some '\'') : readString? (literalLines cs ++ rest) = some (cs, rest) := by
  have hform : literalLines cs ++ rest = '\'' :: '\'' :: '\'' :: ((if cs.contains '\n' then ['\n'] else []) ++
      (cs ++ (List.replicate 3 '\'' ++ rest))) := by
    simp [literalLines, tripled]
  rw [hform]
  exact (spelled_self hcontrol hruns).readLines?_skipFirstBreak (Or.inr rfl) hrest

/-- Every string is read from the form it is written in, unless one more mark comes after it. -/
theorem readString?_writtenString (cs : List Char) (hquote : rest.head? ≠ some '"')
    (hapostrophe : rest.head? ≠ some '\'') : readString? (writtenString cs ++ rest) = some (cs, rest) := by
  unfold writtenString
  extract_lets controls backslashes breaks quotes apostrophes
  have hplain : controls = false → ∀ c ∈ cs, isControl c = false := by simp [controls]
  split
  · exact readString?_basicString cs hquote
  split
  · rename_i h
    simp only [Bool.and_eq_true, Bool.not_eq_true', decide_eq_true_eq] at h
    obtain ⟨⟨hcontrol, hruns⟩, hbreaks⟩ := h
    refine readString?_literalString (notMem_of_foldl_countRun_eq_zero hruns) (fun c hc => ?_) hapostrophe
    refine isPlain_of_isControl_eq_false (hplain hcontrol c hc) ?_
    rintro rfl
    simp [breaks, hc] at hbreaks
  split
  · exact readString?_basicLines cs hquote
  split
  · rename_i h
    simp only [Bool.and_eq_true, Bool.not_eq_true', decide_eq_true_eq] at h
    exact readString?_literalLines (hplain h.1) h.2 hapostrophe
  split
  · exact readString?_basicLines cs hquote
  · exact readString?_basicString cs hquote

end RobotPuzzle.Toml
