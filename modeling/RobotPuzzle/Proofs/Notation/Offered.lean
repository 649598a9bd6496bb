import RobotPuzzle.Proofs.Notation.Grammar

/-!
# Texts whose counts are offered

A reader may be told which repeat counts are offered. It checks a count where it meets the loop word, before it
has seen the rest of the text, among its other checks. What it reads is nevertheless what the reader of any
counts reads, less the texts with a loop whose count is not offered; and of a text that is only refused for
its counts, the fault is the first loop that is declared with such a count.

## Main definitions

- `Located.declaration?`, `declarations` — the loops that are declared in a text
- `refusal?` — the fault of the first loop whose count is not offered
- `Draft.counts` — the counts of the loops of a draft

## Main statements

- `Draft.foldlM_accept_offered` — both readers go the same way up to the first count that is not offered
- `Draft.counts_of_foldlM_accept` — the loops of a draft are those declared so far
- `readProgram_offered` — the programs and the faults of both readers

## Design notes

Neither of the two readers is the stricter one in the lemmas: a text that is read by any rule is followed by a
reader with the same default and other counts offered.
-/

namespace RobotPuzzle

namespace Notation

variable {rule : CountRule} {default n : Nat} {offered others : Nat → Bool} {text : List Char}
  {f : Forest Unit} {d e : Draft} {l : Located} {ls : List Located} {letters : List Char}
  {digits : Option (List Char)} {offset : Nat}

/-! ## The loops that a text declares -/

/-- The loop that a loop word declares: the count that the word stands for, and where the word is. -/
def Located.declaration? (default : Nat) (l : Located) : Option Pending :=
  match l.lexeme with
  | .word letters digits =>
    if kindOfWord? letters = some .loop then
      some ⟨digits.elim default fun ds => Nat.ofDigitChars 10 ds 0, l.offset⟩
    else none
  | .opening | .closing | .stray _ => none

/-- The loops that are declared in a text, in order. -/
def declarations (default : Nat) (text : List Char) : List Pending :=
  (lexemes text).filterMap (Located.declaration? default)

/-- The fault of the first loop whose count is not offered. -/
def refusal? (offered : Nat → Bool) (ws : List Pending) : Option ReadError :=
  (ws.find? fun w => !offered w.count).map fun w => .countNotOffered w.count w.declared

theorem refusal?_cons (w : Pending) (ws : List Pending) :
    refusal? offered (w :: ws) =
      if offered w.count then refusal? offered ws else some (.countNotOffered w.count w.declared) := by
  rw [refusal?, List.find?_cons]
  cases offered w.count <;> rfl

theorem refusal?_eq_none_iff {ws : List Pending} :
    refusal? offered ws = none ↔ ∀ n ∈ ws.map (·.count), offered n = true := by
  simp [refusal?]

theorem refusal?_eq_some_iff {ws : List Pending} {reason : ReadError} :
    refusal? offered ws = some reason ↔
      ∃ before w after, ws = before ++ w :: after ∧ (∀ v ∈ before, offered v.count = true) ∧
        offered w.count = false ∧ reason = .countNotOffered w.count w.declared := by
  simp only [refusal?, Option.map_eq_some_iff, List.find?_eq_some_iff_append, Bool.not_eq_eq_eq_not,
    Bool.not_true, Bool.not_not]
  constructor
  · rintro ⟨w, ⟨hw, before, after, hws, hbefore⟩, rfl⟩
    exact ⟨before, w, after, hws, hbefore, hw, rfl⟩
  · rintro ⟨before, w, after, hws, hbefore, hw, rfl⟩
    exact ⟨w, ⟨hw, before, after, hws, hbefore⟩, rfl⟩

theorem CountRule.Denotes.eq_elim (h : CountRule.Denotes ⟨default, offered⟩ digits n) :
    digits.elim default (fun ds => Nat.ofDigitChars 10 ds 0) = n := by
  cases digits with
  | none => exact Eq.symm h
  | some ds => exact h.2.1

theorem Located.declaration?_loop (hcalls : Calls letters .loop)
    (hdenotes : CountRule.Denotes ⟨default, offered⟩ digits n) :
    Located.declaration? default ⟨offset, .word letters digits⟩ = some ⟨n, offset⟩ := by
  rw [← hdenotes.eq_elim]
  exact if_pos (kindOfWord?_eq_some_iff.2 hcalls)

theorem Located.declaration?_command {c : Command} (hcalls : Calls letters c.kind) :
    Located.declaration? default ⟨offset, .word letters digits⟩ = none := by
  refine if_neg ?_
  rw [kindOfWord?_eq_some_iff.2 hcalls]
  exact fun hloop => c.kind_ne_loop (Option.some.inj hloop)

namespace Draft

/-- The count of a loop word is read before it is asked whether the count is offered. -/
theorem accept_word_of_not_offered (hpending : d.pending = none) (hcalls : Calls letters .loop)
    (hdenotes : rule.Denotes digits n) (hpos : 1 ≤ n) (hoffered : rule.offered n = false) :
    d.accept rule ⟨offset, .word letters digits⟩ = .error (.countNotOffered n offset) := by
  have hcount : ∃ count, readCount offset digits = .ok count ∧ count.getD rule.default = n := by
    cases digits with
    | none => exact ⟨none, rfl, Eq.symm hdenotes⟩
    | some ds => exact ⟨some n, readCount_eq_ok_iff.2 ⟨n, rfl, hdenotes⟩, rfl⟩
  obtain ⟨count, hread, hn⟩ := hcount
  have hloop : d.accept rule ⟨offset, .word letters digits⟩ =
      readCount offset digits >>= fun count => d.acceptLoop rule count offset := by
    simp only [accept, hpending, acceptWord, kindOfWord?_eq_some_iff.2 hcalls]
    rfl
  rw [hloop, hread]
  change d.acceptLoop rule count offset = _
  rw [acceptLoop, hn, if_neg (Nat.ne_of_gt hpos), if_pos hoffered]

/-! ## Two readers of one text -/

/-- What is taken in is also taken in if other counts are offered, unless it declares a loop whose count is
not. -/
theorem accept_offered (h : d.accept ⟨default, others⟩ l = .ok e) :
    d.accept ⟨default, offered⟩ l =
      (refusal? offered (l.declaration? default).toList).elim (.ok e) .error := by
  obtain ⟨offset, lexeme⟩ := l
  cases lexeme with
  | stray excerpt => cases h
  | opening => exact accept_opening_eq_ok_iff.2 (accept_opening_eq_ok_iff.1 h)
  | closing => exact accept_closing_eq_ok_iff.2 (accept_closing_eq_ok_iff.1 h)
  | word letters digits =>
    obtain ⟨hpending, ⟨c, hcalls, hdigits, he⟩ | ⟨hcalls, n, hgives, rfl⟩⟩ := accept_word_eq_ok_iff.1 h
    · rw [Located.declaration?_command hcalls]
      exact accept_word_eq_ok_iff.2 ⟨hpending, Or.inl ⟨c, hcalls, hdigits, he⟩⟩
    · rw [Located.declaration?_loop hcalls hgives.denotes, Option.toList_some, refusal?_cons]
      cases hoffered : offered n with
      | true =>
        exact accept_word_eq_ok_iff.2
          ⟨hpending, Or.inr ⟨hcalls, n, ⟨hgives.denotes, hgives.pos, hoffered⟩, rfl⟩⟩
      | false => exact accept_word_of_not_offered hpending hcalls hgives.denotes hgives.pos hoffered

/-- Both readers go the same way up to the first loop whose count is not offered, and there one of them
stops. -/
theorem foldlM_accept_offered (h : ls.foldlM (accept ⟨default, others⟩) d = .ok e) :
    ls.foldlM (accept ⟨default, offered⟩) d =
      (refusal? offered (ls.filterMap (Located.declaration? default))).elim (.ok e) .error := by
  induction ls generalizing d with
  | nil =>
    obtain rfl : d = e := Except.ok.inj h
    rfl
  | cons l ls ih =>
    rw [List.foldlM_cons] at h
    obtain ⟨d', haccept, hrest⟩ := exists_of_bind_eq_ok h
    rw [List.foldlM_cons, accept_offered haccept]
    cases hdeclared : l.declaration? default with
    | none =>
      rw [List.filterMap_cons_none hdeclared]
      exact ih hrest
    | some w =>
      rw [List.filterMap_cons_some hdeclared, Option.toList_some, refusal?_cons, refusal?_cons]
      cases offered w.count with
      | true => exact ih hrest
      | false => rfl

/-! ## The loops of a draft -/

/-- The counts of open loops and of what stands before them, outermost first. -/
def openCounts : List OpenLoop → List Nat
  | [] => []
  | inner :: outer => openCounts outer ++ (inner.before.counts ++ [inner.count])

/-- The counts of all loops that have been declared, in order. -/
def counts (d : Draft) : List Nat :=
  openCounts d.loops ++ (d.current.counts ++ d.pending.toList.map (·.count))

theorem counts_of_accept (h : d.accept ⟨default, offered⟩ l = .ok e) :
    e.counts = d.counts ++ (l.declaration? default).toList.map (·.count) := by
  obtain ⟨offset, lexeme⟩ := l
  obtain ⟨loops, current, pending⟩ := d
  cases lexeme with
  | stray excerpt => cases h
  | opening =>
    obtain ⟨p, rfl, rfl⟩ := accept_opening_eq_ok_iff.1 h
    simp [counts, openCounts, Located.declaration?, Forest.counts]
  | closing =>
    obtain ⟨rfl, inner, outer, rfl, rfl⟩ := accept_closing_eq_ok_iff.1 h
    simp [counts, openCounts, Located.declaration?, Forest.counts]
  | word letters digits =>
    obtain ⟨rfl, ⟨c, hcalls, rfl, rfl⟩ | ⟨hcalls, n, hgives, rfl⟩⟩ := accept_word_eq_ok_iff.1 h
    · rw [Located.declaration?_command hcalls]
      simp [counts, Forest.counts]
    · rw [Located.declaration?_loop hcalls hgives.denotes]
      simp [counts]

theorem counts_of_foldlM_accept (h : ls.foldlM (accept ⟨default, offered⟩) d = .ok e) :
    e.counts = d.counts ++ (ls.filterMap (Located.declaration? default)).map (·.count) := by
  induction ls generalizing d with
  | nil =>
    obtain rfl : d = e := Except.ok.inj h
    simp
  | cons l ls ih =>
    rw [List.foldlM_cons] at h
    obtain ⟨d', haccept, hrest⟩ := exists_of_bind_eq_ok h
    rw [ih hrest, counts_of_accept haccept]
    cases hdeclared : l.declaration? default with
    | none => simp [hdeclared]
    | some w => simp [hdeclared]

theorem counts_of_finish (h : d.finish = .ok f) : f.counts = d.counts := by
  obtain ⟨loops, current, pending⟩ := d
  cases pending with
  | some p => cases h
  | none =>
    cases loops with
    | cons inner outer => cases h
    | nil =>
      obtain rfl : current = f := Except.ok.inj h
      simp [counts, openCounts]

end Draft

/-! ## Trees and programs -/

/-- The tree of a text has the loops that the text declares. -/
theorem counts_of_readForest (h : readForest ⟨default, offered⟩ text = .ok f) :
    f.counts = (declarations default text).map (·.count) := by
  obtain ⟨d, hread, hfinish⟩ := exists_of_bind_eq_ok h
  have hempty : Draft.empty.counts = [] := rfl
  rw [Draft.counts_of_finish hfinish, Draft.counts_of_foldlM_accept hread, hempty, List.nil_append]
  rfl

/-- A text that is read by one rule is read alike with other counts offered, up to the first loop whose count
is not among them. -/
theorem readForest_offered (h : readForest ⟨default, others⟩ text = .ok f) :
    readForest ⟨default, offered⟩ text =
      (refusal? offered (declarations default text)).elim (.ok f) .error := by
  obtain ⟨d, hread, hfinish⟩ := exists_of_bind_eq_ok h
  rw [readForest, Draft.foldlM_accept_offered hread, ← declarations]
  cases refusal? offered (declarations default text) with
  | none => exact hfinish
  | some reason => rfl

/-- A tree is read with some counts offered if and only if it is read with any counts and has only those. -/
theorem readForest_offered_eq_ok_iff :
    readForest ⟨default, offered⟩ text = .ok f ↔
      readForest (.free default) text = .ok f ∧ ∀ n ∈ f.counts, offered n = true := by
  constructor
  · intro h
    have hfree : readForest (.free default) text = .ok f := by
      rw [CountRule.free, readForest_offered h, refusal?_eq_none_iff.2 fun _ _ => rfl]
      rfl
    have hrefusal : refusal? offered (declarations default text) = none := by
      cases hrefusal : refusal? offered (declarations default text) with
      | none => rfl
      | some reason =>
        rw [readForest_offered hfree, hrefusal] at h
        cases h
    rw [counts_of_readForest h]
    exact ⟨hfree, refusal?_eq_none_iff.1 hrefusal⟩
  · rintro ⟨hfree, hoffered⟩
    rw [counts_of_readForest hfree] at hoffered
    rw [readForest_offered hfree, refusal?_eq_none_iff.2 hoffered]
    rfl

/-- Building a program of a tree that has been read changes none of its counts. -/
theorem counts_ofForest_of_readForest (h : readForest rule text = .ok f) :
    (Program.ofForest f).forest.counts = f.counts := by
  rw [(readForest_eq_ok_iff.1 h).forest_ofForest, Forest.counts_numberFrom]

/-- With some counts offered, the reader succeeds if and only if the reader of any counts does and every loop
of its program, nested ones included, has a count that is offered; both then give the same program. The loops
of a program are those that its text declares, and where only the offered counts are in the way, the fault is
the first loop of the text whose count is not offered. -/
theorem readProgram_offered (default : Nat) (offered : Nat → Bool) (text : List Char) :
    (∀ q, readProgram ⟨default, offered⟩ text = .ok q ↔
        readProgram (.free default) text = .ok q ∧ ∀ n ∈ q.forest.counts, offered n = true) ∧
      ∀ q, readProgram (.free default) text = .ok q →
        q.forest.counts = (declarations default text).map (·.count) ∧
          ∀ reason, readProgram ⟨default, offered⟩ text = .error reason →
            ∃ before w after, declarations default text = before ++ w :: after ∧
              (∀ v ∈ before, offered v.count = true) ∧ offered w.count = false ∧
                reason = .countNotOffered w.count w.declared := by
  simp only [readProgram_eq_ok_iff_readForest]
  constructor
  · intro q
    constructor
    · rintro ⟨f, hread, rfl⟩
      obtain ⟨hfree, hoffered⟩ := readForest_offered_eq_ok_iff.1 hread
      exact ⟨⟨f, hfree, rfl⟩, counts_ofForest_of_readForest hread ▸ hoffered⟩
    · rintro ⟨⟨f, hfree, rfl⟩, hoffered⟩
      rw [counts_ofForest_of_readForest hfree] at hoffered
      exact ⟨f, readForest_offered_eq_ok_iff.2 ⟨hfree, hoffered⟩, rfl⟩
  · rintro q ⟨f, hread, rfl⟩
    refine ⟨(counts_ofForest_of_readForest hread).trans (counts_of_readForest hread), fun reason hreason => ?_⟩
    rw [readProgram, readForest_offered hread] at hreason
    refine refusal?_eq_some_iff.1 ?_
    cases hrefusal : refusal? offered (declarations default text) with
    | none =>
      rw [hrefusal] at hreason
      cases hreason
    | some fault =>
      rw [hrefusal] at hreason
      exact congrArg some (Except.error.inj hreason)

end Notation

end RobotPuzzle
