import RobotPuzzle.Proofs.Notation.Grammar

/-!
# The earliest fault

A fault of a text names the offset of a lexeme, unless it is that loops are left open at the end. What stands
before that offset has no fault of its own: it is the text of a program or the beginning of one. A beginning
becomes the text of a program with braces alone.

Cutting a text between two lexemes changes neither of them, so the reader does with what stands before such a
place what it does there with the whole text.

## Main definitions

- `ReadError.offset?` — the offset that a fault names
- `ReadError.AtEnd` — the text has not gone wrong but has ended too early
- `ReadError.IsAt` — a lexeme is at fault

## Main statements

- `Draft.readFrom_fault` — what stands before the offset of a fault is taken in
- `exists_closes_replicate` — braces close all loops that are open
- `readProgram_fault` — the earliest fault of a text, and the texts that can still be completed
-/

namespace RobotPuzzle

namespace Notation

/-- The offset that a fault names. -/
def ReadError.offset? : ReadError → Option Nat
  | .stray offset _ | .unexpectedOpening offset | .bodyExpected offset | .unmatchedClosing offset
  | .unknownWord _ offset | .badCount offset _ | .countZero offset | .countNotOffered _ offset
  | .countOnCommand offset | .noBody offset => some offset
  | .unclosed _ => none

/-- The fault is that the text ends: a body is missing or is not closed. -/
def ReadError.AtEnd : ReadError → Prop
  | .noBody _ | .unclosed _ => True
  | .stray .. | .unexpectedOpening _ | .bodyExpected _ | .unmatchedClosing _ | .unknownWord .. | .badCount ..
  | .countZero _ | .countNotOffered .. | .countOnCommand _ => False

/-- The fault is that of a lexeme, and it names this offset. -/
def ReadError.IsAt (reason : ReadError) (offset : Nat) : Prop :=
  reason.offset? = some offset ∧ ¬reason.AtEnd

variable {rule : CountRule} {reason : ReadError} {d e : Draft} {l : Located} {offset N : Nat}
  {text rest : List Char} {digits : Option (List Char)} {p : Pending}

/-! ## The offsets of faults -/

namespace Draft

theorem isAt_of_readCount (h : readCount offset digits = .error reason) : reason.IsAt offset := by
  cases digits with
  | none => cases h
  | some ds =>
    rw [readCount] at h
    split at h
    · cases h
    · obtain rfl := Except.error.inj h
      exact ⟨rfl, id⟩

theorem isAt_of_acceptLoop {count : Option Nat} (h : d.acceptLoop rule count offset = .error reason) :
    reason.IsAt offset := by
  simp only [acceptLoop] at h
  split at h
  · obtain rfl := Except.error.inj h
    exact ⟨rfl, id⟩
  · split at h
    · obtain rfl := Except.error.inj h
      exact ⟨rfl, id⟩
    · cases h

theorem isAt_of_acceptCommand {c : Command} {count : Option Nat}
    (h : d.acceptCommand c count offset = .error reason) : reason.IsAt offset := by
  cases count with
  | none => cases h
  | some n =>
    obtain rfl := Except.error.inj h
    exact ⟨rfl, id⟩

theorem isAt_of_acceptWord {letters : List Char}
    (h : d.acceptWord rule letters digits offset = .error reason) : reason.IsAt offset := by
  unfold acceptWord at h
  split at h
  · obtain rfl := Except.error.inj h
    exact ⟨rfl, id⟩
  · rcases exists_of_bind_eq_error h with hcount | ⟨count, -, haccept⟩
    · exact isAt_of_readCount hcount
    · split at haccept
      · exact isAt_of_acceptLoop haccept
      · exact isAt_of_acceptCommand haccept

/-- A lexeme that is not taken in is named itself, or the loop word before it that waits for its body. -/
theorem isAt_of_accept (h : d.accept rule l = .error reason) :
    reason.IsAt l.offset ∨ ∃ p, d.pending = some p ∧ reason.IsAt p.declared := by
  obtain ⟨offset, lexeme⟩ := l
  obtain ⟨loops, current, pending⟩ := d
  cases pending with
  | some p =>
    cases lexeme with
    | opening => cases h
    | stray excerpt =>
      obtain rfl := Except.error.inj h
      exact Or.inl ⟨rfl, id⟩
    | closing | word =>
      obtain rfl := Except.error.inj h
      exact Or.inr ⟨p, rfl, rfl, id⟩
  | none =>
    left
    cases lexeme with
    | word letters digits => exact isAt_of_acceptWord h
    | stray | opening =>
      obtain rfl := Except.error.inj h
      exact ⟨rfl, id⟩
    | closing =>
      cases loops with
      | cons inner outer => cases h
      | nil =>
        obtain rfl := Except.error.inj h
        exact ⟨rfl, id⟩

/-- A loop word that waits for its body has only just been taken in. -/
theorem declared_of_accept (h : d.accept rule l = .ok e) (hp : e.pending = some p) :
    p.declared = l.offset := by
  obtain ⟨offset, lexeme⟩ := l
  cases lexeme with
  | stray excerpt => cases h
  | opening =>
    obtain ⟨q, hq, rfl⟩ := accept_opening_eq_ok_iff.1 h
    cases hp
  | closing =>
    obtain ⟨hpending, inner, outer, hloops, rfl⟩ := accept_closing_eq_ok_iff.1 h
    rw [hpending] at hp
    cases hp
  | word letters digits =>
    obtain ⟨hpending, ⟨c, -, -, rfl⟩ | ⟨-, n, -, rfl⟩⟩ := accept_word_eq_ok_iff.1 h
    · rw [hpending] at hp
      cases hp
    · obtain rfl := Option.some.inj hp
      rfl

theorem finish_eq_error_iff :
    d.finish = .error reason ↔ (∃ p, d.pending = some p ∧ reason = .noBody p.declared) ∨
      d.pending = none ∧ d.loops ≠ [] ∧ reason = .unclosed d.loops.length := by
  obtain ⟨loops, current, pending⟩ := d
  cases pending with
  | some p => simp [finish, eq_comm]
  | none =>
    by_cases hloops : loops = []
    · simp [finish, hloops]
    · simp [finish, hloops, eq_comm]

theorem atEnd_of_finish (h : d.finish = .error reason) : reason.AtEnd := by
  obtain ⟨p, -, rfl⟩ | ⟨-, -, rfl⟩ := finish_eq_error_iff.1 h <;> trivial

/-- A fault that is found before the text ends is that of a lexeme. -/
theorem not_atEnd_of_readFrom (h : d.readFrom rule offset text = .error reason) : ¬reason.AtEnd := by
  rw [readFrom] at h
  generalize lexemesFrom offset text = ls at h
  induction ls generalizing d with
  | nil => cases h
  | cons l ls ih =>
    rw [List.foldlM_cons] at h
    rcases exists_of_bind_eq_error h with haccept | ⟨e, -, hrest⟩
    · rcases isAt_of_accept haccept with hlexeme | ⟨p, -, hdeclared⟩
      · exact hlexeme.2
      · exact hdeclared.2
    · exact ih hrest

/-- A text at whose end something is missing is taken in to its end. -/
theorem exists_readFrom_of_atEnd (h : d.readFrom rule offset text >>= finish = .error reason)
    (hend : reason.AtEnd) : ∃ e, d.readFrom rule offset text = .ok e ∧ e.finish = .error reason := by
  rcases exists_of_bind_eq_error h with hread | hread
  · exact absurd hend (not_atEnd_of_readFrom hread)
  · exact hread

/-- What a fault names is the loop word that waits for its body at the start of the text, or it stands in the
text, and what is before it is taken in. -/
theorem readFrom_fault (h : d.readFrom rule offset text >>= finish = .error reason)
    (hN : reason.offset? = some N) :
    (∃ p, d.pending = some p ∧ p.declared = N) ∨
      ∃ before after, text = before ++ after ∧ offset + byteLength before = N ∧
        ∃ e, d.readFrom rule offset before = .ok e := by
  induction offset, text using cut_induction generalizing d with
  | nil offset =>
    rw [readFrom_nil] at h
    obtain ⟨p, hp, rfl⟩ | ⟨-, -, rfl⟩ := finish_eq_error_iff.1 h
    · exact Or.inl ⟨p, hp, Option.some.inj hN⟩
    · cases hN
  | separator offset c text hc ih =>
    rw [readFrom_separator hc] at h
    rcases ih h with hpending | ⟨before, after, rfl, hbefore, e, hread⟩
    · exact Or.inl hpending
    · refine Or.inr ⟨c :: before, after, rfl, ?_, e, ?_⟩
      · rw [byteLength_cons, ← Nat.add_assoc, hbefore]
      · rw [readFrom_separator hc, hread]
  | piece offset piece lexeme rest hspells ih =>
    have hhere : N = offset → ∃ before after, piece ++ rest = before ++ after ∧
        offset + byteLength before = N ∧ ∃ e, d.readFrom rule offset before = .ok e :=
      fun heq => ⟨[], piece ++ rest, rfl, heq.symm, d, readFrom_nil⟩
    rw [readFrom_piece hspells, bind_assoc] at h
    rcases exists_of_bind_eq_error h with haccept | ⟨e, haccept, hread⟩
    · rcases isAt_of_accept haccept with hlexeme | ⟨p, hp, hdeclared⟩
      · exact Or.inr (hhere (Option.some.inj (hN.symm.trans hlexeme.1)))
      · exact Or.inl ⟨p, hp, Option.some.inj (hdeclared.1.symm.trans hN)⟩
    · rcases ih hread with ⟨p, hp, hdeclared⟩ | ⟨before, after, rfl, hbefore, e', hread'⟩
      · -- the loop word that waits is this piece
        exact Or.inr (hhere (hdeclared.symm.trans (declared_of_accept haccept hp)))
      · refine Or.inr ⟨piece ++ before, after, (List.append_assoc ..).symm, ?_, e', ?_⟩
        · rw [byteLength_append, ← Nat.add_assoc, hbefore]
        · rw [readFrom_piece hspells.of_append, haccept]
          exact hread'
  | stray offset c text hsep hopen hclose hword =>
    rw [readFrom_stray hsep hopen hclose hword] at h
    obtain rfl := Except.error.inj h
    exact Or.inr ⟨[], c :: text, rfl, Option.some.inj hN, d, readFrom_nil⟩

end Draft

/-! ## Completing a text with braces -/

/-- As many closing braces as loops are open make a tree. -/
theorem exists_closes_replicate (rule : CountRule) (loops : List OpenLoop) (current : Forest Unit) :
    ∃ f, Closes rule f loops current (List.replicate loops.length '\x7d') := by
  induction loops generalizing current with
  | nil => exact ⟨current, .nil, .nil, (Forest.append_nil current).symm⟩
  | cons inner outer ih =>
    obtain ⟨f, hclosed⟩ := ih (inner.before ++ .loop () inner.count (current ++ .nil) .nil)
    exact ⟨f, [], .nil, _, rfl, .nil, hclosed⟩

theorem startsWithBrace_replicate (k : Nat) : StartsWithBrace (List.replicate k '\x7d') := by
  intro x hx
  exact Or.inr (List.eq_of_mem_replicate (List.mem_of_mem_head? hx))

/-- What is missing at the end of a text may follow it, if that begins with a brace. -/
theorem readForest_append_of_yields {f : Forest Unit} (h : Draft.empty.readFrom rule 0 text = .ok d)
    (hrest : StartsWithBrace rest) (hyields : d.Yields rule f rest) : readForest rule (text ++ rest) = .ok f := by
  rw [readForest_eq_readFrom, Draft.readFrom_append h hrest]
  exact Draft.readFrom_eq_ok_iff.2 hyields

/-- A text whose loops are not all closed is completed by closing them. -/
theorem readForest_closed {k : Nat} (h : readForest rule text = .error (.unclosed k)) :
    ∃ f, readForest rule (text ++ List.replicate k '\x7d') = .ok f := by
  obtain ⟨⟨loops, current, pending⟩, hread, hfinish⟩ := Draft.exists_readFrom_of_atEnd h trivial
  obtain ⟨p, -, hreason⟩ | ⟨rfl, -, hreason⟩ := Draft.finish_eq_error_iff.1 hfinish
  · cases hreason
  · obtain rfl := ReadError.unclosed.inj hreason
    obtain ⟨f, hclosed⟩ := exists_closes_replicate rule loops current
    exact ⟨f, readForest_append_of_yields hread (startsWithBrace_replicate _) hclosed⟩

/-- A text that ends before a body is due is completed by an empty body, if the loops around it are closed. -/
theorem readForest_given_body {declared : Nat} (h : readForest rule text = .error (.noBody declared)) :
    ∃ k f, readForest rule (text ++ '\x7b' :: List.replicate k '\x7d') = .ok f := by
  obtain ⟨⟨loops, current, pending⟩, hread, hfinish⟩ := Draft.exists_readFrom_of_atEnd h trivial
  obtain ⟨p, rfl, -⟩ | ⟨-, -, hreason⟩ := Draft.finish_eq_error_iff.1 hfinish
  · obtain ⟨f, hclosed⟩ := exists_closes_replicate rule (⟨p.count, current⟩ :: loops) .nil
    have hopening : StartsWithBrace ('\x7b' :: List.replicate (loops.length + 1) '\x7d') :=
      fun x hx => Or.inl (Option.some.inj hx).symm
    exact ⟨_, f, readForest_append_of_yields hread hopening ⟨[], _, by simp, rfl, hclosed⟩⟩
  · cases hreason

/-! ## The order of offsets -/

/-- The offsets of lexemes grow and stay within the text. -/
theorem lexemesFrom_offsets (offset : Nat) (text : List Char) :
    (lexemesFrom offset text).Pairwise (·.offset < ·.offset) ∧
      ∀ l ∈ lexemesFrom offset text, offset ≤ l.offset ∧ l.offset < offset + byteLength text := by
  induction offset, text using cut_induction with
  | nil offset =>
    rw [lexemesFrom]
    simp
  | separator offset c text hc ih =>
    rw [lexemesFrom_separator hc]
    refine ⟨ih.1, fun l hl => ?_⟩
    have := ih.2 l hl
    rw [byteLength_cons]
    omega
  | piece offset piece lexeme rest hspells ih =>
    have hpos := hspells.byteLength_pos
    rw [lexemesFrom_piece hspells, List.pairwise_cons, List.forall_mem_cons, byteLength_append]
    refine ⟨⟨fun l hl => ?_, ih.1⟩, ?_, fun l hl => ?_⟩
    · have := ih.2 l hl
      dsimp only
      omega
    · dsimp only
      omega
    · have := ih.2 l hl
      omega
  | stray offset c text hsep hopen hclose hword =>
    have := c.utf8Size_pos
    rw [lexemesFrom_stray hsep hopen hclose hword, byteLength_cons]
    simp
    omega

/-! ## Programs -/

/-- A program has the faults of its tree. -/
theorem readProgram_eq_error_iff :
    readProgram rule text = .error reason ↔ readForest rule text = .error reason := by
  rw [readProgram]
  cases readForest rule text <;> simp [Except.map]

/-- The reader reports the earliest fault. An offset that a fault names is where a character of the text or its
end is, and what stands before it either is read or only ends too early. A text that leaves loops open is read
when they are closed, and one whose last loop has no body is read when an empty body follows and the loops
around it are closed. Every lexeme takes up at least one byte of the text. -/
theorem readProgram_fault (rule : CountRule) (text : List Char) :
    (∀ reason N, readProgram rule text = .error reason → reason.offset? = some N →
        ∃ before after, text = before ++ after ∧ byteLength before = N ∧
          ∀ other, readProgram rule before = .error other → other.AtEnd) ∧
      (∀ k, readProgram rule text = .error (.unclosed k) →
        ∃ q, readProgram rule (text ++ List.replicate k '\x7d') = .ok q) ∧
      (∀ declared, readProgram rule text = .error (.noBody declared) →
        ∃ k q, readProgram rule (text ++ '\x7b' :: List.replicate k '\x7d') = .ok q) ∧
      (lexemes text).Pairwise (·.offset < ·.offset) ∧ ∀ l ∈ lexemes text, l.offset < byteLength text := by
  simp only [readProgram_eq_error_iff]
  refine ⟨fun reason N h hN => ?_, fun k h => ?_, fun declared h => ?_, (lexemesFrom_offsets 0 text).1,
    fun l hl => ?_⟩
  · rcases Draft.readFrom_fault h hN with ⟨p, hp, -⟩ | ⟨before, after, htext, hbefore, e, hread⟩
    · cases hp
    · refine ⟨before, after, htext, (Nat.zero_add _).symm.trans hbefore, fun other hother => ?_⟩
      have hfinish : e.finish = .error other := by
        rwa [readForest_eq_readFrom, hread] at hother
      exact Draft.atEnd_of_finish hfinish
  · obtain ⟨f, hread⟩ := readForest_closed h
    exact ⟨_, readProgram_eq_ok_iff_readForest.2 ⟨f, hread, rfl⟩⟩
  · obtain ⟨k, f, hread⟩ := readForest_given_body h
    exact ⟨k, _, readProgram_eq_ok_iff_readForest.2 ⟨f, hread, rfl⟩⟩
  · have hoffset := (lexemesFrom_offsets 0 text).2 l hl
    omega

end Notation

end RobotPuzzle
