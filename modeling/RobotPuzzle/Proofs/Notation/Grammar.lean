import RobotPuzzle.Proofs.Notation.Acceptance
import RobotPuzzle.Proofs.Program.Planting

/-!
# The grammar of the notation

A text of the notation is a sequence of separators, of words that call commands, and of loop words with a
body in braces. The grammar says so by derivations, each of which stands for a tree; it knows nothing of
offsets, of open loops or of an order of checks.

The reader succeeds on exactly the texts that have a derivation, and what it reads is the tree that the
derivation stands for.

## Main definitions

- `Derives` — a text has a derivation that stands for a tree
- `Closes`, `Draft.Yields` — what the rest of a text has to be for a draft to become a tree

## Main statements

- `Draft.readFrom_append` — a text is read before a brace as it is read alone
- `Derives.readFrom` — a derivation is read, whatever has been read before
- `Draft.readFrom_eq_ok_iff` — reading on succeeds if and only if the rest of the text is as demanded
- `readForest_eq_ok_iff` — the reader reads the trees of derivations
- `readProgram_iff_derives` — the same for programs, whose ids follow the order of the text

## Design notes

The words of `Derives.loop` need no clause about where they end: what may follow them is no part of a word.
-/

namespace RobotPuzzle

namespace Notation

/-- The text has a derivation, which stands for the tree. -/
inductive Derives (rule : CountRule) : List Char → Forest Unit → Prop
  | nil : Derives rule [] .nil
  | separator {c : Char} {text : List Char} {f : Forest Unit} (hc : isSeparator c = true)
      (h : Derives rule text f) : Derives rule (c :: text) f
  | command {word text : List Char} {c : Command} {f : Forest Unit}
      (hword : ∀ x ∈ word, isWordChar x = true) (hend : ∀ x ∈ text.head?, isWordChar x = false)
      (hcalls : Calls word c.kind) (h : Derives rule text f) :
      Derives rule (word ++ text) (.command () c f)
  | loop {word seps inside text : List Char} {digits : Option (List Char)} {n : Nat} {body f : Forest Unit}
      (hword : ∀ x ∈ word, isWordChar x = true) (hcalls : Calls word .loop) (hcount : rule.Gives digits n)
      (hseps : ∀ x ∈ seps, isSeparator x = true) (hbody : Derives rule inside body)
      (h : Derives rule text f) :
      Derives rule (word ++ (countText digits ++ (seps ++ '\x7b' :: (inside ++ '\x7d' :: text))))
        (.loop () n body f)

variable {rule : CountRule} {text rest : List Char} {f g : Forest Unit} {d e : Draft} {offset : Nat}

/-! ## What is derived is read -/

/-- A text is read before a brace as it is read alone. -/
theorem Draft.readFrom_append (h : d.readFrom rule offset text = .ok e) (hrest : StartsWithBrace rest) :
    d.readFrom rule offset (text ++ rest) = e.readFrom rule (offset + byteLength text) rest := by
  induction offset, text using cut_induction generalizing d with
  | nil offset =>
    rw [readFrom_nil] at h
    obtain rfl := Except.ok.inj h
    rfl
  | separator offset c text hc ih =>
    rw [readFrom_separator hc] at h
    rw [List.cons_append, readFrom_separator hc, ih h, byteLength_cons, Nat.add_assoc]
  | piece offset piece lexeme text hspells ih =>
    rw [readFrom_piece hspells] at h
    obtain ⟨d', haccept, hread⟩ := exists_of_bind_eq_ok h
    rw [List.append_assoc, readFrom_piece (hspells.append hrest), haccept, byteLength_append, ← Nat.add_assoc]
    exact ih hread
  | stray offset c text hsep hopen hclose hword =>
    rw [readFrom_stray hsep hopen hclose hword] at h
    cases h

theorem startsWithBrace_closing (text : List Char) : StartsWithBrace ('\x7d' :: text) :=
  fun _ hx => Or.inr (Option.some.inj hx).symm

/-- A derived text begins with a separator or a word. -/
theorem Derives.head (h : Derives rule text f) :
    ∀ x ∈ text.head?, isSeparator x = true ∨ isWordChar x = true := by
  intro x hx
  cases h with
  | nil => cases hx
  | separator hc h =>
    obtain rfl := Option.some.inj hx
    exact Or.inl hc
  | command hword hend hcalls h | loop hword hcalls hcount hseps hbody h =>
    obtain ⟨c, word, rfl⟩ := List.exists_cons_of_ne_nil hcalls.ne_nil
    obtain rfl := Option.some.inj hx
    exact Or.inr (hword _ List.mem_cons_self)

theorem Draft.readFrom_command {word : List Char} {c : Command} (hpending : d.pending = none)
    (hword : ∀ x ∈ word, isWordChar x = true) (hends : EndsWord none text) (hcalls : Calls word c.kind) :
    d.readFrom rule offset (word ++ text) =
      readFrom rule { d with current := d.current ++ .command () c .nil }
        (offset + byteLength word) text := by
  have hspells : Spells (word ++ countText none) (.word word none) text := .word hcalls.ne_nil hword hends
  have haccept : d.accept rule ⟨offset, .word word none⟩ = .ok _ :=
    accept_word_eq_ok_iff.2 ⟨hpending, Or.inl ⟨c, hcalls, rfl, rfl⟩⟩
  rw [countText, List.append_nil] at hspells
  rw [readFrom_piece hspells, haccept]
  rfl

/-- A loop word with its count ends where neither a letter, a digit nor a star follows. -/
theorem CountRule.Gives.endsWord {digits : Option (List Char)} {n : Nat} (h : rule.Gives digits n)
    (hend : ∀ x ∈ text.head?, isWordChar x = false ∧ isDecimalDigit x = false ∧ x ≠ '*') :
    EndsWord digits text := by
  cases digits with
  | none => exact ⟨fun x hx => (hend x hx).1, countDigits_eq_none fun x hx => (hend x hx).2.2⟩
  | some digits =>
    exact ⟨h.ne_nil, fun x hx => isDecimalDigit_of_isDigit (h.denotes.1 x hx), fun x hx => (hend x hx).2.1⟩

/-- Between a loop word and its brace there are separators only. -/
theorem head_separators_opening {seps : List Char} (hseps : ∀ x ∈ seps, isSeparator x = true) :
    ∀ x ∈ (seps ++ '\x7b' :: text).head?, isSeparator x = true ∨ x = '\x7b' := by
  intro x hx
  cases seps with
  | nil =>
    obtain rfl := Option.some.inj hx
    exact Or.inr rfl
  | cons c seps =>
    obtain rfl := Option.some.inj hx
    exact Or.inl (hseps _ List.mem_cons_self)

/-- A loop word is taken in with its count, and its brace begins the body. -/
theorem Draft.readFrom_loop {word seps : List Char} {digits : Option (List Char)} {n : Nat}
    (hpending : d.pending = none) (hword : ∀ x ∈ word, isWordChar x = true) (hcalls : Calls word .loop)
    (hgives : rule.Gives digits n) (hseps : ∀ x ∈ seps, isSeparator x = true) :
    d.readFrom rule offset (word ++ (countText digits ++ (seps ++ '\x7b' :: text))) =
      readFrom rule ⟨⟨n, d.current⟩ :: d.loops, .nil, none⟩
        (offset + byteLength word + byteLength (countText digits) + byteLength seps + 1) text := by
  have hhead : ∀ x ∈ (seps ++ '\x7b' :: text).head?, isSeparator x = true ∨ x = '\x7b' :=
    head_separators_opening hseps
  -- neither a separator nor the brace goes on with the digits or the word before it
  have hends : EndsWord digits (seps ++ '\x7b' :: text) := by
    refine hgives.endsWord fun x hx => ?_
    rcases hhead x hx with hsep | rfl
    · refine ⟨isWordChar_of_isSeparator hsep, isDecimalDigit_of_isSeparator hsep, ?_⟩
      rintro rfl
      exact absurd hsep (by decide)
    · decide
  have haccept : d.accept rule ⟨offset, .word word digits⟩ = .ok _ :=
    accept_word_eq_ok_iff.2 ⟨hpending, Or.inr ⟨hcalls, n, hgives, rfl⟩⟩
  rw [← List.append_assoc, readFrom_piece (.word hcalls.ne_nil hword hends), haccept, byteLength_append,
    ← Nat.add_assoc]
  change readFrom rule _ _ (seps ++ '\x7b' :: text) = _
  rw [readFrom_separators hseps, readFrom_opening]
  rfl

/-- A derivation is read, whatever has been read before, unless a body is due. -/
theorem Derives.readFrom (h : Derives rule text f) (hpending : d.pending = none) :
    d.readFrom rule offset text = .ok { d with current := d.current ++ f } := by
  -- the draft is general for the sake of bodies, which are read with one more loop open
  induction h generalizing d offset with
  | nil => simp
  | separator hc h ih => rw [Draft.readFrom_separator hc, ih hpending]
  | @command word text c f hword hend hcalls h ih =>
    have hends : EndsWord none text := by
      refine ⟨hend, countDigits_eq_none ?_⟩
      rintro x hx rfl
      rcases h.head _ hx with hsep | hword
      · exact absurd hsep (by decide)
      · exact absurd hword (by decide)
    calc d.readFrom rule offset (word ++ text)
        = Draft.readFrom rule { d with current := d.current ++ .command () c .nil }
            (offset + byteLength word) text := Draft.readFrom_command hpending hword hends hcalls
      _ = .ok { d with current := d.current ++ .command () c .nil ++ f } := ih hpending
      _ = _ := by
          rw [Forest.append_assoc]
          rfl
  | @loop word seps inside text digits n body f hword hcalls hgives hseps hbody h ihbody ih =>
    let start := offset + byteLength word + byteLength (countText digits) + byteLength seps + 1
    have hclosing : Draft.accept rule ⟨⟨n, d.current⟩ :: d.loops, body, none⟩
        ⟨start + byteLength inside, .closing⟩ = .ok ⟨d.loops, d.current ++ .loop () n body .nil, none⟩ :=
      Draft.accept_closing_eq_ok_iff.2 ⟨rfl, _, _, rfl, rfl⟩
    calc d.readFrom rule offset (word ++ (countText digits ++ (seps ++ '\x7b' :: (inside ++ '\x7d' :: text))))
        = Draft.readFrom rule ⟨⟨n, d.current⟩ :: d.loops, .nil, none⟩ start (inside ++ '\x7d' :: text) :=
          Draft.readFrom_loop hpending hword hcalls hgives hseps
      _ = Draft.readFrom rule ⟨⟨n, d.current⟩ :: d.loops, body, none⟩ (start + byteLength inside)
            ('\x7d' :: text) := Draft.readFrom_append (ihbody rfl) (startsWithBrace_closing text)
      _ = Draft.readFrom rule ⟨d.loops, d.current ++ .loop () n body .nil, none⟩
            (start + byteLength inside + 1) text := by
          rw [Draft.readFrom_closing, hclosing]
          rfl
      _ = .ok ⟨d.loops, d.current ++ .loop () n body .nil ++ f, none⟩ := ih rfl
      _ = _ := by
          rw [Forest.append_assoc, hpending]
          rfl

/-! ## What is read is derived -/

/-- What the rest of a text has to be, with loops open, for the text to stand for a tree. -/
def Closes (rule : CountRule) (f : Forest Unit) : List OpenLoop → Forest Unit → List Char → Prop
  | [], current, text => ∃ g, Derives rule text g ∧ f = current ++ g
  | inner :: outer, current, text =>
    ∃ inside body rest, text = inside ++ '\x7d' :: rest ∧ Derives rule inside body ∧
      Closes rule f outer (inner.before ++ .loop () inner.count (current ++ body) .nil) rest

/-- What the rest of a text has to be for a draft to become a tree. Where a body is due, it comes first. -/
def Draft.Yields (rule : CountRule) (f : Forest Unit) (d : Draft) (text : List Char) : Prop :=
  match d.pending with
  | none => Closes rule f d.loops d.current text
  | some p =>
    ∃ seps rest, (∀ x ∈ seps, isSeparator x = true) ∧ text = seps ++ '\x7b' :: rest ∧
      Closes rule f (⟨p.count, d.current⟩ :: d.loops) .nil rest

section
variable {loops : List OpenLoop} {current : Forest Unit}

/-- What stands in front of a sequence and is derived with it may be moved from the draft to the text. -/
theorem Closes.prepend (pre : List Char) (h : Forest Unit) (hclosed : Closes rule f loops (current ++ h) text)
    (hpre : ∀ s t g, text = s ++ t → Derives rule s g → Derives rule (pre ++ s) (h ++ g)) :
    Closes rule f loops current (pre ++ text) := by
  cases loops with
  | nil =>
    obtain ⟨g, hderives, rfl⟩ := hclosed
    exact ⟨h ++ g, hpre text [] g (List.append_nil text).symm hderives, Forest.append_assoc ..⟩
  | cons inner outer =>
    obtain ⟨inside, g, rest, rfl, hderives, hrest⟩ := hclosed
    refine ⟨pre ++ inside, h ++ g, rest, (List.append_assoc ..).symm, hpre _ _ g rfl hderives, ?_⟩
    rwa [← Forest.append_assoc]

/-- With all that is demanded, the text is read to its end. -/
theorem Closes.readFrom (hclosed : Closes rule f loops current text) :
    Draft.readFrom rule ⟨loops, current, none⟩ offset text >>= Draft.finish = .ok f := by
  induction loops generalizing current text offset with
  | nil =>
    obtain ⟨g, hderives, rfl⟩ := hclosed
    rw [hderives.readFrom rfl]
    rfl
  | cons inner outer ih =>
    obtain ⟨inside, body, rest, rfl, hderives, hrest⟩ := hclosed
    have hread : Draft.readFrom rule ⟨inner :: outer, current, none⟩ offset (inside ++ '\x7d' :: rest) = _ :=
      Draft.readFrom_append (hderives.readFrom rfl) (startsWithBrace_closing rest)
    have haccept : Draft.accept rule ⟨inner :: outer, current ++ body, none⟩
        ⟨offset + byteLength inside, .closing⟩ = .ok _ :=
      Draft.accept_closing_eq_ok_iff.2 ⟨rfl, inner, outer, rfl, rfl⟩
    rw [hread, Draft.readFrom_closing, haccept]
    exact ih hrest

end

namespace Draft.Yields

theorem nil (h : d.finish = .ok f) : d.Yields rule f [] := by
  obtain ⟨loops, current, pending⟩ := d
  cases pending with
  | some p => cases h
  | none =>
    cases loops with
    | nil =>
      obtain rfl : current = f := Except.ok.inj h
      exact ⟨.nil, .nil, (Forest.append_nil current).symm⟩
    | cons inner outer => cases h

theorem separator {c : Char} (hc : isSeparator c = true) (h : d.Yields rule f text) :
    d.Yields rule f (c :: text) := by
  obtain ⟨loops, current, pending⟩ := d
  cases pending with
  | none =>
    have hclosed : Closes rule f loops (current ++ .nil) text := by rwa [Forest.append_nil]
    exact hclosed.prepend [c] .nil fun _ _ _ _ hderives => .separator hc hderives
  | some p =>
    obtain ⟨seps, rest, hseps, rfl, hclosed⟩ := h
    exact ⟨c :: seps, rest, List.forall_mem_cons.2 ⟨hc, hseps⟩, rfl, hclosed⟩

theorem opening (haccept : d.accept rule ⟨offset, .opening⟩ = .ok e) (h : e.Yields rule f text) :
    d.Yields rule f ('\x7b' :: text) := by
  obtain ⟨loops, current, pending⟩ := d
  obtain ⟨p, rfl, rfl⟩ := accept_opening_eq_ok_iff.1 haccept
  exact ⟨[], text, by simp, rfl, h⟩

theorem closing (haccept : d.accept rule ⟨offset, .closing⟩ = .ok e) (h : e.Yields rule f text) :
    d.Yields rule f ('\x7d' :: text) := by
  obtain ⟨loops, current, pending⟩ := d
  obtain ⟨rfl, inner, outer, rfl, rfl⟩ := accept_closing_eq_ok_iff.1 haccept
  refine ⟨[], .nil, text, rfl, .nil, ?_⟩
  rw [Forest.append_nil]
  exact h

theorem word {letters : List Char} {digits : Option (List Char)}
    (haccept : d.accept rule ⟨offset, .word letters digits⟩ = .ok e) (h : e.Yields rule f text)
    (hletters : ∀ x ∈ letters, isWordChar x = true) (hends : EndsWord digits text) :
    d.Yields rule f (letters ++ (countText digits ++ text)) := by
  obtain ⟨loops, current, pending⟩ := d
  obtain ⟨rfl, ⟨c, hcalls, rfl, rfl⟩ | ⟨hcalls, n, hgives, rfl⟩⟩ := accept_word_eq_ok_iff.1 haccept
  · refine Closes.prepend letters (.command () c .nil) h fun s t g htext hderives => ?_
    -- what follows in the sequence also follows in the text, so it does not go on with the word
    refine .command hletters (fun x hx => ?_) hcalls hderives
    cases s with
    | nil => cases hx
    | cons y s =>
      obtain rfl : text = y :: s ++ t := htext
      exact hends.1 x hx
  · -- the body that was due is the first to be closed
    obtain ⟨seps, rest, hseps, rfl, inside, body, rest, rfl, hbody, hclosed⟩ := h
    have hprepend := hclosed.prepend (letters ++ (countText digits ++ (seps ++ '\x7b' :: (inside ++ ['\x7d']))))
      (.loop () n body .nil) fun s t g htext hderives => by
        simpa using Derives.loop hletters hcalls hgives hseps hbody hderives
    simp only [List.append_assoc, List.cons_append, List.nil_append] at hprepend
    exact hprepend

end Draft.Yields

/-- A draft becomes the trees that the rest of the text makes of it. -/
theorem Draft.yields_of_readFrom (h : d.readFrom rule offset text >>= finish = .ok f) :
    d.Yields rule f text := by
  induction offset, text using cut_induction generalizing d with
  | nil offset =>
    rw [readFrom_nil] at h
    exact .nil h
  | separator offset c text hc ih =>
    rw [readFrom_separator hc] at h
    exact .separator hc (ih h)
  | piece offset piece lexeme rest hspells ih =>
    rw [readFrom_piece hspells, bind_assoc] at h
    obtain ⟨e, haccept, hread⟩ := exists_of_bind_eq_ok h
    have hyields := ih hread
    cases hspells with
    | opening => exact .opening haccept hyields
    | closing => exact .closing haccept hyields
    | word hne hletters hends =>
      rw [List.append_assoc]
      exact .word haccept hyields hletters hends
  | stray offset c text hsep hopen hclose hword =>
    rw [readFrom_stray hsep hopen hclose hword] at h
    cases h

/-- Going on with a text succeeds if and only if the text is as demanded, and gives the tree it stands for. -/
theorem Draft.readFrom_eq_ok_iff :
    d.readFrom rule offset text >>= finish = .ok f ↔ d.Yields rule f text := by
  refine ⟨yields_of_readFrom, fun h => ?_⟩
  obtain ⟨loops, current, pending⟩ := d
  cases pending with
  | none => exact Closes.readFrom h
  | some p =>
    obtain ⟨seps, rest, hseps, rfl, hclosed⟩ := h
    rw [readFrom_separators hseps, readFrom_opening]
    exact hclosed.readFrom

/-! ## The tree and the program of a text -/

theorem Draft.readFrom_empty_eq_ok_iff :
    Draft.empty.readFrom rule offset text >>= finish = .ok f ↔ Derives rule text f := by
  rw [readFrom_eq_ok_iff]
  constructor
  · rintro ⟨g, hderives, rfl⟩
    exact hderives
  · intro h
    exact ⟨f, h, rfl⟩

theorem readForest_eq_readFrom :
    readForest rule text = Draft.empty.readFrom rule 0 text >>= Draft.finish := rfl

/-- The reader reads the trees that derivations of the text stand for. -/
theorem readForest_eq_ok_iff : readForest rule text = .ok f ↔ Derives rule text f := by
  rw [readForest_eq_readFrom, Draft.readFrom_empty_eq_ok_iff]

/-- A separator in front does not matter. -/
theorem derives_separator_iff {c : Char} (hc : isSeparator c = true) :
    Derives rule (c :: text) f ↔ Derives rule text f := by
  rw [← readForest_eq_ok_iff, ← Draft.readFrom_empty_eq_ok_iff, ← Draft.readFrom_separator hc]
  rfl

/-- A text stands for one tree only. -/
theorem Derives.unique (hf : Derives rule text f) (hg : Derives rule text g) : f = g :=
  Except.ok.inj ((readForest_eq_ok_iff.2 hf).symm.trans (readForest_eq_ok_iff.2 hg))

/-- Every count of a derived tree is given by a loop word. -/
theorem Derives.exists_gives (h : Derives rule text f) {n : Nat} (hn : n ∈ f.counts) :
    ∃ digits, rule.Gives digits n := by
  induction h with
  | nil => cases hn
  | separator hc h ih | command hword hend hcalls h ih => exact ih hn
  | loop hword hcalls hgives hseps hbody h ihbody ih =>
    rw [Forest.counts, List.mem_cons, List.mem_append] at hn
    rcases hn with rfl | hn | hn
    · exact ⟨_, hgives⟩
    · exact ihbody hn
    · exact ih hn

theorem Derives.one_le_of_mem_counts (h : Derives rule text f) : ∀ n ∈ f.counts, 1 ≤ n := by
  intro n hn
  obtain ⟨digits, hgives⟩ := h.exists_gives hn
  exact hgives.pos

/-- A program is read if its tree is. -/
theorem readProgram_eq_ok_iff_readForest {q : Program} :
    readProgram rule text = .ok q ↔ ∃ f, readForest rule text = .ok f ∧ Program.ofForest f = q := by
  rw [readProgram]
  cases readForest rule text with
  | error reason => simp [Except.map]
  | ok f => simp [Except.map]

theorem readProgram_eq_ok_iff {q : Program} :
    readProgram rule text = .ok q ↔ ∃ f, Derives rule text f ∧ Program.ofForest f = q := by
  simp only [readProgram_eq_ok_iff_readForest, readForest_eq_ok_iff]

/-- Two letters that call commands stand for the two commands, with a space between them. -/
theorem derives_letters {a b : Char} {c d : Command} (ha : isWordChar a = true) (hb : isWordChar b = true)
    (hc : Calls [a] c.kind) (hd : Calls [b] d.kind) :
    Derives rule [a, ' ', b] (.command () c (.command () d .nil)) := by
  have hsecond : Derives rule ([b] ++ []) (.command () d .nil) :=
    .command (List.forall_mem_singleton.2 hb) nofun hd .nil
  have hspace : isWordChar ' ' = false := by decide
  have hend : ∀ x ∈ [' ', b].head?, isWordChar x = false := by
    intro x hx
    obtain rfl := Option.some.inj hx
    exact hspace
  exact .command (List.forall_mem_singleton.2 ha) hend hc (.separator (by decide) hsecond)

/-- The program of a text holds the tree of its derivation, numbered in the order of the text. -/
theorem Derives.forest_ofForest (h : Derives rule text f) :
    (Program.ofForest f).forest = f.numberFrom 0 :=
  Program.forest_ofForest f h.one_le_of_mem_counts

/-- The reader succeeds on exactly the texts of the grammar. On success the program is the tree that the
derivation stands for, and its instructions are numbered in the order of the text. -/
theorem readProgram_iff_derives (default : Nat) (text : List Char) :
    ((∃ q, readProgram (.free default) text = .ok q) ↔ ∃ f, Derives (.free default) text f) ∧
      ∀ q, readProgram (.free default) text = .ok q →
        (∀ f, Derives (.free default) text f ↔ f = q.forest.shape) ∧
          q.forest.labels = List.range q.nodeCount := by
  refine ⟨⟨?_, ?_⟩, ?_⟩
  · rintro ⟨q, hread⟩
    obtain ⟨f, hderives, -⟩ := readProgram_eq_ok_iff.1 hread
    exact ⟨f, hderives⟩
  · rintro ⟨f, hderives⟩
    exact ⟨_, readProgram_eq_ok_iff.2 ⟨f, hderives, rfl⟩⟩
  · intro q hread
    obtain ⟨f, hderives, rfl⟩ := readProgram_eq_ok_iff.1 hread
    have hshape : (Program.ofForest f).forest.shape = f := by
      rw [hderives.forest_ofForest, Forest.shape_numberFrom, Forest.shape_eq_self]
    refine ⟨fun g => ?_, Program.labels_ofForest f hderives.one_le_of_mem_counts⟩
    rw [hshape]
    constructor
    · exact fun hg => hg.unique hderives
    · rintro rfl
      exact hderives

end Notation

end RobotPuzzle
